import PicoConduit.ClientCalls
import PicoConduit.FrameHeader
import PicoConduit.Reboot

namespace PicoConduit

open Checked Heapless Utf8 Transducer

set_option autoImplicit true

/-- A loop ends as a conversation does, with what is said in it sent. -/
inductive Ends (W : τ → List ω → Prop) : Exec (Control × DeviceState × τ) →
    Exec (Control × DeviceState × List ω) → Prop
  | panic : Ends W (.error p) (.error p)
  | ended (h : W t said) : Ends W (.ok (ending, s, t)) (.ok (ending, s, said))

/-- What is said may be seen in another way. -/
theorem Ends.map {f : List ω → List ω'} (h : Ends W r x)
    (hW : ∀ t said, W t said → W' t (f said)) :
    Ends W' r (x.map fun y => (y.1, y.2.1, f y.2.2)) := by
  cases h with
  | panic => exact .panic
  | ended h => exact .ended (hW _ _ h)

theorem handleClient_stop (h : clientTurn lib T s t = .ok (ending, s', t'))
    (hc : ending ≠ .loop) (turns : Nat) :
    handleClient lib T (turns + 1) s t = .ok (ending, s', t') := by
  rw [handleClient, h, ok_bind]
  cases ending with
  | loop => exact absurd rfl hc
  | closed => rfl
  | rebooting => rfl

theorem handleClient_loop (h : clientTurn lib T s t = .ok (.loop, s', t')) (turns : Nat) :
    handleClient lib T (turns + 1) s t = handleClient lib T turns s' t' := by
  rw [handleClient, h, ok_bind]

theorem handleClient_panic (h : clientTurn lib T s t = .error p) (turns : Nat) :
    handleClient lib T (turns + 1) s t = .error p := by
  rw [handleClient, h, error_bind]

section Hands

variable {T : Transport τ} {written : τ → List Bytes} {item : κ → Item}
  {R : τ → List κ → List Bytes → Prop}

end Hands

theorem sent_length (h : bytes ∈ sent lib r) : bytes.length ≤ maxMsgLen := by
  rw [sent, serializeResponse] at h
  cases htext : lib.toSlice r maxMsgLen with
  | none =>
    rw [htext] at h
    cases h
  | some text =>
    simp only [htext] at h
    by_cases hlen : text.length ≥ maxMsgLen
    · rw [if_pos hlen] at h
      cases h
    · rw [if_neg hlen] at h
      rw [List.mem_singleton.1 h, List.length_append, List.length_singleton]
      omega

/-- The frame in which the server sends a text. -/
def textFrame (bytes : Bytes) : WsFrame where
  first := 0x81
  maskKey := none
  wide := decide (125 < (bytes.take maxMsgLen).length)
  payload := bytes.take maxMsgLen
  bounded := List.length_take_le _ _
  narrow h := Nat.le_of_not_lt (of_decide_eq_false h)

/-- The frame with which the server echoes a ping. -/
def WsFrame.pongFrame (f : WsFrame) : WsFrame where
  first := 0x8A
  maskKey := none
  wide := false
  payload := f.payload.take 125
  bounded := (List.length_take_le _ _).trans (by decide)
  narrow _ := List.length_take_le _ _

def closeFrame : WsFrame where
  first := 0x88
  maskKey := none
  wide := false
  payload := []
  bounded := Nat.zero_le _
  narrow _ := Nat.zero_le _

/-- What the server sends for a frame that is neither a text nor the end of the connection. -/
def WsFrame.echo (f : WsFrame) : List WsFrame :=
  if f.opcode = opcodePing ∧ f.payload.length ≤ 125 then [f.pongFrame] else []

/-- The frames that the server sends for those of a client, and how the connection ends. -/
def transcript (lib : JsonLibrary) (s : DeviceState) :
    List WsFrame → Exec (Control × DeviceState × List WsFrame)
  | [] => pure (.closed, s, [])
  | f :: frames =>
    if f.opcode = opcodeText then do
      let (r, s) ← answerItem lib s (.frame f.payload)
      if (Item.frame f.payload).reboots lib then
        pure (.rebooting, s, (sent lib r).map textFrame)
      else do
        let (ending, s, said) ← transcript lib s frames
        pure (ending, s, (sent lib r).map textFrame ++ said)
    else if f.opcode = opcodeClose then pure (.closed, s, [closeFrame])
    else do
      let (ending, s, said) ← transcript lib s frames
      pure (ending, s, f.echo ++ said)

theorem secondByte_none (n : Nat) : secondByte none n = UInt8.ofNat n := UInt8.zero_or

theorem textFrame_encode (h : bytes.length ≤ maxMsgLen) :
    (textFrame bytes).encode = textHeader bytes.length ++ bytes := by
  have htake : bytes.take maxMsgLen = bytes := List.take_of_length_le h
  simp only [WsFrame.encode, textFrame, WsFrame.len7, WsFrame.extension, htake, keyBytes, masked,
    secondByte_none, List.nil_append, textHeader, decide_eq_true_eq]
  by_cases hn : bytes.length ≤ 125
  · rw [if_neg (Nat.not_lt.2 hn), if_neg (Nat.not_lt.2 hn), if_pos hn]
    rfl
  · have hshift : bytes.length >>> 8 = bytes.length / 256 := Nat.shiftRight_eq_div_pow _ 8
    have hand : bytes.length &&& 0xFF = bytes.length % 256 := Nat.and_two_pow_sub_one_eq_mod _ 8
    rw [if_pos (Nat.lt_of_not_le hn), if_pos (Nat.lt_of_not_le hn), if_neg hn, hshift, hand]
    rfl

theorem echo_stream (f : WsFrame) : stream f.echo = f.reply.flatten := by
  rw [WsFrame.echo, WsFrame.reply]
  split
  · rename_i h
    have htake : f.payload.take 125 = f.payload := List.take_of_length_le h.2
    simp only [stream, List.flatMap_cons, List.flatMap_nil, List.flatten_cons, List.flatten_nil,
      List.append_nil, WsFrame.encode, WsFrame.pongFrame, WsFrame.len7, WsFrame.extension, htake,
      keyBytes, masked, secondByte_none, List.nil_append, Bool.false_eq_true, ↓reduceIte]
    rfl
  · rfl

theorem stream_append (frames later : List WsFrame) :
    stream (frames ++ later) = stream frames ++ stream later := List.flatMap_append

/-- The two writes of each text that is sent, its header and its bytes. -/
def textWrites (bytes : Bytes) : List Bytes := [textHeader bytes.length, bytes]

theorem textWrites_stream (lib : JsonLibrary) (r : Response) :
    ((sent lib r).flatMap textWrites).flatten = stream ((sent lib r).map textFrame) := by
  have heach : ∀ bytes ∈ sent lib r, (textWrites bytes).flatten = (textFrame bytes).encode :=
    fun bytes h => by
      rw [textFrame_encode (sent_length h)]
      simp only [textWrites, List.flatten_cons, List.flatten_nil, List.append_nil]
  generalize sent lib r = texts at heach
  induction texts with
  | nil => rfl
  | cons bytes texts ih =>
    rw [List.flatMap_cons, List.flatten_append, heach bytes List.mem_cons_self,
      ih fun b h => heach b (List.mem_cons_of_mem _ h)]
    rfl

theorem wsWriteFrame_steady (hs : Socket.Steady t) (h : bytes.length ≤ maxMsgLen) :
    wsWriteFrame bytes t = .ok (.ok (), { t with written := t.written ++ textWrites bytes }) := by
  have hsmall : (textHeader bytes.length).length ≤ 4 := by
    rw [textHeader]
    split
    · exact Nat.le_add_left 2 2
    · exact Nat.le_refl 4
  have hout : List.replicate 4 (0 : UInt8) = List.replicate (textHeader bytes.length).length 0 ++
      List.replicate (4 - (textHeader bytes.length).length) 0 := by
    rw [List.replicate_append_replicate, Nat.add_sub_cancel' hsmall]
  have hslice : slice (textHeader bytes.length ++
      List.replicate (4 - (textHeader bytes.length).length) 0) 0 (textHeader bytes.length).length =
        .ok (textHeader bytes.length) := by
    rw [slice_zero (by simp only [List.length_append]; omega), List.take_left]
  have hopen := hs.isOpen
  rw [wsWriteFrame, hout, encodeTextFrameHeader_eq h List.length_replicate, ok_bind]
  simp only [hslice, ok_bind, Socket.writeAll, hopen, Bool.false_eq_true, ↓reduceIte, pure_eq,
    textWrites, List.append_assoc, List.cons_append, List.nil_append]

theorem ws_readFrame_eq (h : wsReadFrame buf s = .ok x) : (ws buf).readFrame s = x :=
  (wsReadFrame_yields buf s).get_eq h

theorem ws_readFrame_congr (h : wsReadFrame buf s = wsReadFrame buf s') :
    (ws buf).readFrame s = (ws buf).readFrame s' := by
  obtain ⟨x, hx, -⟩ := wsReadFrame_yields buf s'
  rw [ws_readFrame_eq hx, ws_readFrame_eq (h.trans hx)]

theorem clientTurn_congr {T : Transport τ} (h : T.readFrame t = T.readFrame t') :
    clientTurn lib T s t = clientTurn lib T s t' := by
  simp only [clientTurn, h]

theorem handleClient_congr {T : Transport τ} (h : T.readFrame t = T.readFrame t') (turns : Nat) :
    handleClient lib T (turns + 1) s t = handleClient lib T (turns + 1) s t' := by
  rw [handleClient, handleClient, clientTurn_congr h]

/-- A turn in which a text frame has been read. -/
theorem ws_text_turn (hread : wsReadFrame buf t = .ok (.ok payload, t₁)) (hs : t₁.Steady)
    (ha : answerItem lib s (.frame payload) = .ok (r, s')) :
    clientTurn lib (ws buf) s t = .ok (if s'.pendingReboot then .rebooting else .loop, s',
      { t₁ with written := t₁.written ++ (sent lib r).flatMap textWrites }) := by
  have hmem : ∀ bytes, serializeResponse lib.toSlice r maxMsgLen = .ok bytes →
      sent lib r = [bytes] := fun bytes h => by rw [sent, h]
  simp only [answerItem] at ha
  simp only [clientTurn, ws_readFrame_eq hread, ha, ok_bind]
  cases hr : serializeResponse lib.toSlice r maxMsgLen with
  | error e =>
    have hnone : sent lib r = [] := by rw [sent, hr]
    rw [hnone, List.flatMap_nil, List.append_nil]
    rfl
  | ok bytes =>
    have hone := hmem bytes hr
    have hlen : bytes.length ≤ maxMsgLen := sent_length (hone ▸ List.mem_singleton_self bytes)
    have hwrite : (ws buf).writeFrame bytes t₁ =
        (.ok (), { t₁ with written := t₁.written ++ textWrites bytes }) :=
      (wsWriteFrame_yields bytes t₁).get_eq (wsWriteFrame_steady hs hlen)
    rw [hone, List.flatMap_cons, List.flatMap_nil, List.append_nil]
    simp only [hwrite, pure_eq]

theorem ws_panic_turn (hread : wsReadFrame buf t = .ok (.ok payload, t₁))
    (ha : answerItem lib s (.frame payload) = .error p) :
    clientTurn lib (ws buf) s t = .error p := by
  simp only [answerItem] at ha
  simp only [clientTurn, ws_readFrame_eq hread, ha, error_bind]

theorem ws_closed_turn (hread : wsReadFrame buf t = .ok (.error .disconnected, t')) :
    clientTurn lib (ws buf) s t = .ok (.closed, s, t') := by
  simp only [clientTurn, ws_readFrame_eq hread, pure_eq]

theorem transcript_text (ht : WsFrame.opcode f = opcodeText)
    (ha : answerItem lib s (.frame f.payload) = .ok (r, s')) :
    transcript lib s (f :: frames) =
      if (Item.frame f.payload).reboots lib then .ok (.rebooting, s', (sent lib r).map textFrame)
      else (transcript lib s' frames).map fun x =>
        (x.1, x.2.1, (sent lib r).map textFrame ++ x.2.2) := by
  simp only [transcript, if_pos ht, ha, ok_bind, pure_eq]
  split
  · rfl
  · cases transcript lib s' frames <;> rfl

theorem transcript_panic (ht : WsFrame.opcode f = opcodeText)
    (ha : answerItem lib s (.frame f.payload) = .error p) :
    transcript lib s (f :: frames) = .error p := by
  simp only [transcript, if_pos ht, ha, error_bind]

theorem transcript_skip (ht : WsFrame.opcode f ≠ opcodeText) (hc : f.opcode ≠ opcodeClose) :
    transcript lib s (f :: frames) =
      (transcript lib s frames).map fun x => (x.1, x.2.1, f.echo ++ x.2.2) := by
  rw [transcript, if_neg ht, if_neg hc]
  cases transcript lib s frames <;> rfl

theorem transcript_close (hc : WsFrame.opcode f = opcodeClose) :
    transcript lib s (f :: frames) = .ok (.closed, s, [closeFrame]) := by
  rw [transcript, hc, if_neg (by decide), if_pos rfl, pure_eq]

/-- What has been written to a socket since some earlier state of it are the given frames. -/
def WroteSince (t t' : Socket) (said : List WsFrame) : Prop :=
  t'.written.flatten = t.written.flatten ++ stream said

theorem WroteSince.trans (h : WroteSince t t₁ said) (h' : WroteSince t₁ t₂ more) :
    WroteSince t t₂ (said ++ more) := by
  rw [WroteSince, h', h, stream_append, List.append_assoc]

theorem wroteSince_texts (lib : JsonLibrary) (r : Response) (hw : Socket.written t₁ = t.written) :
    WroteSince t { t₁ with written := t₁.written ++ (sent lib r).flatMap textWrites }
      ((sent lib r).map textFrame) := by
  rw [WroteSince, List.flatten_append, textWrites_stream, hw]

theorem wroteSince_echo (f : WsFrame) (hw : Socket.written t₁ = t.written) :
    WroteSince t { t₁ with written := t₁.written ++ f.reply } f.echo := by
  rw [WroteSince, List.flatten_append, ← echo_stream, hw]

/-- What the server writes to a WebSocket are the frames of the transcript, however the frames of
the client arrive. -/
theorem ws_transcribes (lib : JsonLibrary) (buf : Vector UInt8 maxMsgLen) (frames : List WsFrame)
    (ht : Socket.Steady t) (hin : t.incoming = stream frames) (hs : s.pendingReboot = false)
    (hturns : (texts frames).length < turns) :
    Ends (WroteSince t) (handleClient lib (ws buf) turns s t) (transcript lib s frames) := by
  obtain ⟨turns, rfl⟩ : ∃ k, turns = k + 1 := Nat.exists_eq_add_one.2 (by omega)
  induction frames generalizing s t turns with
  | nil =>
    obtain ⟨t', hend, hw, -⟩ := wsTurn_ends buf ht hin
    rw [handleClient_stop (ws_closed_turn (untilFrame_error hend)) Control.noConfusion]
    exact .ended (by rw [WroteSince, hw]; exact (List.append_nil _).symm)
  | cons f frames ih =>
    have hsplit : t.incoming = f.encode ++ stream frames := hin
    obtain ⟨t₁, hr, ht₁, hin₁, hw₁⟩ := wsTurn_reads buf ht hsplit
    by_cases hopcode : f.opcode = opcodeText
    · have hread : wsReadFrame buf t = .ok (.ok f.payload, t₁) := by
        rw [handleFrame, if_pos hopcode] at hr
        exact untilFrame_some hr
      rw [texts, if_pos hopcode, List.length_cons] at hturns
      cases ha : answerItem lib s (.frame f.payload) with
      | error p =>
        rw [handleClient_panic (ws_panic_turn hread ha), transcript_panic hopcode ha]
        exact .panic
      | ok a =>
        obtain ⟨r, s'⟩ := a
        have hreboot := answerItem_pendingReboot ha
        rw [hs, Bool.false_or] at hreboot
        have hturn := ws_text_turn hread ht₁ ha
        have hsaid := wroteSince_texts lib r hw₁
        rw [hreboot] at hturn
        rw [transcript_text hopcode ha]
        by_cases hb : (Item.frame f.payload).reboots lib = true
        · rw [if_pos hb] at hturn ⊢
          rw [handleClient_stop hturn Control.noConfusion]
          exact .ended hsaid
        · obtain ⟨k, rfl⟩ : ∃ k, turns = k + 1 := Nat.exists_eq_add_one.2 (by omega)
          rw [if_neg hb] at hturn ⊢
          rw [handleClient_loop hturn]
          have hrest := ih (t := { t₁ with
              written := t₁.written ++ (sent lib r).flatMap textWrites })
            ⟨ht₁.isOpen, ht₁.pieces⟩ hin₁ (hreboot.trans (Bool.eq_false_iff.2 hb)) k
            (Nat.lt_of_succ_lt_succ hturns)
          exact hrest.map (f := (_ ++ ·)) fun t' said hw => hsaid.trans hw
    · by_cases hc : f.opcode = opcodeClose
      · rw [hc, handleFrame_close ht₁] at hr
        rw [transcript_close hc,
          handleClient_stop (ws_closed_turn (untilFrame_error hr)) Control.noConfusion]
        refine .ended ?_
        rw [WroteSince, List.flatten_append, hw₁]
        rfl
      · rw [handleFrame_skips f ht₁ hopcode hc] at hr
        rw [texts, if_neg hopcode, if_neg hc] at hturns
        rw [transcript_skip hopcode hc,
          handleClient_congr (ws_readFrame_congr (untilFrame_none hr))]
        have hrest := ih (t := { t₁ with written := t₁.written ++ f.reply })
          ⟨ht₁.isOpen, ht₁.pieces⟩ hin₁ hs turns hturns
        exact hrest.map (f := (_ ++ ·)) fun t' said hw => (wroteSince_echo f hw₁).trans hw

def MqttEvent.payload : MqttEvent → Option Bytes
  | .publish payload => some payload
  | _ => none

def ResponseData.withBroker (mqtt : MqttConfig) : ResponseData → ResponseData
  | .config ssid ip connected _ => .config ssid ip connected (some mqtt)
  | data => data

/-- A response to which the broker is added if it reports the configuration. -/
def Response.withBroker (mqtt : MqttConfig) (r : Response) : Response :=
  { r with data := r.data.map (ResponseData.withBroker mqtt) }

def DeviceState.withBroker (mqtt : MqttConfig) (s : DeviceState) : DeviceState :=
  { s with configMqtt := some mqtt }

/-- The same answer and the same state, with the broker added to both. -/
def addBroker (mqtt : MqttConfig) (x : Response × DeviceState) : Response × DeviceState :=
  (x.1.withBroker mqtt, x.2.withBroker mqtt)

theorem Answer.Plain.withBroker (h : Answer.Plain a) (reqId : String) (mqtt : MqttConfig) :
    (a.respond reqId).withBroker mqtt = a.respond reqId := by
  cases h <;> rfl

theorem withBroker_subscriptions (s : DeviceState) (mqtt : MqttConfig) :
    (s.withBroker mqtt).subscriptions = s.subscriptions := rfl

theorem withBroker_configured (s : DeviceState) (mqtt : MqttConfig) (p : Port) :
    (s.withBroker mqtt).configured p = s.configured p := by
  cases p <;> rfl

theorem subscribe_withBroker (mqtt : MqttConfig) (s : DeviceState) (reqId : String)
    (target : SubscriptionTarget) : (Operation.subscribe target).execute reqId (s.withBroker mqtt) =
      ((Operation.subscribe target).execute reqId s).map (addBroker mqtt) := by
  simp only [Operation.execute, Operation.apply, withBroker_subscriptions]
  by_cases hany : s.subscriptions.toList.any (fun e => e.sameTarget target) = true
  · simp only [hany, ↓reduceIte]
    rfl
  · simp only [hany]
    cases s.subscriptions.push ⟨(HString.empty.pushStr reqId).getD .empty, target⟩ <;> rfl

theorem unsubscribe_withBroker (mqtt : MqttConfig) (s : DeviceState) (reqId : String)
    (w : Watched) : (Operation.unsubscribe w).execute reqId (s.withBroker mqtt) =
      ((Operation.unsubscribe w).execute reqId s).map (addBroker mqtt) := by
  simp only [Operation.execute, Operation.apply, withBroker_subscriptions]
  by_cases hw : ∃ e ∈ s.subscriptions.toList, e.target.watched = w
  · simp only [hw, ↓reduceIte]
    rfl
  · simp only [hw, ↓reduceIte]
    rfl

theorem Command.Asks.withBroker {cmd : Command} (h : cmd.Asks op) (mqtt : MqttConfig)
    (s : DeviceState) (reqId : String) :
    op.execute reqId (s.withBroker mqtt) = (op.execute reqId s).map (addBroker mqtt) := by
  cases h with
  | refused | reported | rebooting => rfl
  | served _ _ hp =>
    exact congrArg (fun r => Except.ok (r, s.withBroker mqtt)) (hp.withBroker reqId mqtt).symm
  | @configured _ setting => cases setting <;> rfl
  | @written p checks =>
    simp only [Operation.execute, Operation.apply, withBroker_configured]
    split
    · cases checks with
      | error e => rfl
      | ok u =>
        simp only
        split
        · rfl
        · exact congrArg (fun r => Except.ok (r, s.withBroker mqtt))
            ((payloadAnswer_plain cmd.bytes).withBroker reqId mqtt).symm
    · rfl
  | levelWatched | edgeWatched | channelWatched => exact subscribe_withBroker mqtt s reqId _
  | pinReleased | channelReleased => exact unsubscribe_withBroker mqtt s reqId _

def pingFrame : WsFrame where
  first := 0x89
  maskKey := rebootTextFrame.maskKey
  wide := false
  payload := [0x61]
  bounded := Nat.le_of_ble_eq_true rfl
  narrow _ := Nat.le_of_ble_eq_true rfl

end PicoConduit
