import PicoConduit.Serving
import PicoConduit.WsTransport

namespace PicoConduit
open Checked Heapless Utf8 Transducer
set_option autoImplicit true

/-- A command that a TCP client sends, without the newline that ends it. -/
structure Line where
  bytes : Bytes
  closed : newline ∉ bytes

/-- A line that is longer than a message may be. -/
structure LongLine extends Line where
  long : maxMsgLen < bytes.length

def lineStream (lines : List Line) : Bytes := lines.flatMap fun line => line.bytes ++ [newline]

def Line.item (line : Line) : Item :=
  if line.bytes.length ≤ maxMsgLen - 1 then .frame line.bytes else .failure .msgTooLarge

theorem Line.item_result (line : Line) : line.item.result = lineResult line.bytes := by
  simp only [Line.item, lineResult]
  split <;> rfl

/-- A connection on which some lines are still to come. -/
def TcpConnection.Has (t : TcpConnection) (lines : List Line) (w : List Bytes) : Prop :=
  t.At [] (lineStream lines) w

theorem tcp_readFrame (h : tcpReadFrame buf (TcpConnection.toTcpTransport t) = .ok (r, t')) :
    ∃ c, (tcp buf).readFrame t = (r, c) ∧ c.toTcpTransport = t' := by
  have hget := (tcpReadFrame_yields buf t).get_eq h
  have hfst : ((tcp buf).readFrame t).1 = r := congrArg Prod.fst hget
  exact ⟨_, Prod.ext hfst rfl, congrArg Prod.snd hget⟩

/-- The TCP transport hands over the lines of its stream, and an error for each that is too
long. -/
theorem tcp_hands (buf : Vector UInt8 maxMsgLen) :
    Hands (tcp buf) (·.socket.written) Line.item TcpConnection.Has where
  written_eq h := h.written
  read {t line lines w} h := by
    rw [TcpConnection.Has, lineStream, List.flatMap_cons, List.append_assoc] at h
    obtain ⟨t', hr, hat⟩ := tcpReadFrame_line buf h line.closed
    obtain ⟨c, hc, rfl⟩ := tcp_readFrame hr
    rw [line.item_result]
    exact ⟨c, hc, hat⟩
  finish h := by
    obtain ⟨t', hr, hw⟩ := tcpReadFrame_end buf h
    obtain ⟨c, hc, rfl⟩ := tcp_readFrame hr
    exact ⟨c, hc, hw⟩
  write bytes h := by
    obtain ⟨hr, hat⟩ := tcpWriteFrame_at bytes h
    exact ⟨_, Prod.ext hr rfl, hat⟩

/-- A TCP connection over which some lines come, in pieces of any sizes. -/
def TcpConnection.start (lines : List Line) (pieces : List Nat) : TcpConnection :=
  .accepted ⟨lineStream lines, pieces.map .bytes, [], false⟩

theorem steady_pieces (bytes : Bytes) (pieces : List Nat) (w : List Bytes) :
    Socket.Steady ⟨bytes, pieces.map .bytes, w, false⟩ := by
  refine ⟨rfl, fun a ha => ?_⟩
  obtain ⟨n, -, rfl⟩ := List.mem_map.1 ha
  exact ⟨n, rfl⟩

theorem TcpConnection.start_has (lines : List Line) (pieces : List Nat) :
    (TcpConnection.start lines pieces).Has lines [] :=
  ⟨steady_pieces _ _ _, holds_nil rfl rfl, rfl, rfl⟩

/-- A text frame of a WebSocket client that is longer than a message may be. -/
structure LongFrame where
  first : UInt8
  maskKey : Option (Vector UInt8 4)
  payload : Bytes
  text : first &&& 0x0F = opcodeText
  long : maxMsgLen < payload.length

/-- The length field, which announces a length of two or of eight bytes. -/
def LongFrame.len7 (f : LongFrame) : Nat := if f.payload.length < 65536 then 126 else 127

def LongFrame.extension (f : LongFrame) : Bytes :=
  if f.payload.length < 65536 then twoBytes f.payload.length
  else [56, 48, 40, 32, 24, 16, 8, 0].map fun k => UInt8.ofNat (f.payload.length >>> k)

def LongFrame.encode (f : LongFrame) : Bytes :=
  f.first :: secondByte f.maskKey f.len7 ::
    (f.extension ++ (keyBytes f.maskKey ++ masked f.maskKey f.payload))

theorem LongFrame.len7_lt (f : LongFrame) : f.len7 < 128 := by
  simp only [LongFrame.len7]
  split <;> decide

/-- The header of a long frame is enough to abort the connection. -/
theorem wsTurn_long (buf : Vector UInt8 maxMsgLen) (hs : Socket.Steady s)
    (hin : s.incoming = LongFrame.encode f ++ rest) :
    ∃ s', wsTurn buf s = .ok (.error (.protocol .msgTooLarge), s') ∧ s'.aborted = true := by
  have hsplit : s.incoming = [f.first, secondByte f.maskKey f.len7] ++
      (f.extension ++ (keyBytes f.maskKey ++ masked f.maskKey f.payload ++ rest)) := by
    simp only [hin, LongFrame.encode, List.cons_append, List.append_assoc, List.nil_append]
  obtain ⟨s₁, hhdr, hd₁, hin₁⟩ := Takes.readExact (n := 2) rfl s _ hs hsplit
  have hhead : ∃ s', readHead s = .ok (.error (.protocol .msgTooLarge), s') ∧
      s'.aborted = true := by
    rw [readHead, Conn.bind_ok hhdr, Conn.bind_ok rfl, Conn.bind_ok rfl]
    by_cases hw : f.payload.length < 65536
    · have hext : f.extension = twoBytes f.payload.length := if_pos hw
      have hlen7 : f.len7 = 126 := if_pos hw
      rw [hext] at hin₁
      obtain ⟨s₂, hlen, -⟩ := readPayloadLen_twoBytes f.maskKey hw s₁ _ hd₁.steady hin₁
      rw [hlen7, Conn.bind_ok hlen, if_pos f.long]
      exact ⟨_, rfl, rfl⟩
    · have hlen : readPayloadLen (secondByte f.maskKey f.len7 &&& 0x7F) =
          .fail (.protocol .msgTooLarge) := by
        have hlen7 : f.len7 = 127 := if_neg hw
        have hseven : 127 < 128 := by decide
        rw [hlen7]
        simp only [readPayloadLen, secondByte_len7 f.maskKey hseven, Nat.reduceLeDiff,
          Nat.reduceEqDiff, ↓reduceIte]
      rw [hlen]
      exact ⟨_, rfl, rfl⟩
  obtain ⟨s', hr, ha⟩ := hhead
  exact ⟨s', Conn.bind_error hr, ha⟩

/-- A WebSocket connection that is over, or on which only some frames come before the given
bytes. -/
def Until (tail : Bytes) (s : Socket) : Prop :=
  s.aborted = true ∨ s.Steady ∧ ∃ frames, s.incoming = stream frames ++ tail

theorem wsTurn_aborted (buf : Vector UInt8 maxMsgLen) (h : Socket.aborted s = true) :
    wsTurn buf s = .ok (.error .disconnected, s.abort) := by
  have hread : readExact 2 s = (.error .disconnected, s) := by
    rw [readExact, if_neg (by decide)]
    simp only [Socket.read, h, ↓reduceIte]
  have hhdr : Conn.readExact 2 s = .ok (.error .disconnected, s.abort) := by
    simp only [Conn.readExact, hread]
  exact Conn.bind_error (Conn.bind_error hhdr)

theorem wsTurn_until (buf : Vector UInt8 maxMsgLen)
    (h : Until (LongFrame.encode f ++ rest) s) :
    Yields (wsTurn buf s) fun x => Until (f.encode ++ rest) x.2 := by
  rcases h with h | ⟨hs, frames, hin⟩
  · exact ⟨_, wsTurn_aborted buf h, .inl rfl⟩
  · cases frames with
    | nil =>
      obtain ⟨s', hr, ha⟩ := wsTurn_long buf hs hin
      exact ⟨_, hr, .inl ha⟩
    | cons g frames =>
      rw [stream, List.flatMap_cons, List.append_assoc] at hin
      obtain ⟨s₁, hr, hs₁, hin₁, -⟩ := wsTurn_reads buf hs hin
      rw [hr]
      by_cases hc : g.opcode = opcodeClose
      · rw [hc, handleFrame_close hs₁]
        exact ⟨_, rfl, .inl rfl⟩
      · by_cases ht : g.opcode = opcodeText
        · rw [handleFrame, if_pos ht]
          exact ⟨_, rfl, .inr ⟨hs₁, frames, hin₁⟩⟩
        · rw [handleFrame_skips g hs₁ ht hc]
          exact ⟨_, rfl, .inr ⟨⟨hs₁.isOpen, hs₁.pieces⟩, frames, hin₁⟩⟩

theorem Until.writeAll (h : Until tail s) (data : Bytes) : Until tail (s.writeAll data).2 := by
  simp only [Socket.writeAll]
  split
  · exact h
  · rcases h with h | ⟨hs, hin⟩
    · exact .inl h
    · exact .inr ⟨⟨hs.isOpen, hs.pieces⟩, hin⟩

theorem wsWriteFrame_until (h : Until tail s) (hr : wsWriteFrame data s = .ok (r, s')) :
    Until tail s' := by
  simp only [wsWriteFrame] at hr
  obtain ⟨x, -, hr⟩ := bind_eq_ok.1 hr
  split at hr
  · cases hr
    exact h
  · rename_i hdrLen hdr
    obtain ⟨head, -, hr⟩ := bind_eq_ok.1 hr
    have h₁ := h.writeAll head
    split at hr
    · cases hr
      exact .inl rfl
    · rename_i s₁ hw
      rw [hw] at h₁
      have h₂ := h₁.writeAll data
      split at hr
      · cases hr
        exact .inl rfl
      · rename_i s₂ hw₂
        rw [hw₂] at h₂
        cases hr
        exact h₂

/-- While the connection lasts, reading does not get beyond the long frame. -/
theorem ws_readFrame_until (buf : Vector UInt8 maxMsgLen)
    (h : Until (LongFrame.encode f ++ rest) s) :
    Until (f.encode ++ rest) ((ws buf).readFrame s).2 := by
  obtain ⟨x, hx, hu⟩ := untilFrame_yields _ (fun s hs => wsTurn_until buf hs) h
  have hget := (wsReadFrame_yields buf s).get_eq hx
  exact (congrArg Prod.snd hget).symm ▸ hu

theorem ws_writeFrame_until (data : Bytes) (h : Until tail s) :
    Until tail ((ws buf).writeFrame data s).2 := by
  obtain ⟨x, hx, -⟩ := wsWriteFrame_yields data s
  have hget := (wsWriteFrame_yields data s).get_eq hx
  exact (congrArg Prod.snd hget).symm ▸ wsWriteFrame_until h hx

/-- `handle_client` recovers from an over-long command that comes after a number of other commands:
where the loop without it goes on after these, the loop with it has also taken the over-long one
off the stream, has answered it, and from there does the same. -/
def Recovers (lib : JsonLibrary) (T : Transport τ) (socket : τ → Socket) (s₀ : DeviceState)
    (reply : Bytes) (before : Nat) (clean faulty : τ) (after : Bytes) : Prop :=
  ∃ s t t', handleClient lib T before s₀ clean = .ok (.loop, s, t) ∧
    handleClient lib T (before + 1) s₀ faulty = .ok (.loop, s, t') ∧
    (socket t').written = (socket (T.writeFrame reply t).2).written ∧
    (socket t').aborted = false ∧ (socket t').incoming = after ∧
    ∀ turns, since (fun t => (socket t).written) (socket t').written
        (handleClient lib T turns s t') =
      since (fun t => (socket t).written) (socket t).written (handleClient lib T turns s t)

/-- What a client sends: some commands, an over-long one, and some more. -/
inductive ClientStream
  | lines (before : List Line) (long : LongLine) (after : List Line)
  | frames (before : List WsFrame) (long : LongFrame) (after : List WsFrame)

/-- A WebSocket connection after its handshake, over which some bytes come. -/
def wsStart (bytes : Bytes) (pieces : List Nat) : Socket := ⟨bytes, pieces.map .bytes, [], false⟩

/-- The server recovers from the over-long command, however the streams with and without it
arrive. -/
def ClientStream.Survives (lib : JsonLibrary) (s₀ : DeviceState) (reply : Bytes)
    (buf : Vector UInt8 maxMsgLen) (pieces pieces' : List Nat) : ClientStream → Prop
  | .lines before long after =>
    Recovers lib (tcp buf) (·.socket) s₀ reply before.length
      (.start (before ++ after) pieces) (.start (before ++ long.toLine :: after) pieces')
      (lineStream after)
  | .frames before long after =>
    Recovers lib (ws buf) id s₀ reply (before.filter (·.opcode = opcodeText)).length
      (wsStart (stream (before ++ after)) pieces)
      (wsStart (stream before ++ (long.encode ++ stream after)) pieces') (stream after)

/-- The client uses TCP, and none of the commands before the over-long one stops the loop. -/
def ClientStream.Reaches (lib : JsonLibrary) (s₀ : DeviceState) : ClientStream → Prop
  | .lines before _ _ => Along (answerItem lib) (Passes lib) s₀ (before.map Line.item)
  | .frames _ _ _ => False

theorem LongLine.item_eq (long : LongLine) : long.item = .failure .msgTooLarge :=
  if_neg (by have hl := long.long; omega)

theorem lines_survive_iff (hreply : serializeResponse lib.toSlice (.failure "" .msgTooLarge)
      maxMsgLen = .ok reply) (hs : s₀.pendingReboot = false) :
    (ClientStream.lines before long after).Survives lib s₀ reply buf pieces pieces' ↔
      (ClientStream.lines before long after).Reaches lib s₀ := by
  have H := tcp_hands buf
  have hclean := TcpConnection.start_has (before ++ after) pieces
  have hfaulty := TcpConnection.start_has (before ++ long.toLine :: after) pieces'
  constructor
  · intro h
    obtain ⟨s, t, t', hl, -⟩ := h
    exact H.passed hclean hs hl
  · intro h
    obtain ⟨rs, s, hr⟩ := exists_steps_iff.2 (h.mono fun s i hp => answerItem_returns.2 hp.runs)
    obtain ⟨t, hl, hR, hs'⟩ := H.handles hclean hs hr h
    obtain ⟨t₁, hl', hR', -⟩ := H.handles hfaulty hs hr h
    have ha : answerItem lib s long.item = .ok (.failure "" .msgTooLarge, s) := by
      rw [long.item_eq]
      rfl
    obtain ⟨t', hturn, hR₁⟩ := H.turn hR' hs' ha
    have hsent : sent lib (.failure "" .msgTooLarge) = [reply] := by
      simp only [sent, hreply]
    have hstays : long.item.reboots lib = false := by
      rw [long.item_eq]
      rfl
    rw [hsent] at hR₁
    obtain ⟨t₂, hw, hR₂⟩ := H.write reply hR
    refine ⟨s, t, t', hl, ?_, ?_, hR₁.steady.isOpen, hR₁.incoming, fun turns => ?_⟩
    · rw [handleClient_add hl' 1, handleClient, hturn, hstays]
      rfl
    · rw [hw, hR₁.written, hR₂.written]
    · rw [hR₁.written, hR.written]
      rw [← List.append_nil (_ ++ [reply])] at hR₁
      rw [← List.append_nil ([] ++ _)] at hR
      exact H.since_eq hR₁ hR hs' turns

theorem frames_not_survive :
    ¬ (ClientStream.frames before long after).Survives lib s₀ reply buf pieces pieces' := by
  intro h
  obtain ⟨s, t, t', -, hl, -, hopen, hin, -⟩ := h
  have hstart : Until (long.encode ++ stream after)
      (wsStart (stream before ++ (long.encode ++ stream after)) pieces') :=
    .inr ⟨steady_pieces _ _ _, before, rfl⟩
  have huntil : Until (long.encode ++ stream after) t' :=
    handleClient_invariant (fun t ht => ws_readFrame_until buf ht)
      (fun bytes t ht => ws_writeFrame_until bytes ht) hstart hl
  rcases huntil with ha | ⟨-, frames, hframes⟩
  · cases ha.symm.trans hopen
  · have hlen := congrArg List.length (hframes.symm.trans hin)
    simp only [List.length_append, LongFrame.encode, List.length_cons] at hlen
    omega

/-- An over-long command costs a client nothing exactly when the client uses TCP and gets as far
as to send it. -/
theorem over_long_survived_iff (lib : JsonLibrary) (reply : Bytes)
    (hreply : serializeResponse lib.toSlice (.failure "" .msgTooLarge) maxMsgLen = .ok reply)
    (ssid : HString 32) (ip : HString 16) (buf : Vector UInt8 maxMsgLen)
    (pieces pieces' : List Nat) (client : ClientStream) :
    client.Survives lib (clientState ssid ip) reply buf pieces pieces' ↔
      client.Reaches lib (clientState ssid ip) := by
  cases client with
  | lines before long after => exact lines_survive_iff hreply rfl
  | frames before long after => exact iff_of_false frames_not_survive id

def longPayload : Bytes := List.replicate 1025 0x61

theorem longPayload_long : maxMsgLen < longPayload.length := by
  rw [longPayload, List.length_replicate]
  decide

def longTextFrame : LongFrame where
  first := 0x81
  maskKey := some #v[1, 2, 3, 4]
  payload := longPayload
  text := rfl
  long := longPayload_long

def rebootTextFrame : WsFrame where
  first := 0x81
  maskKey := some #v[1, 2, 3, 4]
  wide := false
  payload := rebootFrame
  bounded := by decide
  narrow := fun _ => by decide

def blankLine : Line := ⟨[], List.not_mem_nil⟩

def longLine : LongLine where
  bytes := longPayload
  closed := fun h => absurd (List.eq_of_mem_replicate h) (by decide)
  long := longPayload_long

def rebootLine : Line := ⟨rebootFrame, by decide⟩

theorem long_line_survived :
    (ClientStream.lines [blankLine] longLine [rebootLine]).Survives
      (replyLibrary rebootFrame rebootCommand) (clientState .empty .empty)
      (replyText (.failure "" .msgTooLarge) ++ [newline]) (.replicate maxMsgLen 0) [] [] := by
  refine (over_long_survived_iff _ _ rfl .empty .empty _ [] [] _).2 ⟨⟨?_, rfl⟩, ?_⟩
  · intro cmd hc
    cases hc
  · intro o s' h
    trivial

theorem long_frame_not_survived :
    ¬ (ClientStream.frames [] longTextFrame [rebootTextFrame]).Survives
      (replyLibrary rebootFrame rebootCommand) (clientState .empty .empty)
      (replyText (.failure "" .msgTooLarge) ++ [newline]) (.replicate maxMsgLen 0) [] [] :=
  frames_not_survive

end PicoConduit
