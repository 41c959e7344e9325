import PicoConduit.Calls
import PicoConduit.ErrorRecovery
import PicoConduit.ResponseText

namespace PicoConduit
open Checked Heapless Utf8 Transducer Trace
set_option autoImplicit true

/-- A TCP connection on which the next read has come to its end. -/
def handing (result : Except TransportError Bytes) : Transport TcpTransport where
  readFrame t := (result, t)
  writeFrame := tcpWriteFrame

/-- What `handle_client` does with a byte of a TCP connection: it reads on, or it goes through the
rest of a turn of its loop. -/
def clientByte (lib : JsonLibrary) (buf : Vector UInt8 maxMsgLen) (s : DeviceState)
    (t : TcpTransport) : Exec (Control × DeviceState × TcpTransport) := do
  match ← tcpTurn buf t with
  | (.ok none, t) => pure (.loop, s, t)
  | (.ok (some frame), t) => clientTurn lib (handing (.ok frame)) s t
  | (.error e, t) => clientTurn lib (handing (.error e)) s t

/-- The loop does the same over two transports that do the same. -/
theorem clientTurn_map {T : Transport τ} {T' : Transport υ} (f : τ → υ)
    (hread : T'.readFrame (f t) = ((T.readFrame t).1, f (T.readFrame t).2))
    (hwrite : ∀ bytes t, T'.writeFrame bytes (f t) =
      ((T.writeFrame bytes t).1, f (T.writeFrame bytes t).2)) :
    (clientTurn lib T s t).map (fun x => (x.1, x.2.1, f x.2.2)) = clientTurn lib T' s (f t) := by
  rw [clientTurn, clientTurn, hread]
  rcases T.readFrame t with ⟨result, t₁⟩
  cases result with
  | error e =>
    cases e with
    | protocol code =>
      simp only
      split
      · rw [hwrite]
        rfl
      · rfl
    | disconnected => rfl
    | timeout => rfl
  | ok frame =>
    simp only
    cases answerFrame lib s frame with
    | error p => rfl
    | ok x =>
      simp only [ok_bind]
      split
      · rw [hwrite]
        rcases T.writeFrame _ t₁ with ⟨result, t₂⟩
        cases result <;> rfl
      · rfl

/-- A turn of `handle_client` on a connection is what it does with the bytes up to the end of a
frame: a byte within a frame leaves the turn as it is, and any other byte completes it. -/
theorem clientTurn_byte (lib : JsonLibrary) (buf : Vector UInt8 maxMsgLen) (s : DeviceState)
    (c : TcpConnection) (h : tcpTurn buf c.toTcpTransport = .ok (result, t)) :
    (result = .ok none → clientByte lib buf s c.toTcpTransport = .ok (.loop, s, t) ∧
      ∃ c' : TcpConnection, c'.toTcpTransport = t ∧
        clientTurn lib (tcp buf) s c = clientTurn lib (tcp buf) s c') ∧
    (result ≠ .ok none → (clientTurn lib (tcp buf) s c).map
      (fun x => (x.1, x.2.1, x.2.2.toTcpTransport)) =
        clientByte lib buf s c.toTcpTransport) := by
  constructor
  · rintro rfl
    have hbounded : t.reader.pos ≤ maxMsgLen - 1 := by
      obtain ⟨x, hx, hpos⟩ := tcpTurn_yields buf c.toTcpTransport c.bounded
      rw [h] at hx
      cases hx
      exact hpos
    let c' : TcpConnection := ⟨t, hbounded⟩
    refine ⟨by rw [clientByte, h]; rfl, c', rfl, ?_⟩
    obtain ⟨⟨r, t'⟩, hr, -⟩ := tcpReadFrame_yields buf c'
    obtain ⟨c₁, hc₁, ht₁⟩ := tcp_readFrame ((untilFrame_none h).trans hr)
    obtain ⟨c₂, hc₂, ht₂⟩ := tcp_readFrame (t := c') hr
    have hsame : c₁ = c₂ := by
      obtain ⟨t₁, hb₁⟩ := c₁
      obtain ⟨t₂, hb₂⟩ := c₂
      obtain rfl : t₁ = t' := ht₁
      obtain rfl : t₂ = t₁ := ht₂
      rfl
    rw [clientTurn, clientTurn, hc₁, hc₂, hsame]
  · intro hne
    have hhands (r : Except TransportError Bytes)
        (hr : tcpReadFrame buf c.toTcpTransport = .ok (r, t)) :
        (clientTurn lib (tcp buf) s c).map (fun x => (x.1, x.2.1, x.2.2.toTcpTransport)) =
          clientTurn lib (handing r) s t := by
      obtain ⟨c₁, hc₁, rfl⟩ := tcp_readFrame hr
      show _ = clientTurn lib ⟨fun _ => (r, c₁.toTcpTransport), tcpWriteFrame⟩ s c.toTcpTransport
      exact clientTurn_map TcpConnection.toTcpTransport (by rw [hc₁]) fun _ _ => rfl
    rw [clientByte, h]
    cases result with
    | error e => exact hhands _ (untilFrame_error h)
    | ok frame =>
      cases frame with
      | none => exact absurd rfl hne
      | some frame => exact hhands _ (untilFrame_some h)

/-- A client and the device with a TCP connection between them. The bytes on their way to the device
are what it still reads, and those on their way back what it has written and the client has not
taken; the client waits while a call has not returned. -/
structure Link where
  control : Control
  device : DeviceState
  transport : TcpTransport
  taken : Nat
  waiting : Bool

def Link.start (ssid : HString 32) (ip : HString 16) : Link where
  control := .loop
  device := clientState ssid ip
  transport := ⟨⟨[], [], [], false⟩, .new⟩
  taken := 0
  waiting := false

/-- The bytes on their way to the client. -/
def Link.inbox (l : Link) : Bytes := l.transport.socket.written.flatten.drop l.taken

def TcpTransport.arrive (t : TcpTransport) (bytes : Bytes) : TcpTransport :=
  { t with socket.incoming := t.socket.incoming ++ bytes }

inductive LinkEvent
  | call (line : Line)
  | byte
  | returned (line : Bytes)

/-- The steps of the two sides, in any order: `send_raw` writes a line and then waits until it can
read one, and the device works on one byte after the other. -/
inductive LinkStep (lib : JsonLibrary) (buf : Vector UInt8 maxMsgLen) :
    Link → LinkEvent → Link → Prop
  | call (h : l.waiting = false) : LinkStep lib buf l (.call line)
      { l with transport := l.transport.arrive (line.bytes ++ [newline]), waiting := true }
  | byte (hloop : l.control = .loop) (hin : l.transport.socket.incoming ≠ [])
      (h : clientByte lib buf l.device l.transport = .ok (c, s, t)) :
      LinkStep lib buf l .byte { l with control := c, device := s, transport := t }
  | returned (h : l.waiting = true) (hin : l.inbox = line ++ newline :: rest)
      (hline : newline ∉ line) : LinkStep lib buf l (.returned line)
        { l with taken := l.taken + (line.length + 1), waiting := false }

/-- What the device is asked by a line, and what it writes for it. -/
def answerLine (lib : JsonLibrary) (s : DeviceState) (line : Line) :
    Exec (List Bytes × DeviceState) := do
  let (r, s) ← answerItem lib s line.item
  pure (sent lib r, s)

/-- The call or the return that is seen in an event. -/
def LinkEvent.act : LinkEvent → Option (Calls.Act Line (List Bytes))
  | .call line => some (.call line)
  | .byte => none
  | .returned line => some (.ret [line ++ [newline]])

/-- The library writes no newlines. -/
def OneLine (lib : JsonLibrary) : Prop :=
  ∀ r n text, lib.toSlice r n = some text → newline ∉ text

/-- Where `handle_client` is, which nothing but a reboot ends. -/
def DeviceState.control (s : DeviceState) : Control := if s.pendingReboot then .rebooting else .loop

theorem DeviceState.control_loop {s : DeviceState} :
    s.control = .loop ↔ s.pendingReboot = false := by
  rw [DeviceState.control]
  cases s.pendingReboot <;> decide

/-- A link between calls or in the middle of one: before the device has read all of the line, or
after it has written what it answers. -/
inductive Serves (lib : JsonLibrary) (l : Link) : DeviceState × Option Line → Prop
  | idle (hwait : l.waiting = false) (hat : l.transport.At [] [] w)
      (htaken : l.taken = w.flatten.length)
      (hcontrol : l.control = l.device.control) :
      Serves lib l (l.device, none)
  | reading (hwait : l.waiting = true) (hat : l.transport.At front (rest ++ [newline]) w)
      (hline : line.bytes = front ++ rest) (htaken : l.taken = w.flatten.length)
      (hcontrol : l.control = l.device.control) :
      Serves lib l (l.device, some line)
  | answered (hwait : l.waiting = true) (hat : l.transport.At [] [] (w ++ sent lib r))
      (htaken : l.taken = w.flatten.length)
      (hanswer : answerItem lib s line.item = .ok (r, l.device))
      (hcontrol : l.control = l.device.control) :
      Serves lib l (s, some line)

theorem Serves.idle_waiting (h : Serves lib l (s, none)) : l.waiting = false := by
  cases h with
  | idle hwait => exact hwait

theorem serves_start (lib : JsonLibrary) (ssid : HString 32) (ip : HString 16) :
    Serves lib (.start ssid ip) (clientState ssid ip, none) :=
  .idle (w := []) rfl ⟨⟨rfl, fun a ha => by cases ha⟩, holds_nil rfl rfl, rfl, rfl⟩ rfl rfl

theorem arrive_at (h : TcpTransport.At t line rest w) (bytes : Bytes) :
    (t.arrive bytes).At line (rest ++ bytes) w :=
  ⟨⟨h.steady.isOpen, h.steady.pieces⟩, h.holds, congrArg (· ++ bytes) h.incoming, h.written⟩

/-- What is sent for a response is written, and nothing is if it does not fit. -/
theorem send_at (lib : JsonLibrary) (h : TcpTransport.At t line rest w) (r : Response) :
    (∃ bytes t', serializeResponse lib.toSlice r maxMsgLen = .ok bytes ∧
        tcpWriteFrame bytes t = (.ok (), t') ∧ t'.At line rest (w ++ sent lib r)) ∨
      (∃ e, serializeResponse lib.toSlice r maxMsgLen = .error e) ∧
        t.At line rest (w ++ sent lib r) := by
  cases hr : serializeResponse lib.toSlice r maxMsgLen with
  | error e =>
    right
    refine ⟨⟨e, rfl⟩, ?_⟩
    rw [sent, hr, List.append_nil]
    exact h
  | ok bytes =>
    left
    obtain ⟨hw, hat⟩ := tcpWriteFrame_at bytes h
    refine ⟨bytes, _, rfl, Prod.ext hw rfl, ?_⟩
    rw [sent, hr]
    exact hat

/-- The rest of a turn, once an item has been read. -/
theorem clientTurn_handing (item : Item) (h : TcpTransport.At t line rest w)
    (hs : s.pendingReboot = false) (ha : answerItem lib s item = .ok (r, s')) :
    ∃ t', clientTurn lib (handing item.result) s t =
        .ok (if item.reboots lib then .rebooting else .loop, s', t') ∧
      t'.At line rest (w ++ sent lib r) := by
  have hp := answerItem_pendingReboot ha
  rw [hs, Bool.false_or] at hp
  cases item with
  | failure code =>
    cases ha
    rcases send_at lib h (.failure "" code) with ⟨bytes, t', hr, hw, hat⟩ | ⟨⟨e, hr⟩, hat⟩
    · refine ⟨t', ?_, hat⟩
      simp only [clientTurn, handing, Item.result, hr, hw, pure_eq]
      rfl
    · refine ⟨t, ?_, hat⟩
      simp only [clientTurn, handing, Item.result, hr, pure_eq]
      rfl
  | frame bytes =>
    simp only [answerItem] at ha
    rw [← hp]
    rcases send_at lib h r with ⟨bytes, t', hr, hw, hat⟩ | ⟨⟨e, hr⟩, hat⟩
    · refine ⟨t', ?_, hat⟩
      simp only [clientTurn, handing, Item.result, ha, ok_bind, hr, hw, pure_eq]
    · refine ⟨t, ?_, hat⟩
      simp only [clientTurn, handing, Item.result, ha, ok_bind, hr, pure_eq]

theorem clientTurn_handing_error (item : Item) (ha : answerItem lib s item = .error p) :
    clientTurn lib (handing item.result) s t = .error p := by
  cases item with
  | failure code => cases ha
  | frame bytes =>
    simp only [answerItem] at ha
    simp only [clientTurn, handing, Item.result, ha, error_bind]

/-- A byte within a line. -/
theorem clientByte_within (lib : JsonLibrary) (buf : Vector UInt8 maxMsgLen) (s : DeviceState)
    (h : TcpTransport.At t line (byte :: rest) w) (hb : byte ≠ newline) :
    ∃ t', clientByte lib buf s t = .ok (.loop, s, t') ∧ t'.At (line ++ [byte]) rest w := by
  obtain ⟨t', ht, hat⟩ := tcpTurn_byte buf h hb
  exact ⟨t', by rw [clientByte, ht]; rfl, hat⟩

/-- The byte that ends a line. -/
theorem clientByte_newline (lib : JsonLibrary) (buf : Vector UInt8 maxMsgLen) (s : DeviceState)
    {line : Line} (h : TcpTransport.At t line.bytes (newline :: rest) w) :
    ∃ t', clientByte lib buf s t = clientTurn lib (handing line.item.result) s t' ∧
      t'.At [] rest w := by
  obtain ⟨t', ht, hat⟩ := tcpTurn_newline buf h
  refine ⟨t', ?_, hat⟩
  rw [line.item_result, clientByte, ht]
  cases lineResult line.bytes <;> rfl

theorem sent_cases (hlib : OneLine lib) (r : Response) :
    sent lib r = [] ∨ ∃ text, newline ∉ text ∧ sent lib r = [text ++ [newline]] := by
  rw [sent, serializeResponse]
  cases htext : lib.toSlice r maxMsgLen with
  | none => exact .inl rfl
  | some text =>
    by_cases hlen : text.length ≥ maxMsgLen
    · left
      simp only [if_pos hlen]
    · right
      refine ⟨text, hlib r maxMsgLen text htext, ?_⟩
      simp only [if_neg hlen]

theorem append_newline_inj {line line' : Bytes} (h : newline ∉ line) (h' : newline ∉ line')
    (he : line ++ newline :: rest = line' ++ newline :: rest') : line = line' ∧ rest = rest' := by
  induction line generalizing line' with
  | nil =>
    cases line' with
    | nil => exact ⟨rfl, (List.cons.inj he).2⟩
    | cons b line' =>
      obtain ⟨rfl, -⟩ := List.cons.inj he
      exact absurd List.mem_cons_self h'
  | cons b line ih =>
    cases line' with
    | nil =>
      obtain ⟨rfl, -⟩ := List.cons.inj he
      exact absurd List.mem_cons_self h
    | cons b' line' =>
      obtain ⟨rfl, htail⟩ := List.cons.inj he
      obtain ⟨rfl, hrest⟩ := ih (fun hm => h (List.mem_cons_of_mem _ hm))
        (fun hm => h' (List.mem_cons_of_mem _ hm)) htail
      exact ⟨rfl, hrest⟩

theorem sent_line (hlib : OneLine lib) (h : (sent lib r).flatten = line ++ newline :: rest)
    (hline : newline ∉ line) : sent lib r = [line ++ [newline]] ∧ rest = [] := by
  rcases sent_cases hlib r with hnone | ⟨text, htext, hsent⟩
  · rw [hnone] at h
    simp at h
  · rw [hsent, List.flatten_singleton] at h
    obtain ⟨rfl, rfl⟩ := append_newline_inj htext hline h
    exact ⟨hsent, rfl⟩

/-- A byte takes a call on, or completes it on the device. -/
theorem Serves.byte (h : Serves lib l (s, some line)) (hloop : l.control = .loop)
    (hin : l.transport.socket.incoming ≠ [])
    (hb : clientByte lib buf l.device l.transport = .ok (c, s', t')) :
    Serves lib { l with control := c, device := s', transport := t' } (s, some line) ∧
      t'.socket.incoming.length + 1 = l.transport.socket.incoming.length := by
  cases h with
  | answered _ hat => exact absurd hat.incoming hin
  | @reading front rest w line hwait hat hline htaken hcontrol =>
    have hpending := DeviceState.control_loop.1 (hcontrol.symm.trans hloop)
    cases rest with
    | cons byte rest =>
      have hne : byte ≠ newline := by
        rintro rfl
        exact line.closed (hline ▸ List.mem_append_right _ List.mem_cons_self)
      obtain ⟨t₁, ht, hat'⟩ := clientByte_within lib buf l.device hat hne
      rw [ht] at hb
      cases hb
      refine ⟨.reading hwait hat' ?_ htaken (hloop.symm.trans hcontrol), ?_⟩
      · rw [hline, List.append_assoc]
        rfl
      · rw [hat'.incoming, hat.incoming]
        rfl
    | nil =>
      rw [List.append_nil] at hline
      rw [← hline] at hat
      obtain ⟨t₁, ht, hat'⟩ := clientByte_newline lib buf l.device hat
      rw [ht] at hb
      cases ha : answerItem lib l.device line.item with
      | error p =>
        rw [clientTurn_handing_error line.item ha] at hb
        cases hb
      | ok x =>
        obtain ⟨r, s₁⟩ := x
        obtain ⟨t₂, hturn, hat''⟩ := clientTurn_handing line.item hat' hpending ha
        rw [hturn] at hb
        cases hb
        refine ⟨.answered hwait hat'' htaken ha ?_, ?_⟩
        · have hp := answerItem_pendingReboot ha
          rw [hpending, Bool.false_or] at hp
          rw [DeviceState.control, hp]
        · rw [hat''.incoming, hat.incoming]
          rfl

/-- Every step of the link is one of a caller of the device, or is not seen. -/
theorem LinkStep.serves (hlib : OneLine lib) (h : LinkStep lib buf l event l')
    (hs : Serves lib l x) :
    (∀ y, event.act = some y → ∃ x', Calls.Step (answerLine lib) x y x' ∧ Serves lib l' x') ∧
      (event.act = none → Serves lib l' x) := by
  cases h with
  | call hwait =>
    refine ⟨fun y hy => ?_, fun hnone => by cases hnone⟩
    cases hy
    cases hs with
    | idle _ hat htaken hcontrol =>
      refine ⟨_, .call, .reading rfl ?_ (List.nil_append _).symm htaken hcontrol⟩
      exact arrive_at hat _
    | reading hwait' => rw [hwait] at hwait'; cases hwait'
    | answered hwait' => rw [hwait] at hwait'; cases hwait'
  | byte hloop hin hb =>
    refine ⟨fun y hy => (by cases hy), fun _ => ?_⟩
    obtain ⟨s, pending⟩ := x
    cases pending with
    | some line => exact (hs.byte hloop hin hb).1
    | none =>
      cases hs with
      | idle _ hat => exact absurd hat.incoming hin
  | returned hwait hin hline =>
    refine ⟨fun y hy => ?_, fun hnone => by cases hnone⟩
    cases hy
    cases hs with
    | idle hwait' => rw [hwait] at hwait'; cases hwait'
    | reading _ hat _ htaken =>
      rw [Link.inbox, hat.written, htaken, List.drop_length] at hin
      simp at hin
    | answered _ hat htaken hanswer hcontrol =>
      rw [Link.inbox, hat.written, htaken, List.flatten_append, List.drop_left] at hin
      obtain ⟨hsent, rfl⟩ := sent_line hlib hin hline
      refine ⟨_, .ret ?_, .idle rfl hat ?_ hcontrol⟩
      · rw [answerLine, hanswer, ← hsent]
        rfl
      · rw [hsent, List.flatten_append, List.length_append]
        simp [htaken]

/-- The calls of a history, from the first one on. -/
def callsOf (past : List LinkEvent) : List Line :=
  (past.filterMap fun event =>
    match event with
    | .call line => some line
    | _ => none).reverse

/-- The lines with which they have returned. -/
def returnsOf (past : List LinkEvent) : List Bytes :=
  (past.filterMap fun event =>
    match event with
    | .returned line => some line
    | _ => none).reverse

theorem arguments_acts (past : List LinkEvent) :
    Calls.arguments (past.filterMap LinkEvent.act) = callsOf past := by
  rw [Calls.arguments, callsOf, List.filterMap_filterMap]
  congr 2
  funext event
  cases event <;> rfl

theorem answers_acts (past : List LinkEvent) :
    Calls.answers (past.filterMap LinkEvent.act) =
      (returnsOf past).map fun line => [line ++ [newline]] := by
  rw [Calls.answers, returnsOf, List.map_reverse, List.map_filterMap, List.filterMap_filterMap]
  congr 2
  funext event
  cases event <;> rfl

theorem run_serves (hlib : OneLine lib) (h : Run (LinkStep lib buf) (.start ssid ip) past l) :
    ∃ x, Run (Calls.Step (answerLine lib)) (clientState ssid ip, none)
      (past.filterMap LinkEvent.act) x ∧ Serves lib l x :=
  h.simulate (Serves lib) LinkEvent.act (serves_start lib ssid ip)
    (fun _ _ _ _ y hs hstep hact => (hstep.serves hlib hs).1 y hact)
    fun _ _ _ _ hs hstep hact => (hstep.serves hlib hs).2 hact

/-- The lines of the answers to the calls that have returned, and the call that has not. -/
structure Answered (lib : JsonLibrary) (s₀ : DeviceState) (past : List LinkEvent)
    (returned : List Line) (pending : Option Line) (s : DeviceState) : Prop where
  calls : callsOf past = returned ++ pending.toList
  answers : ∃ rs, Steps (answerItem lib) s₀ (returned.map Line.item) rs s ∧
    List.Forall₂ (fun r line => sent lib r = [line ++ [newline]]) rs (returnsOf past)

theorem answerLine_steps (h : Steps (answerLine lib) s lines os s') :
    ∃ rs, Steps (answerItem lib) s (lines.map Line.item) rs s' ∧ os = rs.map (sent lib) := by
  induction h with
  | nil => exact ⟨[], .nil, rfl⟩
  | cons h _ ih =>
    obtain ⟨rs, hs, rfl⟩ := ih
    obtain ⟨⟨r, s₁⟩, hr, he⟩ := bind_eq_ok.1 h
    cases he
    exact ⟨r :: rs, .cons hr hs, rfl⟩

theorem run_answered (hlib : OneLine lib) (h : Run (LinkStep lib buf) (.start ssid ip) past l) :
    ∃ s pending returned, Serves lib l (s, pending) ∧
      Answered lib (clientState ssid ip) past returned pending s := by
  obtain ⟨⟨s, pending⟩, hrun, hserves⟩ := run_serves hlib h
  obtain ⟨returned, hcalls, hsteps⟩ := Calls.run_served hrun
  rw [arguments_acts] at hcalls
  rw [answers_acts] at hsteps
  obtain ⟨rs, hrs, hlines⟩ := answerLine_steps hsteps
  refine ⟨s, pending, returned, hserves, hcalls, rs, hrs, ?_⟩
  have heq : List.Forall₂ Eq (rs.map (sent lib))
      ((returnsOf past).map fun line => [line ++ [newline]]) := by
    rw [List.forall₂_eq_eq_eq]
    exact hlines.symm
  exact List.forall₂_map_right_iff.1 (List.forall₂_map_left_iff.1 heq)

/-- The device reads the rest of a line byte by byte and answers it. -/
theorem rest_answered {line : Line} (buf : Vector UInt8 maxMsgLen) (hwait : l.waiting = true)
    (hat : l.transport.At front (rest ++ [newline]) w)
    (hline : line.bytes = front ++ rest) (htaken : l.taken = w.flatten.length)
    (hcontrol : l.control = l.device.control) (hs : l.device.pendingReboot = false)
    (ha : answerItem lib l.device line.item = .ok (r, s')) :
    ∃ l', Run (LinkStep lib buf) l (List.replicate (rest.length + 1) .byte) l' ∧
      l'.waiting = true ∧ l'.device = s' ∧ l'.transport.At [] [] (w ++ sent lib r) ∧
      l'.taken = l.taken ∧ l'.control = s'.control := by
  have hloop := hcontrol.trans (DeviceState.control_loop.2 hs)
  have hin : l.transport.socket.incoming ≠ [] := by
    rw [hat.incoming]
    exact List.append_ne_nil_of_right_ne_nil _ (List.cons_ne_nil _ _)
  induction rest generalizing l front with
  | nil =>
    rw [List.append_nil] at hline
    rw [← hline] at hat
    obtain ⟨t', ht, hat'⟩ := clientByte_newline lib buf l.device hat
    obtain ⟨t'', hturn, hat''⟩ := clientTurn_handing line.item hat' hs ha
    have hp := answerItem_pendingReboot ha
    rw [hs, Bool.false_or] at hp
    refine ⟨_, .next .start (.byte hloop hin (ht.trans hturn)), hwait, rfl, hat'', rfl, ?_⟩
    rw [DeviceState.control, hp]
  | cons byte rest ih =>
    have hne : byte ≠ newline := by
      rintro rfl
      exact line.closed (hline ▸ List.mem_append_right _ List.mem_cons_self)
    obtain ⟨t', ht, hat'⟩ := clientByte_within lib buf l.device hat hne
    have hin' : t'.socket.incoming ≠ [] := by
      rw [hat'.incoming]
      exact List.append_ne_nil_of_right_ne_nil _ (List.cons_ne_nil _ _)
    have hline' : line.bytes = (front ++ [byte]) ++ rest := by
      rw [hline, List.append_assoc]
      rfl
    let l₁ : Link := { l with control := .loop, transport := t' }
    obtain ⟨l', hrun, hend⟩ := ih (l := l₁) hwait hat' hline' htaken
      (hloop.symm.trans hcontrol) hs ha rfl hin'
    refine ⟨l', ?_, hend⟩
    rw [List.length_cons, List.replicate_succ', Trace.run_append]
    exact ⟨l₁, .next .start (.byte hloop hin ht), hrun⟩

/-- A call on an idle link can run to its end. -/
theorem call_completes {line : Line} (buf : Vector UInt8 maxMsgLen)
    (hlib : WritesWhatFits lib Response.compact) (h : Serves lib l (s, none))
    (hs : s.pendingReboot = false) (ha : answerItem lib s line.item = .ok (r, s'))
    (hroom : r.compact.length < maxMsgLen) :
    ∃ l', Run (LinkStep lib buf) l
        (.returned r.compact :: List.replicate (line.bytes.length + 1) .byte ++ [.call line]) l' ∧
      Serves lib l' (s', none) := by
  cases h with
  | @idle w hwait hat htaken hcontrol =>
    let l₁ : Link :=
      { l with transport := l.transport.arrive (line.bytes ++ [newline]), waiting := true }
    obtain ⟨l₂, hrun, hwait₂, rfl, hat₂, htaken₂, hcontrol₂⟩ :=
      rest_answered (l := l₁) buf rfl (arrive_at hat _) (List.nil_append _).symm htaken
        hcontrol hs ha
    rw [sent_eq hlib, if_pos hroom] at hat₂
    have hin : l₂.inbox = r.compact ++ newline :: [] := by
      rw [Link.inbox, hat₂.written, htaken₂, htaken, List.flatten_append, List.drop_left,
        List.flatten_singleton]
    refine ⟨_, .next (Trace.run_append.2 ⟨l₁, .next .start (.call hwait), hrun⟩)
      (.returned hwait₂ hin (newline_not_mem_compact r)), .idle rfl hat₂ ?_ hcontrol₂⟩
    rw [List.flatten_append, List.length_append, ← htaken, htaken₂, List.flatten_singleton,
      List.length_append]
    rfl

/-- A library that writes what fits writes what it writes on one line. -/
theorem WritesWhatFits.oneLine (hlib : WritesWhatFits lib text) (htext : ∀ r, newline ∉ text r) :
    OneLine lib := by
  intro r n bytes h
  rw [hlib] at h
  split at h
  · cases h
    exact htext r
  · cases h

/-- However the two sides take turns, each call on a connection returns with the line that answers
its own request, under its own id, as if the device executed the calls one after the other; at most
the last call has not returned. -/
theorem calls_answered_in_turn (lib : JsonLibrary) (buf : Vector UInt8 maxMsgLen)
    (hlib : OneLine lib) (ssid : HString 32) (ip : HString 16) (past : List LinkEvent) (l : Link)
    (h : Run (LinkStep lib buf) (.start ssid ip) past l) :
    ∃ returned pending rs s, callsOf past = returned ++ Option.toList pending ∧
      (pending.isSome = l.waiting) ∧
      Steps (answerItem lib) (clientState ssid ip) (returned.map Line.item) rs s ∧
      List.Forall₂ (fun r line => sent lib r = [line ++ [newline]]) rs (returnsOf past) ∧
      List.Forall₂ (fun (line : Line) r => r.id = line.item.id lib) returned rs := by
  obtain ⟨s, pending, returned, hserves, hcalls, rs, hsteps, hlines⟩ := run_answered hlib h
  refine ⟨returned, pending, rs, s, hcalls, ?_, hsteps, hlines, ?_⟩
  · cases hserves with
    | idle hwait => rw [hwait]; rfl
    | reading hwait => rw [hwait]; rfl
    | answered hwait => rw [hwait]; rfl
  · have hids := hsteps.forall₂ (R := fun item r => r.id = item.id lib)
      fun _ _ _ _ ha => answerItem_id ha
    exact List.forall₂_map_left_iff.1 hids

def rebootLibrary : JsonLibrary :=
  compactLibrary fun frame => if frame = rebootFrame then some rebootCommand else none

def rebootingState : DeviceState := { clientState .empty .empty with pendingReboot := true }

theorem blank_answer : answerItem rebootLibrary (clientState .empty .empty) blankLine.item =
    .ok (.failure "" .malformedJson, clientState .empty .empty) := rfl

theorem reboot_answer : answerItem rebootLibrary (clientState .empty .empty) rebootLine.item =
    .ok (.success "r" none, rebootingState) := rfl

theorem two_calls_answered : ∃ past l, callsOf past = [blankLine, rebootLine] ∧
    Run (LinkStep rebootLibrary (.replicate maxMsgLen 0)) (.start .empty .empty) past l ∧
    ∃ returned pending rs s, callsOf past = returned ++ Option.toList pending ∧
      (pending.isSome = l.waiting) ∧
      Steps (answerItem rebootLibrary) (clientState .empty .empty) (returned.map Line.item) rs s ∧
      List.Forall₂ (fun r line => sent rebootLibrary r = [line ++ [newline]]) rs (returnsOf past) ∧
      List.Forall₂ (fun (line : Line) r => r.id = line.item.id rebootLibrary) returned rs := by
  have hlib := compactLibrary_writes rebootLibrary.fromSlice
  obtain ⟨l₁, hrun₁, hserves₁⟩ := call_completes (.replicate maxMsgLen 0) hlib
    (serves_start rebootLibrary .empty .empty) rfl blank_answer (by decide)
  obtain ⟨l₂, hrun₂, -⟩ := call_completes (.replicate maxMsgLen 0) hlib hserves₁ rfl
    reboot_answer (by decide)
  have hrun := Trace.run_append.2 ⟨l₁, hrun₁, hrun₂⟩
  exact ⟨_, l₂, rfl, hrun, calls_answered_in_turn rebootLibrary (.replicate maxMsgLen 0)
    (hlib.oneLine newline_not_mem_compact) .empty .empty _ l₂ hrun⟩

/-- A call whose answer fits goes on, by the bytes that the device has still to read. -/
theorem serves_goes_on (hlib : WritesWhatFits lib text) (htext : ∀ r, newline ∉ text r)
    (buf : Vector UInt8 maxMsgLen) (h : Serves lib l (s, some line))
    (hs : s.pendingReboot = false) (hfits : Fits lib text s line.item) :
    ∃ event l', LinkStep lib buf l event l' := by
  cases h with
  | @reading front rest w _ hwait hat hline htaken hcontrol =>
    have hloop := hcontrol.trans (DeviceState.control_loop.2 hs)
    have hin : l.transport.socket.incoming ≠ [] := by
      rw [hat.incoming]
      exact List.append_ne_nil_of_right_ne_nil _ (List.cons_ne_nil _ _)
    cases rest with
    | cons byte rest =>
      have hne : byte ≠ newline := by
        rintro rfl
        exact line.closed (hline ▸ List.mem_append_right _ List.mem_cons_self)
      obtain ⟨t', ht, -⟩ := clientByte_within lib buf l.device hat hne
      exact ⟨_, _, .byte hloop hin ht⟩
    | nil =>
      rw [List.append_nil] at hline
      rw [← hline] at hat
      obtain ⟨t', ht, hat'⟩ := clientByte_newline lib buf l.device hat
      obtain ⟨r, s', ha⟩ := answerItem_returns.2 hfits.runs
      obtain ⟨t'', hturn, -⟩ := clientTurn_handing line.item hat' hs ha
      exact ⟨_, _, .byte hloop hin (ht.trans hturn)⟩
  | answered hwait hat htaken hanswer hcontrol =>
    rename_i r
    have hroom : (text r).length < maxMsgLen := answerItem_due hanswer ▸ hfits.room
    have hin : l.inbox = text r ++ newline :: [] := by
      rw [Link.inbox, hat.written, htaken, List.flatten_append, List.drop_left, sent_eq hlib,
        if_pos hroom, List.flatten_singleton]
    exact ⟨_, _, .returned hwait hin (htext r)⟩

/-- A step during a call that does not return from it takes a byte. -/
theorem Serves.takes (h : Serves lib l (s, some line)) (hstep : LinkStep lib buf l event l')
    (hno : ∀ bytes, event ≠ .returned bytes) : Serves lib l' (s, some line) ∧
      l'.transport.socket.incoming.length + 1 = l.transport.socket.incoming.length := by
  cases hstep with
  | call hidle =>
    cases h with
    | reading hwait => rw [hidle] at hwait; cases hwait
    | answered hwait => rw [hidle] at hwait; cases hwait
  | returned => exact absurd rfl (hno _)
  | byte hloop hin hb => exact h.byte hloop hin hb

theorem Serves.run_takes (h : Serves lib l (s, some line))
    (hrun : Run (LinkStep lib buf) l later l')
    (hno : ∀ bytes, .returned bytes ∉ later) : Serves lib l' (s, some line) ∧
      l'.transport.socket.incoming.length + later.length =
        l.transport.socket.incoming.length := by
  induction hrun with
  | start => exact ⟨h, rfl⟩
  | next _ hstep ih =>
    obtain ⟨hserves, hlen⟩ := ih fun bytes hm => hno bytes (List.mem_cons_of_mem _ hm)
    obtain ⟨hserves', hlen'⟩ := hserves.takes hstep fun bytes he =>
      hno bytes (he ▸ List.mem_cons_self)
    refine ⟨hserves', ?_⟩
    rw [List.length_cons]
    omega

/-- Until a call whose answer fits has returned, there is a step to take, and there are no more of
them than bytes to read. -/
theorem Serves.goes_on (h : Serves lib l (s, some line)) (hlib : WritesWhatFits lib text)
    (htext : ∀ r, newline ∉ text r) (hs : s.pendingReboot = false)
    (hfits : Fits lib text s line.item) :
    ∀ later l', Run (LinkStep lib buf) l later l' → (∀ bytes, .returned bytes ∉ later) →
      later.length ≤ l.transport.socket.incoming.length ∧
        ∃ event l'', LinkStep lib buf l' event l'' := by
  intro later l' hrun hno
  obtain ⟨hserves', hlen⟩ := h.run_takes hrun hno
  exact ⟨by omega, serves_goes_on hlib htext buf hserves' hs hfits⟩

theorem steps_pendingReboot (h : Steps (answerItem lib) s items rs s')
    (hs : s.pendingReboot = false) (hno : ∀ item ∈ items, item.reboots lib = false) :
    s'.pendingReboot = false := by
  induction h with
  | nil => exact hs
  | cons ha _ ih =>
    refine ih ?_ fun item hm => hno item (List.mem_cons_of_mem _ hm)
    rw [answerItem_pendingReboot ha, hs, hno _ List.mem_cons_self]
    rfl

/-- If the answers to all calls fit and no call before reboots the device, the two sides never block
each other: a call returns after at most as many steps as there are bytes that the device has still
to read, and until then there always is a step to take. -/
theorem calls_return (lib : JsonLibrary) (text : Response → Bytes) (buf : Vector UInt8 maxMsgLen)
    (hlib : WritesWhatFits lib text) (htext : ∀ r, newline ∉ text r) (ssid : HString 32)
    (ip : HString 16) (past : List LinkEvent) (l : Link)
    (h : Run (LinkStep lib buf) (.start ssid ip) past l) (hwait : l.waiting = true)
    (hfits : Along (answerItem lib) (Fits lib text) (clientState ssid ip)
      ((callsOf past).map Line.item))
    (hreboots : ∀ line ∈ (callsOf past).dropLast, line.item.reboots lib = false) :
    ∀ later l', Run (LinkStep lib buf) l later l' → (∀ bytes, .returned bytes ∉ later) →
      later.length ≤ l.transport.socket.incoming.length ∧
        ∃ event l'', LinkStep lib buf l' event l'' := by
  obtain ⟨s, pending, returned, hserves, hcalls, rs, hsteps, -⟩ :=
    run_answered (hlib.oneLine htext) h
  cases pending with
  | none =>
    cases hserves with
    | idle hidle => rw [hwait] at hidle; cases hidle
  | some line =>
    rw [hcalls] at hfits hreboots
    rw [Option.toList_some, List.dropLast_concat] at hreboots
    have hline : Fits lib text s line.item :=
      along_iff.1 hfits _ _ [] (by rw [List.map_append]; rfl) rs s hsteps
    have hs : s.pendingReboot = false := by
      refine steps_pendingReboot hsteps rfl fun item hm => ?_
      obtain ⟨call, hcall, rfl⟩ := List.mem_map.1 hm
      exact hreboots call hcall
    exact hserves.goes_on hlib htext hs hline

theorem reboot_call_returns : ∃ past l, callsOf past = [blankLine, rebootLine] ∧
    returnsOf past = [(Response.failure "" .malformedJson).compact] ∧
    Run (LinkStep rebootLibrary (.replicate maxMsgLen 0)) (.start .empty .empty) past l ∧
    ∀ later l', Run (LinkStep rebootLibrary (.replicate maxMsgLen 0)) l later l' →
      (∀ bytes, .returned bytes ∉ later) →
        later.length ≤ l.transport.socket.incoming.length ∧
          ∃ event l'', LinkStep rebootLibrary (.replicate maxMsgLen 0) l' event l'' := by
  obtain ⟨l, hblank, hserves⟩ := call_completes (.replicate maxMsgLen 0)
    (compactLibrary_writes rebootLibrary.fromSlice) (serves_start rebootLibrary .empty .empty) rfl
    blank_answer (by decide)
  have hcall : LinkStep rebootLibrary (.replicate maxMsgLen 0) l (.call rebootLine) _ :=
    .call hserves.idle_waiting
  have hrun := Run.next hblank hcall
  refine ⟨_, _, rfl, rfl, hrun, calls_return rebootLibrary Response.compact
    (.replicate maxMsgLen 0) (compactLibrary_writes _) newline_not_mem_compact .empty .empty _ _
    hrun rfl ?_ ?_⟩
  · have hfirst :
        Fits rebootLibrary Response.compact (clientState .empty .empty) blankLine.item := by
      refine ⟨fun cmd h => ?_, by decide⟩
      cases h
    have hlast :
        Fits rebootLibrary Response.compact (clientState .empty .empty) rebootLine.item := by
      refine ⟨fun cmd h => ?_, by decide⟩
      cases h
      exact fun port hport => absurd hport (Option.not_mem_none port)
    refine ⟨hfirst, fun r s ha => ?_⟩
    rw [blank_answer] at ha
    cases ha
    exact ⟨hlast, fun _ _ _ => trivial⟩
  · intro line hline
    have hblank : line = blankLine := List.mem_singleton.1 hline
    rw [hblank]
    decide

end PicoConduit
