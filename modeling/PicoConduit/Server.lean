import PicoConduit.Execution
import PicoConduit.Transport
import PicoConduit.Wire

namespace PicoConduit
open Checked Heapless Utf8 Transducer
set_option autoImplicit true

/-- The JSON library: what it reads from a frame, and what it writes into a buffer of a size. -/
structure JsonLibrary where
  fromSlice : Bytes → Option Command
  toSlice : Response → Nat → Option Bytes

/-- What the loop does next. -/
inductive Control
  | loop
  | closed
  | rebooting
  deriving DecidableEq, Repr

/-- `parse_command`, `validate_route` and `dispatch` on one frame. -/
def answerFrame (lib : JsonLibrary) (s : DeviceState) (frame : Bytes) :
    Exec (Response × DeviceState) :=
  match parseCommand lib.fromSlice frame with
  | .error e => pure (.failure "" e, s)
  | .ok cmd => execute s cmd

/-- One turn of the loop of `handle_client`. -/
def clientTurn (lib : JsonLibrary) (T : Transport τ) (s : DeviceState) (t : τ) :
    Exec (Control × DeviceState × τ) :=
  match T.readFrame t with
  | (.error (.protocol code), t) =>
    match serializeResponse lib.toSlice (.failure "" code) maxMsgLen with
    | .ok bytes => pure (.loop, s, (T.writeFrame bytes t).2)
    | .error _ => pure (.loop, s, t)
  | (.error .disconnected, t) => pure (.closed, s, t)
  | (.error .timeout, t) => pure (.closed, s, t)
  | (.ok frame, t) => do
    let (response, s) ← answerFrame lib s frame
    match serializeResponse lib.toSlice response maxMsgLen with
    | .ok bytes =>
      match T.writeFrame bytes t with
      | (.error _, t) => pure (.closed, s, t)
      | (.ok (), t) => pure (if s.pendingReboot then .rebooting else .loop, s, t)
    | .error _ => pure (if s.pendingReboot then .rebooting else .loop, s, t)

/-- `handle_client` for a number of turns of its loop. -/
def handleClient (lib : JsonLibrary) (T : Transport τ) :
    Nat → DeviceState → τ → Exec (Control × DeviceState × τ)
  | 0, s, t => pure (.loop, s, t)
  | turns + 1, s, t => do
    let (control, s, t) ← clientTurn lib T s t
    match control with
    | .loop => handleClient lib T turns s t
    | control => pure (control, s, t)

/-- The state with which a connection starts. -/
def clientState (ssid : HString 32) (ip : HString 16) : DeviceState :=
  { DeviceState.default false with configSsid := ssid, configIp := ip, configConnected := true }

/-- What a transport hands to the loop while its connection lasts. -/
inductive Item
  | frame (bytes : Bytes)
  | failure (code : ErrorCode)
  deriving DecidableEq

/-- A connection that hands over given items, takes every write, and is then closed. -/
structure Script where
  pending : List Item
  written : List Bytes

def scripted : Transport Script where
  readFrame t :=
    match t.pending with
    | [] => (.error .disconnected, t)
    | .frame bytes :: rest => (.ok bytes, { t with pending := rest })
    | .failure code :: rest => (.error (.protocol code), { t with pending := rest })
  writeFrame bytes t := (.ok (), { t with written := t.written ++ [bytes] })

/-- The response to an item. -/
def answerItem (lib : JsonLibrary) (s : DeviceState) : Item → Exec (Response × DeviceState)
  | .frame bytes => answerFrame lib s bytes
  | .failure code => pure (.failure "" code, s)

/-- What is written for a response: nothing if it does not fit the buffer. -/
def sent (lib : JsonLibrary) (r : Response) : List Bytes :=
  match serializeResponse lib.toSlice r maxMsgLen with
  | .ok bytes => [bytes]
  | .error _ => []

/-- The command of an item, if its frame holds one. -/
def Item.command (lib : JsonLibrary) : Item → Option Command
  | .frame bytes => (parseCommand lib.fromSlice bytes).toOption
  | .failure _ => none

def Item.reboots (lib : JsonLibrary) (item : Item) : Bool :=
  (item.command lib).any Command.isReboot

/-- The items up to and including the first reboot command. -/
def uptoReboot (lib : JsonLibrary) : List Item → List Item
  | [] => []
  | item :: rest => if item.reboots lib then [item] else item :: uptoReboot lib rest

/-- The id under which an item is answered. -/
def Item.id (lib : JsonLibrary) (item : Item) : String :=
  match item.command lib with
  | some cmd => cmd.id
  | none => ""

theorem clientTurn_cons (hs : s.pendingReboot = false) :
    clientTurn lib scripted s ⟨item :: rest, w⟩ = (do
      let (r, s') ← answerItem lib s item
      pure (if s'.pendingReboot then .rebooting else .loop, s', ⟨rest, w ++ sent lib r⟩)) := by
  cases item with
  | failure code =>
    simp only [clientTurn, scripted, answerItem, sent, pure_eq, ok_bind, hs]
    split <;> simp
  | frame bytes =>
    simp only [clientTurn, scripted, answerItem]
    cases answerFrame lib s bytes with
    | error q => rfl
    | ok x =>
      simp only [ok_bind, sent]
      split <;> simp

theorem answerItem_none (hc : item.command lib = none) :
    ∃ code, answerItem lib s item = .ok (.failure "" code, s) := by
  cases item with
  | failure code => exact ⟨code, rfl⟩
  | frame bytes =>
    simp only [answerItem, answerFrame, Item.command] at hc ⊢
    cases hp : parseCommand lib.fromSlice bytes with
    | error e => exact ⟨e, rfl⟩
    | ok cmd =>
      rw [hp] at hc
      cases hc

theorem answerItem_some (hc : item.command lib = some cmd) :
    answerItem lib s item = execute s cmd := by
  cases item with
  | failure code => cases hc
  | frame bytes =>
    simp only [answerItem, answerFrame, Item.command] at hc ⊢
    cases hp : parseCommand lib.fromSlice bytes with
    | error e =>
      rw [hp] at hc
      cases hc
    | ok c =>
      rw [hp] at hc
      cases hc
      rfl

theorem answerItem_id (h : answerItem lib s item = .ok (r, s')) : r.id = item.id lib := by
  simp only [Item.id]
  cases hc : item.command lib with
  | none =>
    obtain ⟨code, he⟩ := answerItem_none (s := s) hc
    rw [h] at he
    cases he
    rfl
  | some cmd =>
    rw [answerItem_some hc] at h
    exact execute_id h

theorem answerItem_pendingReboot (h : answerItem lib s item = .ok (r, s')) :
    s'.pendingReboot = (s.pendingReboot || item.reboots lib) := by
  simp only [Item.reboots]
  cases hc : item.command lib with
  | none =>
    obtain ⟨code, he⟩ := answerItem_none (s := s) hc
    rw [h] at he
    cases he
    simp
  | some cmd =>
    rw [answerItem_some hc] at h
    exact execute_pendingReboot h

/-- A loop that has ended has answered the items up to the first reboot command. -/
theorem handleClient_ended (hs : s.pendingReboot = false)
    (h : handleClient lib scripted turns s ⟨items, w⟩ = .ok (c, s', t)) (hc : c ≠ .loop) :
    ∃ rs, Steps (answerItem lib) s (uptoReboot lib items) rs s' ∧
      t.written = w ++ rs.flatMap (sent lib) := by
  induction turns generalizing s items w with
  | zero =>
    cases h
    exact absurd rfl hc
  | succ turns ih =>
    cases items with
    | nil =>
      cases h
      exact ⟨[], .nil, (List.append_nil w).symm⟩
    | cons item rest =>
      rw [handleClient, clientTurn_cons hs] at h
      cases ha : answerItem lib s item with
      | error q =>
        rw [ha] at h
        cases h
      | ok x =>
        obtain ⟨r, s₁⟩ := x
        have hp := answerItem_pendingReboot ha
        rw [hs, Bool.false_or] at hp
        simp only [ha, ok_bind, pure_eq, hp, uptoReboot] at h ⊢
        cases hr : item.reboots lib with
        | true =>
          rw [hr] at h
          cases h
          exact ⟨[r], .cons ha .nil, by simp⟩
        | false =>
          rw [hr] at h
          obtain ⟨rs, hsteps, hw⟩ := ih (hp.trans hr) h
          exact ⟨r :: rs, .cons ha hsteps, by rw [hw, List.flatMap_cons, List.append_assoc]⟩

/-- A loop that fails on none of them ends after one turn for each item and one more. -/
theorem handleClient_ends (w : List Bytes) (hs : s.pendingReboot = false)
    (h : Steps (answerItem lib) s (uptoReboot lib items) rs s') (ht : items.length < turns) :
    ∃ c t, handleClient lib scripted turns s ⟨items, w⟩ = .ok (c, s', t) ∧ c ≠ .loop ∧
      t.written = w ++ rs.flatMap (sent lib) := by
  induction turns generalizing s items w rs with
  | zero => omega
  | succ turns ih =>
    cases items with
    | nil =>
      cases h
      exact ⟨.closed, ⟨[], w⟩, rfl, by decide, (List.append_nil w).symm⟩
    | cons item rest =>
      rw [handleClient, clientTurn_cons hs]
      simp only [uptoReboot] at h
      split at h
      · rename_i hr
        cases h with
        | cons ha hrest =>
          cases hrest
          have hp := answerItem_pendingReboot ha
          rw [hr, Bool.or_true] at hp
          simp only [ha, ok_bind, pure_eq, hp, ↓reduceIte]
          exact ⟨_, _, rfl, by decide, by simp⟩
      · rename_i hr
        rw [Bool.not_eq_true] at hr
        cases h with
        | cons ha hrest =>
          rename_i r s₁ rs
          have hp := answerItem_pendingReboot ha
          rw [hr, hs, Bool.or_false] at hp
          have hlen : rest.length < turns := by simpa using ht
          obtain ⟨c, t, he, hc, hw⟩ := ih (w ++ sent lib r) hp hrest hlen
          simp only [ha, ok_bind, pure_eq, hp, Bool.false_eq_true, ↓reduceIte]
          exact ⟨c, t, he, hc, by rw [hw, List.flatMap_cons, List.append_assoc]⟩

/-- A written line answers an item: it is a response under the item's id, or reports that the
response was too large. -/
def Answers (lib : JsonLibrary) (text : Response → Bytes) (item : Item) (line : Bytes) : Prop :=
  ∃ r : Response, line = text r ++ [newline] ∧
    (r.id = item.id lib ∨ r.error = some .msgTooLarge)

/-- The loop ends, and has written one answer for every item up to the first reboot command. -/
def AnsweredInOrder (lib : JsonLibrary) (text : Response → Bytes) (ssid : HString 32)
    (ip : HString 16) (items : List Item) : Prop :=
  ∃ turns c s t, handleClient lib scripted turns (clientState ssid ip) ⟨items, []⟩ = .ok (c, s, t) ∧
    c ≠ .loop ∧ List.Forall₂ (Answers lib text) (uptoReboot lib items) t.written

/-- The library writes a response exactly when its text fits the buffer. -/
def WritesWhatFits (lib : JsonLibrary) (text : Response → Bytes) : Prop :=
  ∀ r n, lib.toSlice r n = if (text r).length ≤ n then some (text r) else none

/-- The response that is due to an item in a state, from what its command asks for. -/
def Item.due (lib : JsonLibrary) (s : DeviceState) : Item → Response
  | .failure code => .failure "" code
  | .frame bytes =>
    match parseCommand lib.fromSlice bytes with
    | .error e => .failure "" e
    | .ok cmd => (cmd.operation.due s).respond cmd.id

/-- An item's command overruns no buffer, and the text of the response that is due leaves room for
the newline in the response buffer. -/
structure Fits (lib : JsonLibrary) (text : Response → Bytes) (s : DeviceState) (item : Item) :
    Prop where
  runs : ∀ cmd, item.command lib = some cmd →
    ∀ port ∈ cmd.operation.overruns, ¬ s.configured port
  room : (text (item.due lib s)).length < maxMsgLen

theorem answerItem_due (h : answerItem lib s item = .ok (r, s')) : r = item.due lib s := by
  cases item with
  | failure code => cases h; rfl
  | frame bytes =>
    simp only [answerItem, answerFrame, Item.due] at h ⊢
    cases hp : parseCommand lib.fromSlice bytes with
    | error e =>
      rw [hp] at h
      cases h
      rfl
    | ok cmd =>
      rw [hp] at h
      exact execute_due h

theorem sent_eq (hlib : WritesWhatFits lib text) (r : Response) :
    sent lib r = if (text r).length < maxMsgLen then [text r ++ [newline]] else [] := by
  simp only [sent, serializeResponse, hlib r maxMsgLen]
  by_cases h : (text r).length < maxMsgLen
  · simp only [h, Nat.le_of_lt h, Nat.not_le.2 h, ↓reduceIte]
  · by_cases hle : (text r).length ≤ maxMsgLen
    · simp only [h, hle, Nat.not_lt.1 h, ↓reduceIte]
    · simp only [h, hle, ↓reduceIte]

theorem answerItem_returns : (∃ r s', answerItem lib s item = .ok (r, s')) ↔
    ∀ cmd, item.command lib = some cmd →
      ∀ port ∈ cmd.operation.overruns, ¬ s.configured port := by
  cases hc : item.command lib with
  | none =>
    obtain ⟨code, he⟩ := answerItem_none (s := s) hc
    simp [he]
  | some cmd => simp only [answerItem_some hc, execute_returns, Option.some.injEq, forall_eq']

theorem fits_iff (h : answerItem lib s item = .ok (r, s')) :
    Fits lib text s item ↔ (text r).length < maxMsgLen := by
  rw [answerItem_due h]
  exact ⟨Fits.room, fun hl => ⟨answerItem_returns.1 ⟨r, s', h⟩, hl⟩⟩

/-- When every response leaves at most one line and there are as many lines as responses, each
response has left one. -/
theorem sent_each {rs : List Response} (hlib : WritesWhatFits lib text)
    (h : (rs.flatMap (sent lib)).length = rs.length) :
    ∀ r ∈ rs, (text r).length < maxMsgLen := by
  have hle (r : Response) : (sent lib r).length ≤ 1 := by
    rw [sent_eq hlib]
    split <;> simp
  have hsum (rs : List Response) : (rs.flatMap (sent lib)).length ≤ rs.length := by
    induction rs with
    | nil => simp
    | cons r rs ih =>
      have hr := hle r
      simp only [List.flatMap_cons, List.length_append, List.length_cons]
      omega
  induction rs with
  | nil => simp
  | cons r rs ih =>
    have hr := hle r
    have hrs := hsum rs
    simp only [List.flatMap_cons, List.length_append, List.length_cons] at h
    rw [List.forall_mem_cons]
    refine ⟨?_, ih (by omega)⟩
    rw [sent_eq hlib] at h hr
    by_cases hl : (text r).length < maxMsgLen
    · exact hl
    · simp only [hl, ↓reduceIte, List.length_nil] at h
      omega

theorem sent_all {rs : List Response} (hlib : WritesWhatFits lib text)
    (h : ∀ r ∈ rs, (text r).length < maxMsgLen) :
    rs.flatMap (sent lib) = rs.map fun r => text r ++ [newline] := by
  induction rs with
  | nil => rfl
  | cons r rs ih =>
    rw [List.forall_mem_cons] at h
    rw [List.flatMap_cons, List.map_cons, ih h.2, sent_eq hlib, if_pos h.1]
    rfl

/-- The responses of a run are all written, and answer its items, exactly when they all fit. -/
theorem lines_answer_iff (hlib : WritesWhatFits lib text)
    (h : Steps (answerItem lib) s items rs s') :
    List.Forall₂ (Answers lib text) items (rs.flatMap (sent lib)) ↔
      Along (answerItem lib) (Fits lib text) s items := by
  have hfits : Along (answerItem lib) (Fits lib text) s items ↔
      ∀ r ∈ rs, (text r).length < maxMsgLen :=
    h.along_iff fun s item r s' hr => fits_iff hr
  rw [hfits]
  constructor
  · intro hf
    exact sent_each hlib (hf.length_eq.symm.trans h.length_eq.symm)
  · intro hall
    rw [sent_all hlib hall, List.forall₂_map_right_iff]
    exact h.forall₂ fun s item r s' hr => ⟨r, rfl, .inl (answerItem_id hr)⟩

theorem answered_in_order_iff (lib : JsonLibrary) (text : Response → Bytes)
    (hlib : WritesWhatFits lib text) (ssid : HString 32) (ip : HString 16) (items : List Item) :
    AnsweredInOrder lib text ssid ip items ↔
      Along (answerItem lib) (Fits lib text) (clientState ssid ip) (uptoReboot lib items) := by
  constructor
  · intro hx
    obtain ⟨turns, c, s, t, hr, hc, hf⟩ := hx
    obtain ⟨rs, hs, hw⟩ := handleClient_ended rfl hr hc
    rw [hw, List.nil_append] at hf
    exact (lines_answer_iff hlib hs).1 hf
  · intro h
    obtain ⟨rs, s', hs⟩ := exists_steps_iff.2 (h.mono fun s item hf => answerItem_returns.2 hf.runs)
    obtain ⟨c, t, hr, hc, hw⟩ := handleClient_ends [] rfl hs (Nat.lt_succ_self items.length)
    rw [List.nil_append] at hw
    exact ⟨_, c, s', t, hr, hc, hw ▸ (lines_answer_iff hlib hs).2 h⟩

/-- The JSON text of a response without data whose id needs no escapes. -/
def replyText (r : Response) : Bytes :=
  asBytes ("\x7b\"id\":\"" ++ r.id ++ "\",\"ok\":" ++ (if r.ok then "true" else "false") ++
    ",\"data\":null,\"error\":" ++
    (match r.error with
      | none => "null"
      | some e => "\"" ++ e.text ++ "\"") ++ "\x7d")

/-- A JSON library that reads one command from one frame. -/
def replyLibrary (frame : Bytes) (cmd : Command) : JsonLibrary where
  fromSlice buf := if buf = frame then some cmd else none
  toSlice r n := if (replyText r).length ≤ n then some (replyText r) else none

def rebootFrame : Bytes :=
  asBytes ("\x7b\"version\":1,\"id\":\"r\",\"interface\":\"system\"," ++
    "\"action\":\"reboot_to_bootloader\"\x7d")

def rebootCommand : Command where
  version := some 1
  id := "r"
  interface := some "system"
  action := some "reboot_to_bootloader"

theorem parseCommand_reply (hf : frame.length ≤ maxMsgLen) (hv : cmd.version = some 1) :
    parseCommand (replyLibrary frame cmd).fromSlice frame = .ok cmd :=
  parseCommand_eq_ok.2 ⟨hf, if_pos rfl, hv⟩

theorem reboot_answered : AnsweredInOrder (replyLibrary rebootFrame rebootCommand) replyText
    .empty .empty [.failure .msgTooLarge, .frame rebootFrame] := by
  have hcmd : (Item.frame rebootFrame).command (replyLibrary rebootFrame rebootCommand) =
      some rebootCommand := by
    rw [Item.command, parseCommand_reply (by decide) rfl]
    rfl
  have hupto : uptoReboot (replyLibrary rebootFrame rebootCommand)
      [.failure .msgTooLarge, .frame rebootFrame] =
      [.failure .msgTooLarge, .frame rebootFrame] := by
    simp only [uptoReboot, Item.reboots, hcmd]
    rfl
  refine (answered_in_order_iff _ _ (fun r n => rfl) _ _ _).2 ?_
  rw [hupto]
  refine ⟨(fits_iff rfl).2 (by decide), fun o s' h => ⟨?_, fun _ _ _ => trivial⟩⟩
  cases h
  refine (fits_iff ((answerItem_some hcmd).trans rfl)).2 (by decide)

def longId : String := String.ofList (List.replicate 1000 'a')

def longFrame : Bytes :=
  asBytes "\x7b\"version\":1,\"id\":\"" ++ (asBytes longId ++ asBytes "\"\x7d")

def longCommand : Command where
  version := some 1
  id := longId

theorem utf8ByteSize_replicate (n : Nat) :
    (String.ofList (List.replicate n 'a')).utf8ByteSize = n := by
  have hc : String.utf8EncodeChar 'a' = ['a'.toUInt8] := rfl
  rw [← length_asBytes, asBytes_replicate n hc, List.length_replicate]

theorem longId_length : longId.utf8ByteSize = 1000 := utf8ByteSize_replicate 1000

theorem longFrame_length : longFrame.length = 1021 := by
  have hopen : (asBytes "\x7b\"version\":1,\"id\":\"").length = 19 := rfl
  have hclose : (asBytes "\"\x7d").length = 2 := rfl
  rw [longFrame, List.length_append, List.length_append, length_asBytes longId, longId_length,
    hopen, hclose]

/-- The text contains the whole id, and at least as much as a plain success has around it. -/
theorem replyText_length (r : Response) : r.id.utf8ByteSize + 40 ≤ (replyText r).length := by
  have hopen : "\x7b\"id\":\"".utf8ByteSize = 7 := rfl
  have hok : "\",\"ok\":".utf8ByteSize = 7 := rfl
  have hdata : ",\"data\":null,\"error\":".utf8ByteSize = 21 := rfl
  have hflag : 4 ≤ (if r.ok then "true" else "false").utf8ByteSize := by
    split <;> decide
  have hclose : "\x7d".utf8ByteSize = 1 := rfl
  simp only [replyText, length_asBytes, String.utf8ByteSize_append, hopen, hok, hdata, hclose]
  omega

theorem long_id_dropped : longFrame.length ≤ maxMsgLen ∧
    ¬ AnsweredInOrder (replyLibrary longFrame longCommand) replyText .empty .empty
      [.frame longFrame] := by
  have hlen : longFrame.length ≤ maxMsgLen := by
    rw [longFrame_length]
    decide
  refine ⟨hlen, ?_⟩
  have hcmd : (Item.frame longFrame).command (replyLibrary longFrame longCommand) =
      some longCommand := by
    rw [Item.command, parseCommand_reply hlen rfl]
    rfl
  have hupto : uptoReboot (replyLibrary longFrame longCommand) [.frame longFrame] =
      [.frame longFrame] := by
    simp only [uptoReboot, Item.reboots, hcmd]
    rfl
  intro h
  obtain ⟨turns, c, s, t, hr, hc, hf⟩ := h
  obtain ⟨rs, hs, hw⟩ := handleClient_ended rfl hr hc
  rw [hupto] at hs hf
  obtain ⟨r, rfl, ha⟩ := steps_singleton.1 hs
  have hid := answerItem_id ha
  rw [Item.id, hcmd] at hid
  have hl := replyText_length r
  rw [show r.id = longId from hid, longId_length] at hl
  have hsent : sent (replyLibrary longFrame longCommand) r = [] := by
    have hbig : 1024 ≤ (replyText r).length := by omega
    rw [sent_eq fun r n => rfl, if_neg (Nat.not_lt.2 hbig)]
  rw [hw, List.flatMap_singleton, hsent] at hf
  cases hf

end PicoConduit
