import PicoConduit.Server
import PicoConduit.TcpTransport

namespace PicoConduit
open Checked Heapless Utf8 Transducer
set_option autoImplicit true

/-- What a transport hands over for an item. -/
def Item.result : Item → Except TransportError Bytes
  | .frame bytes => .ok bytes
  | .failure code => .error (.protocol code)

/-- A transport that hands over one item for each of the messages that are still to come and then
closes, and that takes every write. -/
structure Hands (T : Transport τ) (written : τ → List Bytes) (item : κ → Item)
    (R : τ → List κ → List Bytes → Prop) : Prop where
  written_eq : ∀ {t xs w}, R t xs w → written t = w
  read : ∀ {t x xs w}, R t (x :: xs) w →
    ∃ t', T.readFrame t = ((item x).result, t') ∧ R t' xs w
  finish : ∀ {t w}, R t [] w → ∃ t', T.readFrame t = (.error .disconnected, t') ∧ written t' = w
  write : ∀ {t xs w} bytes, R t xs w →
    ∃ t', T.writeFrame bytes t = (.ok (), t') ∧ R t' xs (w ++ [bytes])

/-- An item after which the loop goes on. -/
structure Passes (lib : JsonLibrary) (s : DeviceState) (item : Item) : Prop where
  runs : ∀ cmd, item.command lib = some cmd →
    ∀ port ∈ cmd.operation.overruns, ¬ s.configured port
  stays : item.reboots lib = false

/-- How a loop has ended or gone on, and what it has written since some state of the transport. -/
def since (written : τ → List Bytes) (w : List Bytes)
    (r : Exec (Control × DeviceState × τ)) : Exec (Control × DeviceState × List Bytes) :=
  r.map fun x => (x.1, x.2.1, (written x.2.2).drop w.length)

theorem handleClient_add (h : handleClient lib T k s t = .ok (.loop, s', t')) (m : Nat) :
    handleClient lib T (k + m) s t = handleClient lib T m s' t' := by
  induction k generalizing s t with
  | zero =>
    cases h
    rw [Nat.zero_add]
  | succ k ih =>
    rw [handleClient] at h
    obtain ⟨⟨c, s₁, t₁⟩, ht, hr⟩ := bind_eq_ok.1 h
    cases c with
    | loop =>
      rw [Nat.add_right_comm, handleClient, ht]
      exact ih hr
    | closed => cases hr
    | rebooting => cases hr

section Invariant
variable {T : Transport τ} {I : τ → Prop}

theorem clientTurn_invariant (hread : ∀ t, I t → I (T.readFrame t).2)
    (hwrite : ∀ bytes t, I t → I (T.writeFrame bytes t).2) (ht : I t)
    (h : clientTurn lib T s t = .ok (c, s', t')) : I t' := by
  have hr := hread t ht
  simp only [clientTurn] at h
  split at h
  · rename_i code t₁ he
    rw [he] at hr
    split at h
    · cases h
      exact hwrite _ _ hr
    · cases h
      exact hr
  · rename_i t₁ he
    rw [he] at hr
    cases h
    exact hr
  · rename_i t₁ he
    rw [he] at hr
    cases h
    exact hr
  · rename_i frame t₁ he
    rw [he] at hr
    obtain ⟨x, -, hx⟩ := bind_eq_ok.1 h
    split at hx
    · rename_i bytes _
      have hw := hwrite bytes t₁ hr
      split at hx
      · rename_i hwr
        rw [hwr] at hw
        cases hx
        exact hw
      · rename_i hwr
        rw [hwr] at hw
        cases hx
        exact hw
    · cases hx
      exact hr

/-- What reads and writes keep true of a transport, the loop keeps true. -/
theorem handleClient_invariant (hread : ∀ t, I t → I (T.readFrame t).2)
    (hwrite : ∀ bytes t, I t → I (T.writeFrame bytes t).2) (ht : I t)
    (h : handleClient lib T turns s t = .ok (c, s', t')) : I t' := by
  induction turns generalizing s t with
  | zero =>
    cases h
    exact ht
  | succ turns ih =>
    rw [handleClient] at h
    obtain ⟨⟨c₁, s₁, t₁⟩, hturn, hr⟩ := bind_eq_ok.1 h
    have ht₁ := clientTurn_invariant hread hwrite ht hturn
    cases c₁ with
    | loop => exact ih ht₁ hr
    | closed =>
      cases hr
      exact ht₁
    | rebooting =>
      cases hr
      exact ht₁

end Invariant

section Loop
variable {T : Transport τ} {written : τ → List Bytes} {item : κ → Item}
  {R : τ → List κ → List Bytes → Prop}

/-- What is sent for a response is written, and nothing is if it does not fit. -/
theorem Hands.send (H : Hands T written item R) (lib : JsonLibrary) (h : R t xs w)
    (r : Response) :
    (∃ bytes t', serializeResponse lib.toSlice r maxMsgLen = .ok bytes ∧
        T.writeFrame bytes t = (.ok (), t') ∧ R t' xs (w ++ sent lib r)) ∨
      (∃ e, serializeResponse lib.toSlice r maxMsgLen = .error e) ∧ R t xs (w ++ sent lib r) := by
  cases hr : serializeResponse lib.toSlice r maxMsgLen with
  | ok bytes =>
    obtain ⟨t', hw, hR⟩ := H.write bytes h
    exact .inl ⟨bytes, t', rfl, hw, by simpa only [sent, hr] using hR⟩
  | error e => exact .inr ⟨⟨e, rfl⟩, by simpa only [sent, hr, List.append_nil] using h⟩

theorem Hands.turn (H : Hands T written item R) (h : R t (x :: xs) w)
    (hs : s.pendingReboot = false) (ha : answerItem lib s (item x) = .ok (r, s')) :
    ∃ t', clientTurn lib T s t =
        .ok (if (item x).reboots lib then .rebooting else .loop, s', t') ∧
      R t' xs (w ++ sent lib r) := by
  have hp := answerItem_pendingReboot ha
  rw [hs, Bool.false_or] at hp
  obtain ⟨t₁, hread, hR⟩ := H.read h
  cases hx : item x with
  | failure code =>
    rw [hx] at ha hread
    cases ha
    rcases H.send lib hR (.failure "" code) with ⟨bytes, t₂, hr, hw, hR'⟩ | ⟨⟨e, hr⟩, hR'⟩
    · refine ⟨t₂, ?_, hR'⟩
      simp only [clientTurn, hread, Item.result, hr, hw, pure_eq]
      rfl
    · refine ⟨t₁, ?_, hR'⟩
      simp only [clientTurn, hread, Item.result, hr, pure_eq]
      rfl
  | frame bytes =>
    rw [hx] at ha hread hp
    simp only [answerItem] at ha
    rw [← hp]
    rcases H.send lib hR r with ⟨bytes, t₂, hr, hw, hR'⟩ | ⟨⟨e, hr⟩, hR'⟩
    · refine ⟨t₂, ?_, hR'⟩
      simp only [clientTurn, hread, Item.result, ha, ok_bind, hr, hw, pure_eq]
    · refine ⟨t₁, ?_, hR'⟩
      simp only [clientTurn, hread, Item.result, ha, ok_bind, hr, pure_eq]

theorem Hands.turn_error (H : Hands T written item R) (h : R t (x :: xs) w)
    (ha : answerItem lib s (item x) = .error q) : clientTurn lib T s t = .error q := by
  obtain ⟨t₁, hread, -⟩ := H.read h
  cases hx : item x with
  | failure code =>
    rw [hx] at ha
    cases ha
  | frame bytes =>
    rw [hx] at ha hread
    simp only [answerItem] at ha
    simp only [clientTurn, hread, Item.result, ha, error_bind]

theorem Hands.turn_end (H : Hands T written item R) (lib : JsonLibrary) (s : DeviceState)
    (h : R t [] w) :
    ∃ t', clientTurn lib T s t = .ok (.closed, s, t') ∧ written t' = w := by
  obtain ⟨t', hr, hw⟩ := H.finish h
  exact ⟨t', by simp only [clientTurn, hr, pure_eq], hw⟩

theorem answerItem_passes (ha : answerItem lib s i = .ok (r, s')) :
    Passes lib s i ↔ i.reboots lib = false :=
  ⟨Passes.stays, fun hr => ⟨answerItem_returns.1 ⟨r, s', ha⟩, hr⟩⟩

/-- The loop has one turn for each message that passes. -/
theorem Hands.handles (H : Hands T written item R) (h : R t (xs ++ rest) w)
    (hs : s.pendingReboot = false) (hr : Steps (answerItem lib) s (xs.map item) rs s')
    (hp : Along (answerItem lib) (Passes lib) s (xs.map item)) :
    ∃ t', handleClient lib T xs.length s t = .ok (.loop, s', t') ∧
      R t' rest (w ++ rs.flatMap (sent lib)) ∧ s'.pendingReboot = false := by
  induction xs generalizing s t w rs with
  | nil =>
    cases hr
    exact ⟨t, rfl, (List.append_nil w).symm ▸ h, hs⟩
  | cons x xs ih =>
    cases hr with
    | cons ha hrest =>
      rename_i r s₁ rs
      obtain ⟨t₁, hturn, hR⟩ := H.turn h hs ha
      have hp₁ := answerItem_pendingReboot ha
      rw [hs, hp.1.stays, Bool.or_false] at hp₁
      obtain ⟨t', hl, hR', hs'⟩ := ih hR hp₁ hrest (hp.2 r s₁ ha)
      rw [List.append_assoc, ← List.flatMap_cons] at hR'
      refine ⟨t', ?_, hR', hs'⟩
      rw [List.length_cons, handleClient, hturn, hp.1.stays]
      exact hl

/-- If the loop goes on after so many turns, then the first messages have passed. -/
theorem Hands.passed (H : Hands T written item R) (h : R t (xs ++ rest) w)
    (hs : s.pendingReboot = false)
    (hl : handleClient lib T xs.length s t = .ok (.loop, s', t')) :
    Along (answerItem lib) (Passes lib) s (xs.map item) := by
  induction xs generalizing s t w with
  | nil => trivial
  | cons x xs ih =>
    rw [List.length_cons, handleClient] at hl
    cases ha : answerItem lib s (item x) with
    | error q =>
      rw [H.turn_error h ha] at hl
      cases hl
    | ok y =>
      obtain ⟨r, s₁⟩ := y
      obtain ⟨t₁, hturn, hR⟩ := H.turn h hs ha
      rw [hturn] at hl
      cases hr : (item x).reboots lib with
      | true =>
        rw [hr] at hl
        cases hl
      | false =>
        rw [hr] at hl
        have hp₁ := answerItem_pendingReboot ha
        rw [hs, hr, Bool.or_false] at hp₁
        refine ⟨(answerItem_passes ha).2 hr, fun o s₂ ho => ?_⟩
        rw [ha] at ho
        cases ho
        exact ih hR hp₁ hl

/-- From where two connections still hand over the same messages, their loops do the same. -/
theorem Hands.since_eq (H : Hands T written item R) (h : R t xs (w ++ v))
    (h' : R t' xs (w' ++ v)) (hs : s.pendingReboot = false) (turns : Nat) :
    since written w (handleClient lib T turns s t) =
      since written w' (handleClient lib T turns s t') := by
  have hdrop (w v : List Bytes) : (w ++ v).drop w.length = v := List.drop_left
  induction turns generalizing s t t' xs v with
  | zero =>
    simp only [handleClient, since, pure_eq, Except.map, H.written_eq h, H.written_eq h', hdrop]
  | succ turns ih =>
    rw [handleClient, handleClient]
    cases xs with
    | nil =>
      obtain ⟨t₁, ht, hw⟩ := H.turn_end lib s h
      obtain ⟨t₁', ht', hw'⟩ := H.turn_end lib s h'
      rw [ht, ht']
      simp only [since, ok_bind, pure_eq, Except.map, hw, hw', hdrop]
    | cons x xs =>
      cases ha : answerItem lib s (item x) with
      | error q =>
        rw [H.turn_error h ha, H.turn_error h' ha]
        rfl
      | ok y =>
        obtain ⟨r, s₁⟩ := y
        obtain ⟨t₁, ht, hR⟩ := H.turn h hs ha
        obtain ⟨t₁', ht', hR'⟩ := H.turn h' hs ha
        rw [ht, ht']
        cases hr : (item x).reboots lib with
        | true =>
          simp only [since, ok_bind, pure_eq, ↓reduceIte, Except.map, H.written_eq hR,
            H.written_eq hR', List.append_assoc, hdrop]
        | false =>
          have hp₁ := answerItem_pendingReboot ha
          rw [hs, hr, Bool.or_false] at hp₁
          rw [List.append_assoc] at hR hR'
          exact ih hR hR' hp₁

end Loop

end PicoConduit
