import PicoConduit.Trace

namespace Signal
open Trace
set_option autoImplicit true

/-- What is done with a signal, which has room for one value. -/
inductive Act (α : Type u)
  | post (x : α)
  | take (x : α)
  deriving DecidableEq

def Act.posted : Act α → Option α
  | .post x => some x
  | .take _ => none

def Act.taken : Act α → Option α
  | .post _ => none
  | .take x => some x

/-- A value that is posted replaces one that has not been taken. -/
inductive Step : Option α → Act α → Option α → Prop
  | post : Step slot (.post x) (some x)
  | take : Step (some x) (.take x) none

/-- What is there and what has been taken, the latest first, has been posted in this order, and
nothing has been posted after it. -/
structure Delivered (past : List (Act α)) (slot : Option α) : Prop where
  inOrder : (slot.toList ++ past.filterMap Act.taken).Sublist (past.filterMap Act.posted)
  newest : (slot.toList ++ past.filterMap Act.taken).head? = (past.filterMap Act.posted).head?

theorem delivered_nil : Delivered ([] : List (Act α)) none := ⟨.slnil, rfl⟩

theorem Step.delivered (h : Step slot x slot') (hd : Delivered past slot) :
    Delivered (x :: past) slot' := by
  cases h with
  | post =>
    refine ⟨?_, rfl⟩
    exact ((List.sublist_append_right _ _).trans hd.inOrder).cons_cons _
  | take => exact ⟨hd.inOrder, hd.newest⟩

theorem run_delivered (h : Run Step none past slot) : Delivered past slot :=
  h.relates delivered_nil fun _ _ _ _ hd hs => hs.delivered hd

/-- When there is nothing to take, the value posted last has been taken last. -/
theorem Delivered.taken_latest {past : List (Act α)} (h : Delivered past none) :
    latest Act.taken past = latest Act.posted past := by
  rw [Trace.latest, Trace.latest, ← List.head?_filterMap, ← List.head?_filterMap]
  exact h.newest

end Signal
