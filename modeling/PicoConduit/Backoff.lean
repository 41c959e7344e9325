import Mathlib.Data.List.Basic
import Mathlib.Data.List.Infix

namespace Backoff
set_option autoImplicit true

/-- The delay after a number of earlier failures, which doubles up to a longest one. -/
def delay (first longest : Nat) : Nat → Nat
  | 0 => first
  | k + 1 => min longest (2 * delay first longest k)

theorem delay_le (h : first ≤ longest) (k : Nat) : delay first longest k ≤ longest := by
  cases k with
  | zero => exact h
  | succ k => exact Nat.min_le_left _ _

/-- What the delays after the first failures add up to. -/
def total (d : Nat → Nat) : Nat → Nat
  | 0 => 0
  | k + 1 => total d k + d k

theorem total_mono (d : Nat → Nat) (h : k ≤ n) : total d k ≤ total d n := by
  induction h with
  | refl => exact Nat.le_refl _
  | step _ ih => exact Nat.le_trans ih (Nat.le_add_right _ _)

/-- The failures since the last success. -/
def streak (outcomes : List Bool) : Nat :=
  outcomes.foldl (fun k ok => if ok then 0 else k + 1) 0

@[simp] theorem streak_nil : streak [] = 0 := rfl

@[simp] theorem streak_success (xs : List Bool) : streak (xs ++ [true]) = 0 := by
  rw [streak, List.foldl_append]
  rfl

@[simp] theorem streak_failure (xs : List Bool) : streak (xs ++ [false]) = streak xs + 1 := by
  rw [streak, List.foldl_append]
  rfl

theorem replicate_streak_suffix (xs : List Bool) : List.replicate (streak xs) false <:+ xs := by
  induction xs using List.reverseRecOn with
  | nil => exact List.suffix_rfl
  | append_singleton xs ok ih =>
    cases ok with
    | true =>
      rw [streak_success]
      exact List.nil_suffix
    | false =>
      obtain ⟨pre, hpre⟩ := ih
      refine ⟨pre, ?_⟩
      rw [streak_failure, List.replicate_succ', ← List.append_assoc, hpre]

theorem le_streak_append (xs : List Bool) (n : Nat) :
    n ≤ streak (xs ++ List.replicate n false) := by
  induction n with
  | zero => exact Nat.zero_le _
  | succ n ih =>
    rw [List.replicate_succ', ← List.append_assoc, streak_failure]
    exact Nat.succ_le_succ ih

/-- So many failures happen in a row exactly when the streak is that long at some point. -/
theorem failures_infix_iff : List.replicate n false <:+: xs ↔
    ∃ past, past <+: xs ∧ n ≤ streak past := by
  constructor
  · rintro ⟨pre, post, rfl⟩
    exact ⟨_, List.prefix_append _ _, le_streak_append pre n⟩
  · rintro ⟨past, hpast, hn⟩
    have hshort : List.replicate n false <:+: List.replicate (streak past) false := by
      refine ⟨[], List.replicate (streak past - n) false, ?_⟩
      rw [List.nil_append, List.replicate_append_replicate]
      congr 1
      omega
    exact (hshort.trans (replicate_streak_suffix past).isInfix).trans hpast.isInfix

end Backoff
