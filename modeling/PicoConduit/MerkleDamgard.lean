import Mathlib.Data.List.Basic
import Mathlib.Data.Nat.ModEq
import Mathlib.Order.Bounds.Basic

namespace MerkleDamgard
set_option autoImplicit true

/-- The whole blocks of a message. -/
def blocks (n : Nat) (xs : List α) : List (List α) :=
  (List.range (xs.length / n)).map fun i => (xs.drop (n * i)).take n

theorem blocks_of_lt (h : List.length xs < n) : blocks n xs = [] := by
  rw [blocks, Nat.div_eq_of_lt h]
  rfl

theorem blocks_nil (hn : 0 < n) : blocks n ([] : List α) = [] := blocks_of_lt hn

theorem blocks_cons (hn : 0 < n) (h : n ≤ List.length xs) :
    blocks n xs = xs.take n :: blocks n (xs.drop n) := by
  have hcount : xs.length / n = (xs.drop n).length / n + 1 := by
    rw [List.length_drop, ← Nat.add_div_right _ hn, Nat.sub_add_cancel h]
  rw [blocks, blocks, hcount, List.range_succ_eq_map, List.map_cons, List.map_map, Nat.mul_zero,
    List.drop_zero]
  refine congrArg (xs.take n :: ·) (List.map_congr_left fun i _ => ?_)
  rw [List.drop_drop, Function.comp_apply, Nat.mul_succ, Nat.add_comm]

theorem blocks_append (ys : List α) (hn : 0 < n) (k : Nat) (h : List.length xs = n * k) :
    blocks n (xs ++ ys) = blocks n xs ++ blocks n ys := by
  induction k generalizing xs with
  | zero =>
    rw [List.length_eq_zero_iff.1 h, blocks_nil hn]
    rfl
  | succ k ih =>
    have hle : n ≤ xs.length := by
      rw [h, Nat.mul_succ]
      exact Nat.le_add_left n _
    have hdrop : (xs.drop n).length = n * k := by
      rw [List.length_drop, h, Nat.mul_succ, Nat.add_sub_cancel]
    rw [blocks_cons hn hle, blocks_cons hn (Nat.le_trans hle (by simp)),
      List.take_append_of_le_length hle, List.drop_append_of_le_length hle, ih hdrop,
      List.cons_append]

theorem blocks_self (hn : 0 < n) (h : List.length xs = n) : blocks n xs = [xs] := by
  rw [blocks_cons hn (Nat.le_of_eq h.symm), List.take_of_length_le (Nat.le_of_eq h),
    blocks_of_lt (by rwa [List.length_drop, h, Nat.sub_self])]

/-- How many zeros take a message and its mark to a length with some remainder. -/
def zeros (n target len : Nat) : Nat := (target + n - (len + 1) % n) % n

theorem zeros_isLeast (ht : target < n) (len : Nat) :
    IsLeast {z | (len + 1 + z) % n = target} (zeros n target len) := by
  have hlt : (len + 1) % n < n := Nat.mod_lt _ (Nat.zero_lt_of_lt ht)
  have hsum : (len + 1) % n + (target + n - (len + 1) % n) = target + n := by omega
  constructor
  · have hmod : (len + 1 + zeros n target len) % n = (target + n) % n := by
      rw [← hsum, zeros, Nat.add_mod_mod, Nat.mod_add_mod]
    rw [Set.mem_ofPred_eq, hmod, Nat.add_mod_right, Nat.mod_eq_of_lt ht]
  · intro z hz
    have hcong : (len + 1) % n + (target + n - (len + 1) % n) ≡ (len + 1) % n + z [MOD n] := by
      rw [hsum, Nat.ModEq, Nat.add_mod_right, Nat.mod_eq_of_lt ht, Nat.mod_add_mod, hz]
    have hmod : (target + n - (len + 1) % n) % n = z % n := Nat.ModEq.add_left_cancel' _ hcong
    rw [zeros, hmod]
    exact Nat.mod_le z n

theorem zeros_add (n target k len : Nat) : zeros n target (n * k + len) = zeros n target len := by
  rw [zeros, zeros, Nat.add_assoc, Nat.mul_add_mod]

/-- A message with a mark, zeros and a field for its length after it. -/
def padded (n target : Nat) (mark zero : α) (lengthField message : List α) : List α :=
  message ++ mark :: (List.replicate (zeros n target message.length) zero ++ lengthField)

/-- The whole blocks of a message are those of the padded one, up to its last. -/
theorem blocks_padded (hn : 0 < n) (target : Nat) (mark zero : α) (lengthField : List α) (k : Nat)
    (h : xs.length = n * k) (ys : List α) :
    blocks n (padded n target mark zero lengthField (xs ++ ys)) =
      blocks n xs ++ blocks n (padded n target mark zero lengthField ys) := by
  rw [padded, List.append_assoc, List.length_append, h, zeros_add]
  exact blocks_append _ hn k h

end MerkleDamgard
