import PicoConduit.Checked

namespace Slots
open Checked
set_option autoImplicit true

/-- A slot of a buffer that is cut into slots of fixed sizes. -/
abbrev Slot (α : Type u) (n : Nat) := { xs : List α // xs.length = n }

def blank (n : Nat) (fill : α) : Slot α n := ⟨List.replicate n fill, List.length_replicate⟩

/-- Elements at the front of a slot that is filled up behind them. -/
def filled (n : Nat) (fill : α) (xs : List α) (h : xs.length ≤ n) : Slot α n :=
  ⟨xs ++ List.replicate (n - xs.length) fill, by
    rw [List.length_append, List.length_replicate, Nat.add_sub_of_le h]⟩

/-- Elements written over the front of a slot. -/
def overwritten (x : Slot α n) (ys : List α) (h : ys.length ≤ n) : Slot α n :=
  ⟨ys ++ x.val.drop ys.length, by
    rw [List.length_append, List.length_drop, x.2, Nat.add_sub_of_le h]⟩

theorem overwritten_blank (fill : α) (ys : List α) (h : ys.length ≤ n) :
    overwritten (blank n fill) ys h = filled n fill ys h := by
  apply Subtype.ext
  simp only [overwritten, filled, blank, List.drop_replicate]

theorem overwritten_full (x : Slot α n) (ys : List α) (h : ys.length = n) :
    overwritten x ys (Nat.le_of_eq h) = ⟨ys, h⟩ := by
  apply Subtype.ext
  simp only [overwritten]
  rw [List.drop_of_length_le (Nat.le_of_eq (x.2.trans h.symm)), List.append_nil]

/-- What is left of elements that were being written when the writing stopped after the first
few of them. -/
def torn (fill : α) (k : Nat) (xs : List α) : List α :=
  xs.take k ++ List.replicate (xs.length - k) fill

@[simp] theorem length_torn (fill : α) (k : Nat) (xs : List α) :
    (torn fill k xs).length = xs.length := by
  rw [torn, List.length_append, List.length_take, List.length_replicate]
  omega

def tornSlot (fill : α) (k : Nat) (x : Slot α n) : Slot α n :=
  ⟨torn fill k x.val, by rw [length_torn, x.2]⟩

theorem torn_of_le (fill : α) {xs : List α} (h : xs.length ≤ k) : torn fill k xs = xs := by
  rw [torn, List.take_of_length_le h, Nat.sub_eq_zero_of_le h, List.replicate_zero,
    List.append_nil]

theorem torn_zero (fill : α) (xs : List α) :
    torn fill 0 xs = List.replicate xs.length fill := rfl

theorem torn_append (fill : α) (k : Nat) (xs ys : List α) :
    torn fill k (xs ++ ys) = torn fill k xs ++ torn fill (k - xs.length) ys := by
  rcases Nat.le_total k xs.length with hk | hk
  · rw [Nat.sub_eq_zero_of_le hk, torn_zero, torn, torn, List.take_append_of_le_length hk,
      List.length_append, List.append_assoc, ← List.replicate_add]
    congr 3
    omega
  · rw [torn_of_le fill hk, torn, torn, List.take_append, List.take_of_length_le hk,
      List.length_append, List.append_assoc]
    congr 3
    omega

theorem mem_torn {xs : List α} (h : k < xs.length) (fill : α) : fill ∈ torn fill k xs :=
  List.mem_append_right _ (List.mem_replicate.2 ⟨by omega, rfl⟩)

/-- Tear slots that are written one after the other. -/
def tornSlots (fill : α) : Nat → List (List α) → List (List α)
  | _, [] => []
  | k, x :: xs => torn fill k x :: tornSlots fill (k - x.length) xs

theorem torn_flatten (fill : α) (k : Nat) (xss : List (List α)) :
    torn fill k xss.flatten = (tornSlots fill k xss).flatten := by
  induction xss generalizing k with
  | nil => exact torn_of_le fill (Nat.zero_le k)
  | cons x xss ih => rw [List.flatten_cons, torn_append, ih, tornSlots, List.flatten_cons]

/-- The front of what was torn is what it was, or has something of the filling. -/
theorem take_torn {xs : List α} (fill : α) (k : Nat) (hn : n ≤ xs.length) :
    (torn fill k xs).take n = torn fill k (xs.take n) := by
  have h := torn_append fill k (xs.take n) (xs.drop n)
  rw [List.take_append_drop] at h
  rw [h, List.take_left' (by rw [length_torn, List.length_take_of_le hn])]

theorem torn_singleton (fill : α) (k : Nat) (b : α) :
    torn fill k [b] = [if k = 0 then fill else b] := by
  cases k with
  | zero => rfl
  | succ k => rw [torn_of_le fill (Nat.succ_le_succ (Nat.zero_le k)), if_neg (Nat.succ_ne_zero k)]

theorem take_drop_append (xs : List α) (h : b = a + n) :
    (xs.drop a).take n ++ xs.drop b = xs.drop a := by
  rw [h, ← List.drop_drop, List.take_append_drop]

section Access
variable (pre post : List (List α)) (x : List α)

theorem flatten_split : (pre ++ x :: post).flatten = pre.flatten ++ (x ++ post.flatten) := by
  rw [List.flatten_append, List.flatten_cons]

theorem load_slot {b : α} (h : x[i]? = some b) (ho : o = pre.flatten.length + i) :
    load (pre ++ x :: post).flatten o = .ok b := by
  subst ho
  obtain ⟨hi, -⟩ := List.getElem?_eq_some_iff.1 h
  rw [load, flatten_split, List.getElem?_append_right (Nat.le_add_right _ i),
    Nat.add_sub_cancel_left, List.getElem?_append_left hi, h]

theorem slice_slot (hn : n ≤ x.length) (ho : o = pre.flatten.length) :
    slice (pre ++ x :: post).flatten o (o + n) = .ok (x.take n) := by
  subst ho
  have hlen : pre.flatten.length + n ≤ (pre ++ x :: post).flatten.length := by
    rw [flatten_split, List.length_append, List.length_append]
    omega
  rw [slice_of_le (Nat.le_add_right _ n) hlen, flatten_split, List.drop_left,
    Nat.add_sub_cancel_left, List.take_append_of_le_length hn]

theorem store_slot (b c : α) (ho : o = pre.flatten.length) :
    store (pre ++ [b] :: post).flatten o c = .ok (pre ++ [c] :: post).flatten := by
  rw [flatten_split, flatten_split, List.singleton_append, store_append ho, List.append_assoc]

theorem copy_slot (x : Slot α n) {ys : List α} (h : ys.length ≤ n) (ho : o = pre.flatten.length)
    (hb : b = o + ys.length) : copy (pre ++ x.val :: post).flatten o b ys =
      .ok (pre ++ (overwritten x ys h).val :: post).flatten := by
  subst ho hb
  have hx : ys.length ≤ x.val.length := by
    rw [x.2]
    exact h
  have hlen : pre.flatten.length + ys.length ≤ (pre ++ x.val :: post).flatten.length := by
    rw [flatten_split, List.length_append, List.length_append]
    omega
  rw [copy_of_le (Nat.le_add_right _ _) hlen (Nat.add_sub_cancel_left _ _).symm, flatten_split,
    flatten_split, List.take_left, ← List.drop_drop, List.drop_left,
    List.drop_append_of_le_length hx, overwritten, List.append_assoc]

end Access

end Slots
