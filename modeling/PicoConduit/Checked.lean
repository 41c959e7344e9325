import Mathlib.Data.List.Basic

namespace Checked
set_option autoImplicit true

/-- What stops a program for good: an access outside its buffer, the unwrapping of a failure,
or a match arm that was declared impossible. -/
inductive Panic
  | index
  | slice
  | unwrap
  | unreachable
  deriving DecidableEq, Repr

abbrev Exec (α : Type u) := Except Panic α

@[simp] theorem ok_bind (x : α) (f : α → Exec β) : (Except.ok x >>= f) = f x := rfl

@[simp] theorem error_bind (p : Panic) (f : α → Exec β) :
    ((Except.error p : Exec α) >>= f) = .error p := rfl

@[simp] theorem pure_eq (x : α) : (pure x : Exec α) = .ok x := rfl

theorem bind_eq_ok {m : Exec α} {f : α → Exec β} :
    (m >>= f) = .ok y ↔ ∃ x, m = .ok x ∧ f x = .ok y := by
  cases m with
  | error p => simp
  | ok x => simp

/-- Read the element at an index that must lie in the buffer. -/
def load (xs : List α) (i : Nat) : Exec α :=
  match xs[i]? with
  | some x => .ok x
  | none => .error .index

/-- Overwrite the element at an index that must lie in the buffer. -/
def store (xs : List α) (i : Nat) (x : α) : Exec (List α) :=
  if i < xs.length then .ok (xs.set i x) else .error .index

/-- The elements from one position up to another, both of which must lie in the buffer. -/
def slice (xs : List α) (a b : Nat) : Exec (List α) :=
  if a ≤ b ∧ b ≤ xs.length then .ok ((xs.drop a).take (b - a)) else .error .slice

/-- Overwrite the elements from one position up to another with exactly as many. -/
def copy (xs : List α) (a b : Nat) (ys : List α) : Exec (List α) :=
  if a ≤ b ∧ b ≤ xs.length ∧ ys.length = b - a then .ok (xs.take a ++ (ys ++ xs.drop b))
  else .error .slice

theorem load_of_lt {xs : List α} (h : i < xs.length) : load xs i = .ok xs[i] := by
  simp only [load, List.getElem?_eq_getElem h]

theorem store_of_lt {xs : List α} (h : i < xs.length) (x : α) :
    store xs i x = .ok (xs.set i x) := if_pos h

theorem store_of_le {xs : List α} (h : xs.length ≤ i) (x : α) :
    store xs i x = .error .index := if_neg (Nat.not_lt.2 h)

theorem store_append {pre post : List α} {b x : α} (ho : o = pre.length) :
    store (pre ++ b :: post) o x = .ok (pre ++ [x] ++ post) := by
  subst ho
  rw [store_of_lt (by simp)]
  simp

theorem load_shift (pre xs : List α) (k : Nat) : load (pre ++ xs) (pre.length + k) = load xs k := by
  rw [load, load, List.getElem?_append_right (Nat.le_add_right _ _), Nat.add_sub_cancel_left]

theorem store_replicate {pre : List α} {z : α} (ho : o = pre.length) (k : Nat) (x : α) :
    store (pre ++ List.replicate (k + 1) z) o x = .ok (pre ++ [x] ++ List.replicate k z) :=
  store_append ho

theorem store_eq_ok {xs : List α} (h : store xs i x = .ok ys) :
    i < xs.length ∧ ys.length = xs.length := by
  simp only [store] at h
  split at h
  · cases h
    exact ⟨‹_›, List.length_set⟩
  · cases h

theorem slice_of_le {xs : List α} (hab : a ≤ b) (hb : b ≤ xs.length) :
    slice xs a b = .ok ((xs.drop a).take (b - a)) := if_pos ⟨hab, hb⟩

theorem slice_of_lt {xs : List α} (h : xs.length < b) : slice xs a b = .error .slice :=
  if_neg fun hc => Nat.not_lt.2 hc.2 h

theorem slice_eq_ok {xs : List α} (h : slice xs a b = .ok ys) : a ≤ b ∧ b ≤ xs.length := by
  simp only [slice] at h
  split at h
  · assumption
  · cases h

theorem length_slice {xs ys : List α} (h : slice xs a b = .ok ys) : ys.length = b - a := by
  obtain ⟨hab, hb⟩ := slice_eq_ok h
  rw [slice_of_le hab hb] at h
  cases h
  rw [List.length_take, List.length_drop]
  omega

theorem slice_append (xs ys zs : List α) :
    slice (xs ++ (ys ++ zs)) xs.length (xs.length + ys.length) = .ok ys := by
  rw [slice_of_le (Nat.le_add_right _ _) (by simp), List.drop_left, Nat.add_sub_cancel_left,
    List.take_left]

theorem slice_zero {xs : List α} (h : n ≤ xs.length) : slice xs 0 n = .ok (xs.take n) := by
  rw [slice_of_le (Nat.zero_le n) h, List.drop_zero, Nat.sub_zero]

theorem copy_of_le {xs ys : List α} (hab : a ≤ b) (hb : b ≤ xs.length) (hy : ys.length = b - a) :
    copy xs a b ys = .ok (xs.take a ++ (ys ++ xs.drop b)) := if_pos ⟨hab, hb, hy⟩

theorem copy_append (pre post ys : List α) (h : ys.length ≤ post.length) (ha : a = pre.length)
    (hb : b = a + ys.length) :
    copy (pre ++ post) a b ys = .ok (pre ++ (ys ++ post.drop ys.length)) := by
  subst ha hb
  have hlen : pre.length + ys.length ≤ (pre ++ post).length := by
    rw [List.length_append]
    omega
  rw [copy_of_le (Nat.le_add_right _ _) hlen (Nat.add_sub_cancel_left _ _).symm, List.take_left,
    ← List.drop_drop, List.drop_left]

/-- Elements go onto the end of what has been written, behind as many that keep the filling. -/
theorem copy_replicate {pre ys : List α} {z : α} (gap k : Nat) (ha : a = pre.length + gap)
    (hb : b = a + ys.length) (hn : n = gap + (ys.length + k)) :
    copy (pre ++ List.replicate n z) a b ys =
      .ok (pre ++ List.replicate gap z ++ ys ++ List.replicate k z) := by
  have hroom : ys.length ≤ (List.replicate (ys.length + k) z).length := by
    rw [List.length_replicate]
    omega
  have hstart : a = (pre ++ List.replicate gap z).length := by
    rw [List.length_append, List.length_replicate]
    exact ha
  have hcopy := copy_append _ _ ys hroom hstart hb
  rw [List.append_assoc, List.replicate_append_replicate, List.drop_replicate,
    Nat.add_sub_cancel_left, ← List.append_assoc] at hcopy
  rw [hn, hcopy]

/-- Read from an array of fixed size. -/
def getArray (v : Vector α n) (i : Nat) : Exec α :=
  if h : i < n then .ok v[i] else .error .index

/-- Overwrite in an array of fixed size. -/
def setArray (v : Vector α n) (i : Nat) (x : α) : Exec (Vector α n) :=
  if h : i < n then .ok (v.set i x) else .error .index

theorem getArray_fin (v : Vector α n) (i : Fin n) : getArray v i = .ok v[i] := dif_pos i.2

@[simp] theorem get_set_self (v : Vector α n) (i : Fin n) (x : α) : (v.set i x).get i = x :=
  Vector.getElem_set_self i.isLt

theorem setArray_fin (v : Vector α n) (i : Fin n) (x : α) :
    setArray v i x = .ok (v.set i x) := dif_pos i.2

/-- The array that a slice of exactly its length is copied to. -/
def copyArray (xs : List α) (n : Nat) : Exec (Vector α n) :=
  if h : xs.length = n then .ok ⟨xs.toArray, h⟩ else .error .slice

theorem copyArray_toList (v : Vector α n) : copyArray v.toList n = .ok v := dif_pos v.length_toList

/-- A computation that does not panic, with a condition on what it gives. -/
def Yields (m : Exec α) (P : α → Prop) : Prop := ∃ x, m = .ok x ∧ P x

theorem Yields.ok {x : α} {P : α → Prop} (h : P x) : Yields (.ok x) P := ⟨x, rfl, h⟩

theorem Yields.mono {m : Exec α} {P Q : α → Prop} (h : Yields m P) (hPQ : ∀ x, P x → Q x) :
    Yields m Q := by
  obtain ⟨x, hx, hp⟩ := h
  exact ⟨x, hx, hPQ x hp⟩

/-- The value of a computation that does not panic. -/
def Yields.get {P : α → Prop} : (m : Exec α) → Yields m P → α
  | .ok x, _ => x
  | .error _, h => False.elim (by obtain ⟨x, hx, -⟩ := h; cases hx)

theorem Yields.get_eq {m : Exec α} {P : α → Prop} (h : Yields m P) (hm : m = .ok x) :
    h.get m = x := by
  subst hm
  rfl

theorem Yields.get_spec {m : Exec α} {P : α → Prop} (h : Yields m P) : P (h.get m) := by
  obtain ⟨x, rfl, hp⟩ := h
  exact hp

theorem Yields.bind {m : Exec α} {f : α → Exec β} {P : α → Prop} {Q : β → Prop}
    (hm : Yields m P) (hf : ∀ x, P x → Yields (f x) Q) : Yields (m >>= f) Q := by
  obtain ⟨x, rfl, hx⟩ := hm
  exact hf x hx

theorem Yields.ite {c : Prop} [Decidable c] {m m' : Exec α} {P : α → Prop}
    (h : c → Yields m P) (h' : ¬ c → Yields m' P) : Yields (if c then m else m') P := by
  split
  · exact h ‹_›
  · exact h' ‹_›

theorem Yields.foldlM {f : σ → α → Exec σ} {P : σ → Prop} {xs : List α}
    (hf : ∀ s x, P s → x ∈ xs → Yields (f s x) P) (hs : P s) : Yields (xs.foldlM f s) P := by
  induction xs generalizing s with
  | nil => exact .ok hs
  | cons x xs ih =>
    rw [List.foldlM_cons]
    exact (hf s x hs List.mem_cons_self).bind fun s' hs' =>
      ih (fun t y ht hy => hf t y ht (List.mem_cons_of_mem x hy)) hs'

/-- A loop over a range keeps an invariant that its counter goes into. -/
theorem Yields.range {f : σ → Nat → Exec σ} {P : Nat → σ → Prop} (n : Nat)
    (hf : ∀ i s, a ≤ i → i < a + n → P i s → Yields (f s i) (P (i + 1))) (hs : P a s) :
    Yields ((List.range' a n).foldlM f s) (P (a + n)) := by
  induction n with
  | zero => exact .ok hs
  | succ n ih =>
    rw [List.range'_concat, List.foldlM_append]
    refine (ih fun i s ha hi => hf i s ha (by omega)).bind fun s hp => ?_
    rw [List.foldlM_cons, Nat.one_mul]
    exact (hf (a + n) s (by omega) (by omega) hp).bind fun s' hp' => .ok hp'

theorem load_yields {xs : List α} (h : i < xs.length) : Yields (load xs i) fun _ => True :=
  ⟨_, load_of_lt h, trivial⟩

theorem store_yields {xs : List α} (h : i < xs.length) (x : α) :
    Yields (store xs i x) fun ys => ys.length = xs.length :=
  ⟨_, store_of_lt h x, List.length_set⟩

theorem slice_yields {xs : List α} (hab : a ≤ b) (hb : b ≤ xs.length) :
    Yields (slice xs a b) fun ys => ys.length = b - a := by
  have hslice := slice_of_le hab hb
  exact ⟨_, hslice, length_slice hslice⟩

theorem copy_yields {xs ys : List α} (hab : a ≤ b) (hb : b ≤ xs.length)
    (hy : ys.length = b - a) : Yields (copy xs a b ys) fun zs => zs.length = xs.length := by
  refine ⟨_, copy_of_le hab hb hy, ?_⟩
  simp only [List.length_append, List.length_take, List.length_drop]
  omega

theorem getArray_yields {v : Vector α n} (h : i < n) : Yields (getArray v i) fun _ => True :=
  ⟨_, dif_pos h, trivial⟩

theorem setArray_yields {v : Vector α n} (h : i < n) (x : α) :
    Yields (setArray v i x) fun _ => True :=
  ⟨_, dif_pos h, trivial⟩

end Checked
