import Mathlib.Data.List.Basic
import Mathlib.Data.List.Induction

namespace Heapless
set_option autoImplicit true

/-- A vector that never holds more than `cap` elements. -/
structure HVec (α : Type u) (cap : Nat) where
  toList : List α
  bounded : toList.length ≤ cap
  deriving DecidableEq

namespace HVec

def empty : HVec α cap := ⟨[], Nat.zero_le cap⟩

def length (v : HVec α cap) : Nat := v.toList.length

/-- Append an element, or fail and leave the vector to the caller when it is full. -/
def push (v : HVec α cap) (x : α) : Option (HVec α cap) :=
  if h : v.toList.length < cap then
    some ⟨v.toList ++ [x], by rw [List.length_append]; exact h⟩
  else none

/-- Append all elements of a slice, or none of them when they do not fit. -/
def extendFromSlice (v : HVec α cap) (xs : List α) : Option (HVec α cap) :=
  if h : v.toList.length + xs.length ≤ cap then
    some ⟨v.toList ++ xs, by rw [List.length_append]; exact h⟩
  else none

def retain (v : HVec α cap) (p : α → Bool) : HVec α cap :=
  ⟨v.toList.filter p, Nat.le_trans (List.length_filter_le p v.toList) v.bounded⟩

@[simp] theorem empty_toList : (empty : HVec α cap).toList = [] := rfl

theorem length_eq (v : HVec α cap) : v.length = v.toList.length := rfl

@[simp] theorem retain_toList (v : HVec α cap) (p : α → Bool) :
    (v.retain p).toList = v.toList.filter p := rfl

theorem ext_toList {v w : HVec α cap} (h : v.toList = w.toList) : v = w := by
  cases v
  cases w
  cases h
  rfl

theorem push_of_lt {v : HVec α cap} (h : v.toList.length < cap) (x : α) :
    ∃ w, v.push x = some w ∧ w.toList = v.toList ++ [x] :=
  ⟨_, dif_pos h, rfl⟩

theorem push_of_le {v : HVec α cap} (h : cap ≤ v.toList.length) (x : α) : v.push x = none :=
  dif_neg (Nat.not_lt.2 h)

theorem push_eq_some {v : HVec α cap} (h : v.push x = some w) : w.toList = v.toList ++ [x] := by
  simp only [push] at h
  split at h
  · cases h
    rfl
  · cases h

theorem length_lt_of_push {v : HVec α cap} (h : v.push x = some w) : v.length < cap := by
  simp only [push] at h
  split at h
  · rename_i hl
    exact hl
  · cases h

theorem extend_empty {xs : List α} (h : xs.length ≤ cap) :
    ∃ w, (empty : HVec α cap).extendFromSlice xs = some w ∧ w.toList = xs := by
  have hb : (empty : HVec α cap).toList.length + xs.length ≤ cap := by
    simpa only [empty_toList, List.length_nil, Nat.zero_add] using h
  exact ⟨_, dif_pos hb, rfl⟩

theorem extend_empty_of_lt {xs : List α} (h : cap < xs.length) :
    (empty : HVec α cap).extendFromSlice xs = none := by
  apply dif_neg
  rw [empty_toList, List.length_nil]
  omega

theorem retain_length {v : HVec α cap} :
    (v.retain p).length = v.length ↔ ∀ x ∈ v.toList, p x :=
  List.length_filter_eq_length_iff

theorem retain_eq_self {v : HVec α cap} (h : ∀ x ∈ v.toList, p x) : v.retain p = v :=
  ext_toList (List.filter_eq_self.2 h)

/-- Append an element that is not there yet, as long as there is room. -/
def pushNew [DecidableEq α] (v : HVec α cap) (x : α) : HVec α cap :=
  if v.toList.any (· = x) then v else (v.push x).getD v

theorem pushNew_of_mem [DecidableEq α] {v : HVec α cap} (h : x ∈ v.toList) : v.pushNew x = v :=
  if_pos (by simpa using h)

theorem pushNew_of_not_mem [DecidableEq α] {v : HVec α cap} (h : x ∉ v.toList) :
    v.pushNew x = (v.push x).getD v := if_neg (by simpa using h)

/-- The first different elements of a sequence are kept, in the order in which they come. -/
theorem foldl_pushNew [DecidableEq α] (xs : List α) :
    (xs.foldl pushNew (empty : HVec α cap)).toList = xs.eraseDups.take cap := by
  induction xs using List.reverseRecOn with
  | nil => simp
  | append_singleton xs x ih =>
    rw [List.foldl_append, List.foldl_cons, List.foldl_nil, List.eraseDups_append]
    generalize xs.foldl pushNew (empty : HVec α cap) = v at ih
    by_cases hx : x ∈ xs
    · have hsame : ([x].removeAll xs).eraseDups = [] := by simp [List.removeAll, hx]
      rw [hsame, List.append_nil, ← ih]
      by_cases hv : x ∈ v.toList
      · rw [pushNew_of_mem hv]
      · have hfull : cap ≤ v.toList.length := by
          by_contra hlt
          rw [ih, List.length_take] at hlt
          refine hv ?_
          rw [ih, List.take_of_length_le (by omega)]
          exact List.mem_eraseDups.2 hx
        rw [pushNew_of_not_mem hv, push_of_le hfull, Option.getD_none]
    · have hnew : ([x].removeAll xs).eraseDups = [x] := by
        simp [List.removeAll, hx, List.eraseDups_cons]
      have hv : x ∉ v.toList := by
        rw [ih]
        exact fun hmem => hx (List.mem_eraseDups.1 (List.mem_of_mem_take hmem))
      rw [hnew, pushNew_of_not_mem hv]
      rcases Nat.lt_or_ge v.toList.length cap with hlt | hge
      · obtain ⟨w, hw, hlist⟩ := push_of_lt hlt x
        rw [hw, Option.getD_some, hlist, ih]
        rw [ih, List.length_take] at hlt
        rw [List.take_of_length_le (by omega), List.take_of_length_le]
        rw [List.length_append, List.length_singleton]
        omega
      · rw [push_of_le hge, Option.getD_none, ih]
        rw [ih, List.length_take] at hge
        rw [List.take_append_of_le_length (by omega)]

end HVec

/-- A string of at most `cap` bytes in UTF-8. -/
structure HString (cap : Nat) where
  toString : String
  bounded : toString.utf8ByteSize ≤ cap
  deriving DecidableEq

namespace HString

def empty : HString cap := ⟨"", Nat.zero_le cap⟩

/-- Append a whole string, or fail and leave the buffer to the caller when it does not fit. -/
def pushStr (h : HString cap) (s : String) : Option (HString cap) :=
  if hs : (h.toString ++ s).utf8ByteSize ≤ cap then some ⟨h.toString ++ s, hs⟩ else none

theorem ext_toString {a b : HString cap} (h : a.toString = b.toString) : a = b := by
  cases a
  cases b
  cases h
  rfl

theorem pushStr_empty (h : s.utf8ByteSize ≤ cap) :
    (empty : HString cap).pushStr s = some ⟨s, h⟩ := by
  simp only [pushStr, empty, String.empty_append, dif_pos h]

theorem pushStr_empty_of_lt (h : cap < s.utf8ByteSize) :
    (empty : HString cap).pushStr s = none := by
  simp only [pushStr, empty, String.empty_append, dif_neg (Nat.not_le.2 h)]

theorem pushStr_empty_eq (h : (empty : HString cap).pushStr s = some c) : c.toString = s := by
  rcases Nat.lt_or_ge cap s.utf8ByteSize with hlt | hle
  · rw [pushStr_empty_of_lt hlt] at h
    cases h
  · rw [pushStr_empty hle] at h
    cases h
    rfl

/-- A text that is pushed without a look at the result is kept exactly when it fits. -/
theorem getD_pushStr_iff (s : String) :
    ((empty.pushStr s).getD .empty : HString cap).toString = s ↔ s.utf8ByteSize ≤ cap := by
  rcases Nat.lt_or_ge cap s.utf8ByteSize with hlt | hle
  · rw [pushStr_empty_of_lt hlt, Option.getD_none]
    refine iff_of_false (fun hs => ?_) (Nat.not_le.2 hlt)
    rw [← hs] at hlt
    exact Nat.not_lt_zero cap hlt
  · rw [pushStr_empty hle]
    exact iff_of_true rfl hle

end HString

end Heapless
