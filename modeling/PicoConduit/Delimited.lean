import Mathlib.Data.List.DropRight

namespace Delimited
set_option autoImplicit true

theorem exists_last {d : α} (h : d ∈ xs) : ∃ as bs, xs = as ++ d :: bs ∧ d ∉ bs := by
  obtain ⟨as, bs, he, hn⟩ := List.eq_append_cons_of_mem (List.mem_reverse.2 h)
  refine ⟨bs.reverse, as.reverse, ?_, fun hm => hn (List.mem_reverse.1 hm)⟩
  rw [← List.reverse_reverse xs, he, List.reverse_append, List.reverse_cons, List.append_assoc]
  rfl

theorem prefix_append_cases {xs ys zs : List α} (h : xs <+: ys ++ zs) :
    xs <+: ys ∨ ∃ z, z ≠ [] ∧ xs = ys ++ z ∧ z <+: zs := by
  rcases Nat.le_total xs.length ys.length with hle | hle
  · exact .inl (List.prefix_of_prefix_length_le h (List.prefix_append ys zs) hle)
  · obtain ⟨z, rfl⟩ := List.prefix_of_prefix_length_le (List.prefix_append ys zs) h hle
    by_cases hz : z = []
    · exact .inl ⟨[], by rw [hz, List.append_nil, List.append_nil]⟩
    · exact .inr ⟨z, hz, rfl, (List.prefix_append_right_inj ys).1 h⟩

/-- A beginning of a list is empty or begins as the list does. -/
theorem cons_prefix_cases {c : α} {xs ys : List α} (h : xs <+: c :: ys) :
    xs = [] ∨ ∃ z, xs = c :: z ∧ z <+: ys := by
  rcases List.prefix_cons_iff.1 h with rfl | ⟨z, rfl, hz⟩
  · exact .inl rfl
  · exact .inr ⟨z, rfl, hz⟩

theorem prefix_of_prefix_append {xs ys zs : List α} (h : xs <+: ys ++ zs)
    (hz : ∀ z ∈ zs.head?, z ∉ xs) : xs <+: ys := by
  rcases prefix_append_cases h with h | ⟨tail, hne, rfl, rest, rfl⟩
  · exact h
  · obtain ⟨z, tail, rfl⟩ := List.exists_cons_of_ne_nil hne
    exact absurd (List.mem_append_right ys List.mem_cons_self) (hz z rfl)

variable {α : Type u} [DecidableEq α] {d : α}

/-- The segments of a stream that its delimiters close, in order. -/
def closed (d : α) (xs : List α) : List (List α) := (xs.splitOn d).dropLast

/-- What follows the last delimiter of a stream. -/
def trailing (d : α) (xs : List α) : List α := xs.rtakeWhile (· != d)

theorem trailing_of_not_mem (h : d ∉ xs) : trailing d xs = xs := by
  rw [trailing, List.rtakeWhile_eq_self_iff]
  intro x hx
  simpa only [bne_iff_ne] using fun he : x = d => h (he ▸ hx)

@[simp] theorem trailing_nil : trailing d [] = [] := List.rtakeWhile_nil _

theorem trailing_concat_self (xs : List α) : trailing d (xs ++ [d]) = [] :=
  List.rtakeWhile_concat_neg _ _ d (by simp)

theorem trailing_concat (h : x ≠ d) (xs : List α) :
    trailing d (xs ++ [x]) = trailing d xs ++ [x] :=
  List.rtakeWhile_concat_pos _ _ x (by simpa using h)

theorem closed_of_not_mem (h : d ∉ xs) : closed d xs = [] := by
  rw [closed, List.splitOn_eq_singleton h, List.dropLast_singleton]

theorem closed_append_cons (as : List α) (h : d ∉ bs) :
    closed d (as ++ d :: bs) = as.splitOn d := by
  rw [closed, List.splitOn_append_cons_self, List.splitOn_eq_singleton h, List.dropLast_concat]

theorem trailing_append_cons (as : List α) (h : d ∉ bs) : trailing d (as ++ d :: bs) = bs := by
  induction bs using List.reverseRecOn with
  | nil => exact trailing_concat_self as
  | append_singleton bs x ih =>
    rw [List.mem_append, List.mem_singleton, not_or] at h
    rw [← List.cons_append, ← List.append_assoc, trailing_concat (Ne.symm h.2), ih h.1]

/-- Splitting a stream gives its closed segments and what follows them. -/
theorem splitOn_eq (d : α) (xs : List α) : xs.splitOn d = closed d xs ++ [trailing d xs] := by
  by_cases h : d ∈ xs
  · obtain ⟨as, bs, rfl, hn⟩ := exists_last h
    rw [closed_append_cons as hn, trailing_append_cons as hn, List.splitOn_append_cons_self,
      List.splitOn_eq_singleton hn]
  · rw [closed_of_not_mem h, trailing_of_not_mem h, List.splitOn_eq_singleton h, List.nil_append]

theorem not_mem_of_mem_splitOn {xs ys : List α} (h : ys ∈ xs.splitOn d) : d ∉ ys := by
  induction xs generalizing ys with
  | nil =>
    obtain rfl := List.mem_singleton.1 h
    exact List.not_mem_nil
  | cons x xs ih =>
    rw [List.splitOn_cons_eq_if_modifyHead] at h
    split at h
    · rcases List.mem_cons.1 h with rfl | h
      · exact List.not_mem_nil
      · exact ih h
    · rename_i hx
      obtain ⟨zs, zss, he⟩ := List.exists_cons_of_ne_nil (List.splitOn_ne_nil d xs)
      rw [he] at ih h
      rcases List.mem_cons.1 h with rfl | h
      · rw [List.mem_cons, not_or]
        exact ⟨fun hd => hx (by simp [hd]), ih List.mem_cons_self⟩
      · exact ih (List.mem_cons_of_mem zs h)

theorem length_le_of_mem_splitOn {xs ys : List α} (h : ys ∈ xs.splitOn d) :
    ys.length ≤ xs.length := by
  induction xs generalizing ys with
  | nil =>
    obtain rfl := List.mem_singleton.1 h
    exact Nat.le_refl _
  | cons x xs ih =>
    rw [List.splitOn_cons_eq_if_modifyHead] at h
    split at h
    · rcases List.mem_cons.1 h with rfl | h
      · exact Nat.zero_le _
      · exact Nat.le_succ_of_le (ih h)
    · obtain ⟨zs, zss, he⟩ := List.exists_cons_of_ne_nil (List.splitOn_ne_nil d xs)
      rw [he] at ih h
      rcases List.mem_cons.1 h with rfl | h
      · exact Nat.succ_le_succ (ih List.mem_cons_self)
      · exact Nat.le_succ_of_le (ih (List.mem_cons_of_mem zs h))

theorem infix_of_mem_splitOn {xs ys : List α} (h : ys ∈ xs.splitOn d) : ys <:+: xs := by
  by_cases hd : d ∈ xs
  · obtain ⟨as, bs, rfl, hn⟩ := List.eq_append_cons_of_mem hd
    rw [List.splitOn_append_cons_self_of_not_mem hn] at h
    rcases List.mem_cons.1 h with rfl | h
    · exact (List.prefix_append _ _).isInfix
    · exact (infix_of_mem_splitOn h).trans
        ((List.suffix_cons d bs).trans (List.suffix_append as _)).isInfix
  · rw [List.splitOn_eq_singleton hd, List.mem_singleton] at h
    subst h
    exact List.infix_rfl
termination_by xs.length

theorem splitOn_three {xs ys zs : List α} (hx : d ∉ xs) (hy : d ∉ ys) (hz : d ∉ zs) :
    ((xs ++ d :: ys) ++ d :: zs).splitOn d = [xs, ys, zs] := by
  rw [List.append_assoc, List.cons_append, List.splitOn_append_cons_self_of_not_mem hx,
    List.splitOn_append_cons_self_of_not_mem hy, List.splitOn_eq_singleton hz]

/-- Each segment of a stream's beginning begins a segment of the stream. -/
theorem prefix_of_mem_splitOn {xs as : List α} (ys : List α) (h : as ∈ xs.splitOn d) :
    ∃ bs ∈ (xs ++ ys).splitOn d, as <+: bs := by
  by_cases hd : d ∈ xs
  · obtain ⟨cs, ds, rfl, hn⟩ := List.eq_append_cons_of_mem hd
    rw [List.append_assoc, List.cons_append, List.splitOn_append_cons_self_of_not_mem hn]
    rw [List.splitOn_append_cons_self_of_not_mem hn] at h
    rcases List.mem_cons.1 h with rfl | h
    · exact ⟨as, List.mem_cons_self, List.prefix_rfl⟩
    · obtain ⟨bs, hm, hp⟩ := prefix_of_mem_splitOn ys h
      exact ⟨bs, List.mem_cons_of_mem cs hm, hp⟩
  · rw [List.splitOn_eq_singleton hd, List.mem_singleton] at h
    subst h
    by_cases hy : d ∈ ys
    · obtain ⟨cs, ds, rfl, hn⟩ := List.eq_append_cons_of_mem hy
      have hn' : d ∉ as ++ cs := by
        rw [List.mem_append, not_or]
        exact ⟨hd, hn⟩
      rw [← List.append_assoc, List.splitOn_append_cons_self_of_not_mem hn']
      exact ⟨as ++ cs, List.mem_cons_self, List.prefix_append as cs⟩
    · have hn : d ∉ as ++ ys := by
        rw [List.mem_append, not_or]
        exact ⟨hd, hy⟩
      rw [List.splitOn_eq_singleton hn]
      exact ⟨as ++ ys, List.mem_singleton_self _, List.prefix_append as ys⟩
termination_by xs.length

theorem closed_concat_self (xs : List α) :
    closed d (xs ++ [d]) = closed d xs ++ [trailing d xs] := by
  rw [closed_append_cons xs List.not_mem_nil, splitOn_eq]

theorem closed_concat (h : x ≠ d) (xs : List α) : closed d (xs ++ [x]) = closed d xs := by
  by_cases hd : d ∈ xs
  · obtain ⟨as, bs, rfl, hn⟩ := exists_last hd
    have hn' : d ∉ bs ++ [x] := by
      rw [List.mem_append, List.mem_singleton, not_or]
      exact ⟨hn, Ne.symm h⟩
    rw [List.append_assoc, List.cons_append, closed_append_cons as hn', closed_append_cons as hn]
  · have hd' : d ∉ xs ++ [x] := by
      rw [List.mem_append, List.mem_singleton, not_or]
      exact ⟨hd, Ne.symm h⟩
    rw [closed_of_not_mem hd, closed_of_not_mem hd']

/-- Lines without delimiters are found again. -/
theorem closed_lines {lines : List (List α)} (h : ∀ line ∈ lines, d ∉ line) :
    closed d (lines.map (· ++ [d])).flatten = lines := by
  induction lines with
  | nil => rfl
  | cons line lines ih =>
    rw [List.forall_mem_cons] at h
    have hrest := ih h.2
    rw [closed] at hrest
    rw [List.map_cons, List.flatten_cons, List.append_assoc, List.singleton_append, closed,
      List.splitOn_append_cons_self_of_not_mem h.1, List.dropLast_cons_of_ne_nil
        (List.splitOn_ne_nil _ _), hrest]

end Delimited
