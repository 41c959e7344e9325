import Mathlib.Data.List.Basic
import Mathlib.Data.List.Infix
import Mathlib.Data.List.TakeWhile

namespace Html
set_option autoImplicit true

def nul : Char := Char.ofNat 0

def replacement : Char := Char.ofNat 0xFFFD

/-- The names that stand for characters in a page, with the semicolon where a name has one. -/
structure Entities where
  table : List (List Char × List Char)
  name_length : ∀ entity ∈ table, 2 ≤ entity.1.length
  name_chars : ∀ entity ∈ table, ∀ c ∈ entity.1, c.isAlphanum ∨ c = ';'
  expansion_length : ∀ entity ∈ table, entity.2.length ≤ 2

/-- The entry with the longest name that a text begins with. -/
def longestMatch (cs : List Char) :
    List (List Char × List Char) → Option (List Char × List Char)
  | [] => none
  | entity :: table =>
    match longestMatch cs table with
    | some found =>
      if entity.1.isPrefixOf cs ∧ found.1.length < entity.1.length then some entity
      else some found
    | none => if entity.1.isPrefixOf cs then some entity else none

/-- The code points that a numeric reference to a C1 control stands for. -/
def controlTable : List (Nat × Nat) :=
  [(0x80, 0x20AC), (0x82, 0x201A), (0x83, 0x0192), (0x84, 0x201E), (0x85, 0x2026), (0x86, 0x2020),
    (0x87, 0x2021), (0x88, 0x02C6), (0x89, 0x2030), (0x8A, 0x0160), (0x8B, 0x2039), (0x8C, 0x0152),
    (0x8E, 0x017D), (0x91, 0x2018), (0x92, 0x2019), (0x93, 0x201C), (0x94, 0x201D), (0x95, 0x2022),
    (0x96, 0x2013), (0x97, 0x2014), (0x98, 0x02DC), (0x99, 0x2122), (0x9A, 0x0161), (0x9B, 0x203A),
    (0x9C, 0x0153), (0x9E, 0x017E), (0x9F, 0x0178)]

def numberedChar (n : Nat) : Char :=
  if n = 0 ∨ ¬ n.isValidChar then replacement
  else Char.ofNat ((controlTable.lookup n).getD n)

def isHexDigit (c : Char) : Bool :=
  c.isDigit || 'a'.toNat ≤ c.toNat && c.toNat ≤ 'f'.toNat ||
    'A'.toNat ≤ c.toNat && c.toNat ≤ 'F'.toNat

def digitValue (c : Char) : Nat :=
  if c.isDigit then c.toNat - '0'.toNat
  else if 'a'.toNat ≤ c.toNat then c.toNat - 'a'.toNat + 10
  else c.toNat - 'A'.toNat + 10

def dropSemicolon : List Char → List Char
  | [] => []
  | c :: cs => if c = ';' then cs else c :: cs

/-- The digits of a numeric reference and what follows them. -/
def numbered (base : Nat) (isDigit : Char → Bool) (cs : List Char) :
    Option (List Char × List Char) :=
  let digits := cs.takeWhile isDigit
  if digits = [] then none
  else some ([numberedChar (digits.foldl (fun n c => base * n + digitValue c) 0)],
    dropSemicolon (cs.dropWhile isDigit))

/-- A numeric reference, after its number sign. -/
def numericReference : List Char → Option (List Char × List Char)
  | [] => none
  | c :: cs =>
    if c = 'x' ∨ c = 'X' then numbered 16 isHexDigit cs
    else numbered 10 Char.isDigit (c :: cs)

def namedReference (E : Entities) (cs : List Char) : Option (List Char × List Char) :=
  (longestMatch cs E.table).map fun entity => (entity.2, cs.drop entity.1.length)

/-- What a reference stands for and what follows it, for a text after an ampersand. -/
def reference (E : Entities) : List Char → Option (List Char × List Char)
  | [] => none
  | c :: cs => if c = '#' then numericReference cs else namedReference E (c :: cs)

/-- In the value of an attribute, a name without a semicolon that more of a word follows is no
reference. -/
def namedInValue (E : Entities) (cs : List Char) : Option (List Char × List Char) :=
  (longestMatch cs E.table).bind fun entity =>
    let rest := cs.drop entity.1.length
    if entity.1.getLast? ≠ some ';' ∧ rest.head?.any (fun c => c = '=' || c.isAlphanum) then none
    else some (entity.2, rest)

def referenceInValue (E : Entities) : List Char → Option (List Char × List Char)
  | [] => none
  | c :: cs => if c = '#' then numericReference cs else namedInValue E (c :: cs)

theorem longestMatch_some {table : List (List Char × List Char)}
    (h : longestMatch cs table = some entity) : entity ∈ table ∧ entity.1 <+: cs := by
  induction table with
  | nil => cases h
  | cons first table ih =>
    rw [longestMatch] at h
    cases hfound : longestMatch cs table with
    | some found =>
      rw [hfound] at h ih
      simp only at h
      split at h
      · rename_i hlonger
        cases h
        exact ⟨List.mem_cons_self, List.isPrefixOf_iff_prefix.1 hlonger.1⟩
      · cases h
        obtain ⟨hmem, hpre⟩ := ih rfl
        exact ⟨List.mem_cons_of_mem first hmem, hpre⟩
    | none =>
      rw [hfound] at h
      simp only at h
      split at h
      · rename_i hfirst
        cases h
        exact ⟨List.mem_cons_self, List.isPrefixOf_iff_prefix.1 hfirst⟩
      · cases h

/-- The search depends on which names the text begins with. -/
theorem longestMatch_congr {table : List (List Char × List Char)}
    (h : ∀ entity ∈ table, (entity.1 <+: cs ↔ entity.1 <+: ds)) :
    longestMatch cs table = longestMatch ds table := by
  induction table with
  | nil => rfl
  | cons first table ih =>
    have hfirst : first.1.isPrefixOf cs = first.1.isPrefixOf ds := by
      rw [Bool.eq_iff_iff, List.isPrefixOf_iff_prefix, List.isPrefixOf_iff_prefix]
      exact h first List.mem_cons_self
    rw [longestMatch, longestMatch, hfirst,
      ih fun entity hmem => h entity (List.mem_cons_of_mem first hmem)]

theorem length_dropSemicolon_le (cs : List Char) : (dropSemicolon cs).length ≤ cs.length := by
  cases cs with
  | nil => exact Nat.le_refl _
  | cons c cs =>
    rw [dropSemicolon]
    split
    · exact Nat.le_succ _
    · exact Nat.le_refl _

theorem numbered_length (h : numbered base isDigit cs = some (out, rest)) :
    out.length ≤ 1 ∧ rest.length + 1 ≤ cs.length := by
  simp only [numbered] at h
  split at h
  · cases h
  · rename_i hdigits
    cases h
    have hsplit := congrArg List.length (List.takeWhile_append_dropWhile (p := isDigit) (l := cs))
    have hpos := List.length_pos_iff.2 hdigits
    have hrest := length_dropSemicolon_le (cs.dropWhile isDigit)
    rw [List.length_append] at hsplit
    exact ⟨Nat.le_refl 1, by omega⟩

theorem numericReference_length (h : numericReference cs = some (out, rest)) :
    out.length ≤ 1 ∧ rest.length + 1 ≤ cs.length := by
  cases cs with
  | nil => cases h
  | cons c cs =>
    rw [numericReference] at h
    split at h
    · obtain ⟨hout, hrest⟩ := numbered_length h
      exact ⟨hout, Nat.le_succ_of_le hrest⟩
    · exact numbered_length h

/-- A reference is longer than what it stands for. -/
theorem reference_length (h : reference E cs = some (out, rest)) :
    out.length ≤ 2 ∧ rest.length + 2 ≤ cs.length := by
  cases cs with
  | nil => cases h
  | cons c cs =>
    rw [reference] at h
    split at h
    · obtain ⟨hout, hrest⟩ := numericReference_length h
      exact ⟨Nat.le_succ_of_le hout, Nat.succ_le_succ hrest⟩
    · rw [namedReference, Option.map_eq_some_iff] at h
      obtain ⟨entity, hmatch, he⟩ := h
      cases he
      obtain ⟨hmem, hpre⟩ := longestMatch_some hmatch
      have hname := E.name_length entity hmem
      have hle := hpre.length_le
      rw [List.length_drop]
      exact ⟨E.expansion_length entity hmem, by omega⟩

theorem referenceInValue_some (h : referenceInValue E cs = some found) :
    reference E cs = some found := by
  cases cs with
  | nil => cases h
  | cons c cs =>
    rw [referenceInValue] at h
    rw [reference]
    split at h
    · rwa [if_pos ‹_›]
    · rw [if_neg ‹_›]
      rw [namedInValue, Option.bind_eq_some_iff] at h
      obtain ⟨entity, hmatch, he⟩ := h
      simp only at he
      split at he
      · cases he
      · cases he
        rw [namedReference, hmatch]
        rfl

/-- A character that is in no reference. -/
structure EndsReference (c : Char) : Prop where
  not_alphanum : c.isAlphanum = false
  not_hex : isHexDigit c = false
  ne_semicolon : c ≠ ';'
  ne_number : c ≠ '#'
  ne_x : ¬ (c = 'x' ∨ c = 'X')

theorem EndsReference.not_digit (h : EndsReference c) : c.isDigit = false := by
  have hno := h.not_alphanum
  rw [Char.isAlphanum, Bool.or_eq_false_iff] at hno
  exact hno.2

theorem takeWhile_stop {p : Char → Bool} (hc : p c = false) (cs rest : List Char) :
    (cs ++ c :: rest).takeWhile p = cs.takeWhile p := by
  induction cs with
  | nil => rw [List.nil_append, List.takeWhile_cons, hc, List.takeWhile_nil]; rfl
  | cons d cs ih => rw [List.cons_append, List.takeWhile_cons, List.takeWhile_cons, ih]

theorem dropWhile_stop {p : Char → Bool} (hc : p c = false) (cs rest : List Char) :
    (cs ++ c :: rest).dropWhile p = cs.dropWhile p ++ c :: rest := by
  induction cs with
  | nil => rw [List.nil_append, List.dropWhile_cons, hc, List.dropWhile_nil]; rfl
  | cons d cs ih =>
    rw [List.cons_append, List.dropWhile_cons, List.dropWhile_cons]
    split
    · exact ih
    · rfl

theorem dropSemicolon_append (hc : c ≠ ';') (cs rest : List Char) :
    dropSemicolon (cs ++ c :: rest) = dropSemicolon cs ++ c :: rest := by
  cases cs with
  | nil => exact if_neg hc
  | cons d cs =>
    rw [List.cons_append, dropSemicolon, dropSemicolon]
    split
    · rfl
    · rfl

/-- What follows the text leaves a reference in the text as it is. -/
def Followed (more : List Char) : Option (List Char × List Char) → Option (List Char × List Char) :=
  Option.map fun found => (found.1, found.2 ++ more)

theorem numbered_append (hc : isDigit c = false) (hs : c ≠ ';') (cs rest : List Char) :
    numbered base isDigit (cs ++ c :: rest) = Followed (c :: rest) (numbered base isDigit cs) := by
  simp only [numbered, takeWhile_stop hc, dropWhile_stop hc, dropSemicolon_append hs]
  split
  · rfl
  · rfl

theorem numericReference_append (h : EndsReference c) (cs rest : List Char) :
    numericReference (cs ++ c :: rest) = Followed (c :: rest) (numericReference cs) := by
  cases cs with
  | nil =>
    have hnone : numbered 10 Char.isDigit (c :: rest) =
        Followed (c :: rest) (numbered 10 Char.isDigit []) :=
      numbered_append h.not_digit h.ne_semicolon [] rest
    have hstart : numericReference (c :: rest) = numbered 10 Char.isDigit (c :: rest) :=
      if_neg h.ne_x
    exact hstart.trans hnone
  | cons d cs =>
    rw [List.cons_append, numericReference, numericReference]
    split
    · exact numbered_append h.not_hex h.ne_semicolon cs rest
    · exact numbered_append h.not_digit h.ne_semicolon (d :: cs) rest

theorem prefix_append_stop {name cs : List Char} (hname : c ∉ name) :
    name <+: cs ++ c :: rest ↔ name <+: cs := by
  constructor
  · intro h
    rcases List.prefix_or_prefix_of_prefix h (List.prefix_append cs (c :: rest)) with hpre | hpre
    · exact hpre
    · obtain ⟨more, rfl⟩ := hpre
      rw [List.prefix_append_right_inj] at h
      cases more with
      | nil =>
        rw [List.append_nil]
      | cons d more =>
        obtain ⟨rfl, -⟩ := List.cons_prefix_cons.1 h
        exact absurd (by simp) hname
  · exact fun h => h.trans (List.prefix_append _ _)

theorem namedReference_append (h : EndsReference c) (E : Entities) (cs rest : List Char) :
    namedReference E (cs ++ c :: rest) = Followed (c :: rest) (namedReference E cs) := by
  have hnames : ∀ entity ∈ E.table, c ∉ entity.1 := by
    intro entity hmem hc
    rcases E.name_chars entity hmem c hc with halpha | hsemi
    · rw [h.not_alphanum] at halpha
      cases halpha
    · exact h.ne_semicolon hsemi
  rw [namedReference, namedReference,
    longestMatch_congr fun entity hmem => prefix_append_stop (hnames entity hmem)]
  cases hmatch : longestMatch cs E.table with
  | none => rfl
  | some entity =>
    have hle := (longestMatch_some hmatch).2.length_le
    simp only [Option.map_some, Followed, List.drop_append_of_le_length hle]

theorem reference_append (h : EndsReference c) (E : Entities) (cs rest : List Char) :
    reference E (cs ++ c :: rest) = Followed (c :: rest) (reference E cs) := by
  cases cs with
  | nil =>
    have hnamed := namedReference_append h E [] rest
    have hnil : namedReference E [] = none := by
      cases hmatch : longestMatch [] E.table with
      | none => rw [namedReference, hmatch]; rfl
      | some entity =>
        obtain ⟨hmem, hpre⟩ := longestMatch_some hmatch
        have hlong := E.name_length entity hmem
        rw [List.prefix_nil.1 hpre] at hlong
        exact absurd hlong (by decide)
    rw [hnil] at hnamed
    have hstart : reference E (c :: rest) = namedReference E (c :: rest) := if_neg h.ne_number
    exact hstart.trans hnamed
  | cons d cs =>
    rw [List.cons_append, reference, reference]
    split
    · exact numericReference_append h cs rest
    · exact namedReference_append h E (d :: cs) rest

/-- The value of an attribute, from what stands between its quotes. -/
def decodeValue (E : Entities) : List Char → List Char
  | [] => []
  | c :: cs =>
    if c = '&' then
      match _found : referenceInValue E cs with
      | some (out, rest) => out ++ decodeValue E rest
      | none => c :: decodeValue E cs
    else (if c = nul then replacement else c) :: decodeValue E cs
termination_by cs => cs.length
decreasing_by
  · have hlt := (reference_length (referenceInValue_some _found)).2
    simp only [List.length_cons]
    omega
  · exact Nat.lt_succ_self _
  · exact Nat.lt_succ_self _

theorem decodeValue_reference (h : referenceInValue E cs = some (out, rest)) :
    decodeValue E ('&' :: cs) = out ++ decodeValue E rest := by
  rw [decodeValue, if_pos rfl]
  split
  · rename_i out' rest' h'
    rw [h] at h'
    cases h'
    rfl
  · rename_i h'
    rw [h] at h'
    cases h'

theorem decodeValue_char (h : c = '&' → referenceInValue E cs = none) :
    decodeValue E (c :: cs) = (if c = nul then replacement else c) :: decodeValue E cs := by
  rw [decodeValue]
  split
  · rename_i hamp
    have hnone := h hamp
    split
    · rename_i h'
      rw [hnone] at h'
      cases h'
    · rw [hamp]
      rfl
  · rfl

theorem length_decodeValue_le (E : Entities) (cs : List Char) :
    (decodeValue E cs).length ≤ cs.length := by
  induction hn : cs.length using Nat.strongRecOn generalizing cs with
  | ind n ih =>
    subst hn
    cases cs with
    | nil => rw [decodeValue]
    | cons c cs =>
      have hnext := ih cs.length (Nat.lt_succ_self _) cs rfl
      by_cases href : c = '&' → referenceInValue E cs = none
      · rw [decodeValue_char href]
        exact Nat.succ_le_succ hnext
      · obtain ⟨rfl, hsome⟩ := Classical.not_imp.1 href
        obtain ⟨⟨out, rest⟩, hfound⟩ := Option.ne_none_iff_exists'.1 hsome
        obtain ⟨hout, hrest⟩ := reference_length (referenceInValue_some hfound)
        have hdecoded := ih rest.length (by simp only [List.length_cons]; omega) rest rfl
        rw [decodeValue_reference hfound, List.length_append, List.length_cons]
        omega

/-- A value that is not shortened has no reference in it. -/
theorem decodeValue_of_length (h : (decodeValue E cs).length = cs.length) :
    decodeValue E cs = cs.map fun c => if c = nul then replacement else c := by
  induction cs with
  | nil => rw [decodeValue]; rfl
  | cons c cs ih =>
    by_cases href : c = '&' → referenceInValue E cs = none
    · rw [decodeValue_char href, List.length_cons, List.length_cons] at h
      rw [decodeValue_char href, List.map_cons, ih (Nat.succ.inj h)]
    · obtain ⟨rfl, hsome⟩ := Classical.not_imp.1 href
      obtain ⟨⟨out, rest⟩, hfound⟩ := Option.ne_none_iff_exists'.1 hsome
      obtain ⟨hout, hrest⟩ := reference_length (referenceInValue_some hfound)
      have hle := length_decodeValue_le E rest
      rw [decodeValue_reference hfound, List.length_append, List.length_cons] at h
      omega

theorem decodeValue_eq_self (hnul : nul ∉ cs)
    (href : ∀ rest, '&' :: rest <:+ cs → reference E rest = none) : decodeValue E cs = cs := by
  induction cs with
  | nil => rw [decodeValue]
  | cons c cs ih =>
    rw [List.mem_cons, not_or] at hnul
    have hfree : c = '&' → referenceInValue E cs = none := by
      rintro rfl
      cases hvalue : referenceInValue E cs with
      | none => rfl
      | some found =>
        have hnone := href cs List.suffix_rfl
        rw [referenceInValue_some hvalue] at hnone
        cases hnone
    rw [decodeValue_char hfree, if_neg (Ne.symm hnul.1),
      ih hnul.2 fun rest hsuffix => href rest (hsuffix.trans (List.suffix_cons c cs))]

end Html
