import Mathlib.Data.List.Nodup

namespace JsonString
set_option autoImplicit true

def backslash : Char := Char.ofNat 0x5C

def quote : Char := Char.ofNat 0x22

/-- The letters of the short escapes that a writer uses, with what they stand for. -/
def writtenEscapes : List (Char × Char) :=
  [(quote, quote), (backslash, backslash), ('b', Char.ofNat 8), ('t', '\t'), ('n', '\n'),
    ('f', Char.ofNat 0xC), ('r', '\r')]

/-- A reader knows one more: a slash may be escaped, but need not be. -/
def shortEscapes : List (Char × Char) := ('/', '/') :: writtenEscapes

def hexValue (c : Char) : Option Nat :=
  if 48 ≤ c.toNat ∧ c.toNat ≤ 57 then some (c.toNat - 48)
  else if 65 ≤ c.toNat ∧ c.toNat ≤ 70 then some (c.toNat - 55)
  else if 97 ≤ c.toNat ∧ c.toNat ≤ 102 then some (c.toNat - 87)
  else none

/-- In which case a writer writes the letters among the hexadecimal digits. -/
inductive LetterCase
  | upper
  | lower
  deriving DecidableEq, Repr

def hexDigit (letters : LetterCase) (n : Nat) : Char :=
  if n < 10 then Char.ofNat (48 + n)
  else
    match letters with
    | .upper => Char.ofNat (55 + n)
    | .lower => Char.ofNat (87 + n)

/-- The UTF-16 code unit that four hexadecimal digits spell. -/
def codeUnit (a b c d : Char) : Option Nat := do
  let a ← hexValue a
  let b ← hexValue b
  let c ← hexValue c
  let d ← hexValue d
  pure (((a * 16 + b) * 16 + c) * 16 + d)

def unitEscape (a b c d : Char) : List Char := [backslash, 'u', a, b, c, d]

/-- One piece of a string literal, and the character it stands for. -/
inductive Piece : List Char → Char → Prop
  | plain (hb : c ≠ backslash) (hq : c ≠ quote) (hc : 0x20 ≤ c.toNat) : Piece [c] c
  | short (h : (e, c) ∈ shortEscapes) : Piece [backslash, e] c
  | unit (h : codeUnit w x y z = some n) (hn : n < 0xD800 ∨ 0xE000 ≤ n) :
      Piece (unitEscape w x y z) (Char.ofNat n)
  | pair (hh : codeUnit w x y z = some hi) (hl : codeUnit w' x' y' z' = some lo)
      (hhi : 0xD800 ≤ hi ∧ hi < 0xDC00) (hlo : 0xDC00 ≤ lo ∧ lo < 0xE000) :
      Piece (unitEscape w x y z ++ unitEscape w' x' y' z')
        (Char.ofNat (0x10000 + (hi - 0xD800) * 0x400 + (lo - 0xDC00)))

/-- The string that the text between two quotes denotes. -/
inductive Denotes : List Char → List Char → Prop
  | nil : Denotes [] []
  | cons (hp : Piece piece c) (hd : Denotes literal text) : Denotes (piece ++ literal) (c :: text)

/-- A piece is one plain character, or longer than what it stands for and escaped. -/
theorem Piece.shape (h : Piece piece c) :
    (piece = [c] ∧ c ≠ backslash) ∨ (backslash ∈ piece ∧ 1 < piece.length) := by
  cases h with
  | plain hb hq hc => exact .inl ⟨rfl, hb⟩
  | short h => exact .inr ⟨by simp, by simp⟩
  | unit h hn => exact .inr ⟨by simp [unitEscape], by simp [unitEscape]⟩
  | pair hh hl hhi hlo => exact .inr ⟨by simp [unitEscape], by simp [unitEscape]⟩

theorem not_short_unit : ('u', c) ∉ shortEscapes := by
  simp [shortEscapes, writtenEscapes, quote, backslash]

theorem shortEscapes_unique (h : (e, c) ∈ shortEscapes) (h' : (e, c') ∈ shortEscapes) :
    c = c' := by
  have hkeys : (shortEscapes.map Prod.fst).Nodup := by decide
  exact congrArg Prod.snd (List.inj_on_of_nodup_map hkeys h h' rfl)

theorem unitEscape_inj (h : unitEscape a b c d ++ l = unitEscape a' b' c' d' ++ m) :
    a = a' ∧ b = b' ∧ c = c' ∧ d = d' ∧ l = m := by
  simpa only [unitEscape, List.cons_append, List.nil_append, List.cons.injEq, true_and] using h

/-- A short escape and a code unit differ in their letter. -/
theorem short_ne_unit (h : (e, c) ∈ shortEscapes) :
    [backslash, e] ++ l ≠ unitEscape w x y z ++ m := by
  intro he
  simp only [unitEscape, List.cons_append, List.nil_append, List.cons.injEq, true_and] at he
  obtain ⟨rfl, -⟩ := he
  exact not_short_unit h

/-- The piece at the front of a literal is determined by the literal. -/
theorem Piece.unique (h : Piece p c) (h' : Piece q d) (he : p ++ l = q ++ m) :
    p = q ∧ c = d := by
  cases h with
  | plain hb hq hc =>
    cases h' with
    | plain => simp_all
    | short | unit | pair => simp_all [unitEscape]
  | short hs =>
    cases h' with
    | plain => simp_all
    | short hs' =>
      simp only [List.cons_append, List.nil_append, List.cons.injEq, true_and] at he
      obtain ⟨rfl, rfl⟩ := he
      exact ⟨rfl, shortEscapes_unique hs hs'⟩
    | unit => exact absurd he (short_ne_unit hs)
    | pair =>
      rw [List.append_assoc] at he
      exact absurd he (short_ne_unit hs)
  | unit hu hn =>
    cases h' with
    | plain => simp_all [unitEscape]
    | short hs' => exact absurd he.symm (short_ne_unit hs')
    | unit hu' hn' =>
      obtain ⟨rfl, rfl, rfl, rfl, rfl⟩ := unitEscape_inj he
      rw [hu] at hu'
      cases hu'
      exact ⟨rfl, rfl⟩
    | pair hh hl hhi hlo =>
      -- a unit by itself is no surrogate, and the first of a pair is one
      rw [List.append_assoc] at he
      obtain ⟨rfl, rfl, rfl, rfl, -⟩ := unitEscape_inj he
      rw [hu] at hh
      cases hh
      omega
  | pair hh hl hhi hlo =>
    rw [List.append_assoc] at he
    cases h' with
    | plain => simp_all [unitEscape]
    | short hs' => exact absurd he.symm (short_ne_unit hs')
    | unit hu' hn' =>
      obtain ⟨rfl, rfl, rfl, rfl, -⟩ := unitEscape_inj he
      rw [hh] at hu'
      cases hu'
      omega
    | pair hh' hl' hhi' hlo' =>
      rw [List.append_assoc] at he
      obtain ⟨rfl, rfl, rfl, rfl, htail⟩ := unitEscape_inj he
      obtain ⟨rfl, rfl, rfl, rfl, rfl⟩ := unitEscape_inj htail
      rw [hh] at hh'
      rw [hl] at hl'
      cases hh'
      cases hl'
      exact ⟨rfl, rfl⟩

theorem Piece.ne_nil (h : Piece piece c) : piece ≠ [] := by
  rcases h.shape with ⟨rfl, -⟩ | ⟨-, hl⟩
  · exact List.cons_ne_nil c []
  · exact List.ne_nil_of_length_pos (Nat.zero_lt_of_lt hl)

theorem Denotes.unique (h : Denotes literal text) (h' : Denotes literal text') : text = text' := by
  induction h generalizing text' with
  | nil =>
    generalize he : ([] : List Char) = l at h'
    cases h' with
    | nil => rfl
    | cons hp' hd' => exact absurd (List.append_eq_nil_iff.1 he.symm).1 hp'.ne_nil
  | cons hp hd ih =>
    rename_i p c l t
    generalize he : p ++ l = whole at h'
    cases h' with
    | nil => exact absurd (List.append_eq_nil_iff.1 he).1 hp.ne_nil
    | cons hp' hd' =>
      obtain ⟨rfl, rfl⟩ := hp.unique hp' he
      obtain rfl := List.append_cancel_left he
      rw [ih hd']

theorem Denotes.length_le (h : Denotes literal text) : text.length ≤ literal.length := by
  induction h with
  | nil => exact Nat.le_refl 0
  | cons hp hd ih =>
    rw [List.length_append, List.length_cons]
    rcases hp.shape with ⟨rfl, -⟩ | ⟨-, hl⟩
    · rw [List.length_singleton]
      omega
    · omega

/-- A literal denotes its own text exactly when nothing in it is escaped. -/
theorem Denotes.eq_iff (h : Denotes literal text) : text = literal ↔ backslash ∉ literal := by
  induction h with
  | nil => simp
  | cons hp hd ih =>
    rcases hp.shape with ⟨rfl, hb⟩ | ⟨hb, hl⟩
    · simp [ih, Ne.symm hb]
    · have hle := hd.length_le
      constructor
      · intro he
        have hlen := congrArg List.length he
        rw [List.length_append, List.length_cons] at hlen
        omega
      · intro hn
        exact absurd (List.mem_append_left _ hb) hn

/-- How a writer spells one character. -/
def escapeChar (letters : LetterCase) (c : Char) : List Char :=
  match writtenEscapes.find? (fun e => e.2 == c) with
  | some e => [backslash, e.1]
  | none =>
    if c.toNat < 0x20 then
      unitEscape '0' '0' (hexDigit letters (c.toNat / 16)) (hexDigit letters (c.toNat % 16))
    else [c]

def escape (letters : LetterCase) (text : List Char) : List Char :=
  text.flatMap (escapeChar letters)

theorem codeUnit_control (letters : LetterCase) : ∀ n < 0x20,
    codeUnit '0' '0' (hexDigit letters (n / 16)) (hexDigit letters (n % 16)) = some n := by
  cases letters <;> decide

theorem piece_escapeChar (letters : LetterCase) (c : Char) : Piece (escapeChar letters c) c := by
  simp only [escapeChar]
  split
  · rename_i e he
    have hc := List.find?_some he
    obtain rfl := beq_iff_eq.1 hc
    exact .short (List.mem_cons_of_mem _ (List.mem_of_find?_eq_some he))
  · rename_i hnone
    rw [List.find?_eq_none] at hnone
    split
    · rename_i hc
      have hp := Piece.unit (codeUnit_control letters c.toNat hc) (.inl (by omega))
      rwa [Char.ofNat_toNat] at hp
    · rename_i hc
      refine .plain ?_ ?_ (Nat.le_of_not_lt hc)
      · rintro rfl
        exact hnone (backslash, backslash) (by simp [writtenEscapes]) (by simp)
      · rintro rfl
        exact hnone (quote, quote) (by simp [writtenEscapes]) (by simp)

/-- What a writer writes denotes what it was given. -/
theorem denotes_escape (letters : LetterCase) (text : List Char) :
    Denotes (escape letters text) text := by
  induction text with
  | nil => exact .nil
  | cons c text ih => exact .cons (piece_escapeChar letters c) ih

theorem Piece.denotes (h : Piece piece c) : Denotes piece [c] := by
  have hd := Denotes.cons h .nil
  rwa [List.append_nil] at hd

theorem Denotes.append (h : Denotes literal text) (h' : Denotes literal' text') :
    Denotes (literal ++ literal') (text ++ text') := by
  induction h with
  | nil => exact h'
  | cons hp hd ih =>
    rw [List.append_assoc, List.cons_append]
    exact .cons hp ih

/-- A character that may stand for itself. -/
def isPlain (c : Char) : Bool := c != backslash && c != quote && 0x20 ≤ c.toNat

theorem piece_isPlain (h : isPlain c = true) : Piece [c] c := by
  simp only [isPlain, Bool.and_eq_true, bne_iff_ne, decide_eq_true_eq] at h
  exact .plain h.1.1 h.1.2 h.2

theorem denotes_self {literal : List Char} (h : literal.all isPlain = true) :
    Denotes literal literal := by
  induction literal with
  | nil => exact .nil
  | cons c literal ih =>
    rw [List.all_cons, Bool.and_eq_true] at h
    exact .cons (piece_isPlain h.1) (ih h.2)

/-- Two string literals that denote the same string. -/
def SameText (a b : String) : Prop := ∃ text, Denotes a.toList text ∧ Denotes b.toList text

def Valid (a : String) : Prop := ∃ text, Denotes a.toList text

/-- No character of a literal is escaped. -/
def Unescaped (a : String) : Prop := backslash ∉ a.toList

theorem SameText.symm (h : SameText a b) : SameText b a := by
  obtain ⟨text, ha, hb⟩ := h
  exact ⟨text, hb, ha⟩

/-- Of two spellings of a string at most one is without escapes. -/
theorem SameText.eq_of_unescaped (h : SameText a b) (ha : Unescaped a) (hb : Unescaped b) :
    a = b := by
  obtain ⟨text, hat, hbt⟩ := h
  apply String.toList_inj.1
  rw [← hat.eq_iff.2 ha, ← hbt.eq_iff.2 hb]

/-- Writing the text of a literal gives the same string back only if nothing in it was escaped. -/
theorem sameText_escape_iff (letters : LetterCase) (ha : Valid a) :
    SameText (String.ofList (escape letters a.toList)) a ↔ Unescaped a := by
  obtain ⟨text, hat⟩ := ha
  simp only [SameText, String.toList_ofList]
  constructor
  · intro hx
    obtain ⟨t, he, hd⟩ := hx
    obtain rfl := he.unique (denotes_escape letters a.toList)
    exact hd.eq_iff.1 rfl
  · intro hp
    have hself := hat
    rw [hat.eq_iff.2 hp] at hself
    exact ⟨a.toList, denotes_escape letters a.toList, hself⟩

end JsonString
