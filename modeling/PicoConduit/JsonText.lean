import PicoConduit.Json
import PicoConduit.JsonString
import PicoConduit.Utf8

namespace Json
open JsonString Utf8
set_option autoImplicit true

/-- A string literal. -/
def literal (letters : LetterCase) (text : List Char) : List Char :=
  quote :: (escape letters text ++ [quote])

def openBrace : Char := Char.ofNat 0x7B

def closeBrace : Char := Char.ofNat 0x7D

mutual

/-- The text of a value without white space. -/
def Value.render (letters : LetterCase) : Value → List Char
  | .null => "null".toList
  | .bool b => (toString b).toList
  | .number n => Nat.toDigits 10 n
  | .string s => literal letters s.toList
  | .array elems => '[' :: (renderElems letters elems ++ [']'])
  | .object fields => openBrace :: (renderFields letters fields ++ [closeBrace])

def renderElems (letters : LetterCase) : List Value → List Char
  | [] => []
  | [v] => v.render letters
  | v :: w :: vs => v.render letters ++ ',' :: renderElems letters (w :: vs)

def renderFields (letters : LetterCase) : List (String × Value) → List Char
  | [] => []
  | [(key, v)] => literal letters key.toList ++ ':' :: v.render letters
  | (key, v) :: field :: fields =>
    literal letters key.toList ++ ':' ::
      (v.render letters ++ ',' :: renderFields letters (field :: fields))

end

/-- No control characters. -/
def Printable (text : List Char) : Prop := ∀ c ∈ text, 0x20 ≤ c.toNat

instance (text : List Char) : Decidable (Printable text) :=
  decidable_of_iff (text.all (0x20 ≤ ·.toNat) = true)
    (by simp only [List.all_eq_true, decide_eq_true_eq, Printable])

theorem printable_append : Printable (xs ++ ys) ↔ Printable xs ∧ Printable ys :=
  List.forall_mem_append

theorem printable_cons : Printable (c :: text) ↔ 0x20 ≤ c.toNat ∧ Printable text :=
  List.forall_mem_cons

theorem printable_nil : Printable [] := fun _ hm => absurd hm List.not_mem_nil

theorem hexDigit_printable (letters : LetterCase) :
    ∀ n < 16, 0x20 ≤ (hexDigit letters n).toNat := by
  cases letters <;> decide

theorem writtenEscapes_printable : ∀ e ∈ writtenEscapes, 0x20 ≤ e.1.toNat := by decide

theorem escapeChar_printable (letters : LetterCase) (c : Char) :
    Printable (escapeChar letters c) := by
  rw [escapeChar]
  split
  · rename_i e he
    have hmem := List.mem_of_find?_eq_some he
    exact printable_cons.2 ⟨by decide, printable_cons.2
      ⟨writtenEscapes_printable e hmem, printable_nil⟩⟩
  · split
    · rename_i hc
      simp only [unitEscape, printable_cons]
      exact ⟨by decide, by decide, by decide, by decide, hexDigit_printable _ _ (by omega),
        hexDigit_printable _ _ (by omega), printable_nil⟩
    · rename_i hc
      exact printable_cons.2 ⟨Nat.le_of_not_lt hc, printable_nil⟩

theorem literal_printable (letters : LetterCase) (text : List Char) :
    Printable (literal letters text) := by
  refine printable_cons.2 ⟨by decide, printable_append.2 ⟨?_, ?_⟩⟩
  · intro c hc
    obtain ⟨d, -, hd⟩ := List.mem_flatMap.1 hc
    exact escapeChar_printable letters d c hd
  · exact printable_cons.2 ⟨by decide, printable_nil⟩

theorem toDigits_printable (n : Nat) : Printable (Nat.toDigits 10 n) := by
  intro c hc
  have hten : (10 : Nat) ≤ 10 := Nat.le_refl 10
  have hdigit := Nat.isDigit_of_mem_toDigits (by decide) hten hc
  have hlow : 48 ≤ c.toNat := (Char.isDigit_iff_toNat.1 hdigit).1
  omega

mutual

theorem Value.render_printable (letters : LetterCase) : ∀ v : Value, Printable (v.render letters)
  | .null => by rw [Value.render]; decide
  | .bool b => by cases b <;> (rw [Value.render]; decide)
  | .number n => by rw [Value.render]; exact toDigits_printable n
  | .string s => by rw [Value.render]; exact literal_printable letters s.toList
  | .array elems => by
    rw [Value.render]
    exact printable_cons.2 ⟨by decide, printable_append.2
      ⟨renderElems_printable letters elems, printable_cons.2 ⟨by decide, printable_nil⟩⟩⟩
  | .object fields => by
    rw [Value.render]
    exact printable_cons.2 ⟨by decide, printable_append.2
      ⟨renderFields_printable letters fields, printable_cons.2 ⟨by decide, printable_nil⟩⟩⟩

theorem renderElems_printable (letters : LetterCase) :
    ∀ elems : List Value, Printable (renderElems letters elems)
  | [] => by rw [renderElems]; exact printable_nil
  | [v] => by rw [renderElems]; exact v.render_printable letters
  | v :: w :: vs => by
    rw [renderElems]
    exact printable_append.2 ⟨v.render_printable letters, printable_cons.2
      ⟨by decide, renderElems_printable letters (w :: vs)⟩⟩

theorem renderFields_printable (letters : LetterCase) :
    ∀ fields : List (String × Value), Printable (renderFields letters fields)
  | [] => by rw [renderFields]; exact printable_nil
  | [(key, v)] => by
    rw [renderFields]
    exact printable_append.2 ⟨literal_printable letters _, printable_cons.2
      ⟨by decide, v.render_printable letters⟩⟩
  | (key, v) :: field :: fields => by
    rw [renderFields]
    exact printable_append.2 ⟨literal_printable letters _, printable_cons.2 ⟨by decide,
      printable_append.2 ⟨v.render_printable letters, printable_cons.2
        ⟨by decide, renderFields_printable letters (field :: fields)⟩⟩⟩⟩

end

/-- The bytes of the text of a value. -/
def Value.toBytes (letters : LetterCase) (v : Value) : Bytes :=
  asBytes (String.ofList (v.render letters))

/-- How many bytes a text takes. -/
def width (text : List Char) : Nat := (text.flatMap String.utf8EncodeChar).length

@[simp] theorem width_nil : width [] = 0 := rfl

@[simp] theorem width_cons (c : Char) (text : List Char) :
    width (c :: text) = (String.utf8EncodeChar c).length + width text := by
  rw [width, List.flatMap_cons, List.length_append]
  rfl

@[simp] theorem width_append (text text' : List Char) :
    width (text ++ text') = width text + width text' := by
  rw [width, List.flatMap_append, List.length_append]
  rfl

theorem Value.length_toBytes (letters : LetterCase) (v : Value) :
    (v.toBytes letters).length = width (v.render letters) := by
  rw [Value.toBytes, asBytes_ofList]
  rfl

/-- The bytes that a string takes between its quotes. -/
def written (s : String) : Nat := width (escape .upper s.toList)

/-- The case of the letters is of no account for the length. -/
theorem width_escapeChar_eq (letters : LetterCase) (c : Char) :
    width (escapeChar letters c) = width (escapeChar .upper c) := by
  have hunit : ∀ n < 0x20,
      width (unitEscape '0' '0' (hexDigit letters (n / 16)) (hexDigit letters (n % 16))) =
        width (unitEscape '0' '0' (hexDigit .upper (n / 16)) (hexDigit .upper (n % 16))) := by
    cases letters <;> decide
  rw [escapeChar, escapeChar]
  split
  · rfl
  · split
    · exact hunit c.toNat ‹_›
    · rfl

theorem width_escape (letters : LetterCase) (s : String) :
    width (escape letters s.toList) = written s := by
  rw [written, escape, escape]
  induction s.toList with
  | nil => rfl
  | cons c text ih =>
    rw [List.flatMap_cons, List.flatMap_cons, width_append, width_append, ih, width_escapeChar_eq]

theorem width_literal (letters : LetterCase) (s : String) :
    width (literal letters s.toList) = written s + 2 := by
  have hquote : (String.utf8EncodeChar quote).length = 1 := rfl
  simp only [literal, width_cons, width_append, width_nil, hquote, width_escape]
  omega

/-- What fields take: each its value, its key in quotes, a colon and a comma. -/
def fieldsWidth (letters : LetterCase) : List (String × Value) → Nat
  | [] => 0
  | field :: fields =>
    written field.1 + width (field.2.render letters) + 4 + fieldsWidth letters fields

theorem width_renderFields (letters : LetterCase) (hne : fields ≠ []) :
    width (renderFields letters fields) + 1 = fieldsWidth letters fields := by
  have hcomma : (String.utf8EncodeChar ',').length = 1 := rfl
  have hcolon : (String.utf8EncodeChar ':').length = 1 := rfl
  induction fields with
  | nil => exact absurd rfl hne
  | cons field fields ih =>
    obtain ⟨key, v⟩ := field
    cases fields with
    | nil =>
      simp only [renderFields, width_append, width_cons, width_literal, hcolon, fieldsWidth]
      omega
    | cons field fields =>
      rw [fieldsWidth, ← ih (List.cons_ne_nil field fields)]
      simp only [renderFields, width_append, width_cons, width_literal, hcolon, hcomma]
      omega

/-- An object takes its braces and its fields, the last of which has no comma. -/
theorem width_object (letters : LetterCase) (hne : fields ≠ []) :
    width ((Value.object fields).render letters) = fieldsWidth letters fields + 1 := by
  have hopen : (String.utf8EncodeChar openBrace).length = 1 := rfl
  have hclose : (String.utf8EncodeChar closeBrace).length = 1 := rfl
  rw [← width_renderFields letters hne, Value.render]
  simp only [width_append, width_cons, width_nil, hopen, hclose]
  omega

theorem width_string (letters : LetterCase) (s : String) :
    width ((Value.string s).render letters) = written s + 2 := by
  rw [Value.render, width_literal]

/-- A number takes a byte for each digit. -/
theorem width_number (letters : LetterCase) (n : Nat) :
    width ((Value.number n).render letters) = (Nat.toDigits 10 n).length := by
  have hten : (10 : Nat) ≤ 10 := Nat.le_refl 10
  have hdigits : ∀ c ∈ Nat.toDigits 10 n, (String.utf8EncodeChar c).length = 1 := by
    intro c hc
    have hdigit := Nat.isDigit_of_mem_toDigits (by decide) hten hc
    have hhigh : c.toNat ≤ 57 := (Char.isDigit_iff_toNat.1 hdigit).2
    have hval : c.toNat = c.val.toNat := rfl
    rw [String.utf8EncodeChar]
    simp only [show c.val.toNat ≤ 0x7F by omega, ↓reduceIte, List.length_singleton]
  rw [Value.render]
  generalize Nat.toDigits 10 n = digits at hdigits
  induction digits with
  | nil => rfl
  | cons c digits ih =>
    rw [List.forall_mem_cons] at hdigits
    rw [width_cons, hdigits.1, ih hdigits.2, List.length_cons, Nat.add_comm]

/-- An escape takes at most six bytes for each byte of the character. -/
theorem width_escapeChar (c : Char) :
    width (escapeChar .upper c) ≤ 6 * (String.utf8EncodeChar c).length := by
  have hpos : 0 < (String.utf8EncodeChar c).length :=
    List.length_pos_iff.2 String.utf8EncodeChar_ne_nil
  rw [escapeChar]
  split
  · rename_i e he
    have hshort : ∀ e ∈ writtenEscapes, width [backslash, e.1] ≤ 6 := by decide
    exact Nat.le_trans (hshort e (List.mem_of_find?_eq_some he)) (by omega)
  · split
    · rename_i hc
      have hunit : ∀ n < 0x20,
          width (unitEscape '0' '0' (hexDigit .upper (n / 16)) (hexDigit .upper (n % 16))) ≤ 6 := by
        decide
      exact Nat.le_trans (hunit c.toNat hc) (by omega)
    · rw [width_cons, width_nil]
      omega

theorem written_le (s : String) : written s ≤ 6 * s.utf8ByteSize := by
  rw [← length_asBytes, asBytes_eq_flatMap, written, escape]
  induction s.toList with
  | nil => exact Nat.zero_le _
  | cons c text ih =>
    have hc := width_escapeChar c
    simp only [List.flatMap_cons, width_append, List.length_append]
    omega

theorem escapeChar_self (letters : LetterCase) (h : isPlain c = true) :
    escapeChar letters c = [c] := by
  have hplain : ∀ e ∈ writtenEscapes, isPlain e.2 = false := by decide
  rw [escapeChar]
  split
  · rename_i e he
    have hc := List.find?_some he
    obtain rfl := beq_iff_eq.1 hc
    rw [hplain e (List.mem_of_find?_eq_some he)] at h
    cases h
  · simp only [isPlain, Bool.and_eq_true, decide_eq_true_eq] at h
    exact if_neg (Nat.not_lt.2 h.2)

theorem escape_self (letters : LetterCase) (h : List.all text isPlain = true) :
    escape letters text = text := by
  induction text with
  | nil => rfl
  | cons c text ih =>
    rw [List.all_cons, Bool.and_eq_true] at h
    have htext : List.flatMap (escapeChar letters) text = text := ih h.2
    rw [escape, List.flatMap_cons, escapeChar_self letters h.1, htext]
    rfl

/-- No character but a newline has one among its bytes. -/
theorem newline_not_mem_encodeChar (h : 0x20 ≤ Char.toNat c) :
    0x0A ∉ String.utf8EncodeChar c := by
  have hne (n : Nat) (h : n % 256 ≠ 10) : (0x0A : UInt8) ≠ UInt8.ofNat n := by
    intro he
    have ht := congrArg UInt8.toNat he
    rw [UInt8.toNat_ofNat'] at ht
    exact h ht.symm
  have hc : c.toNat = c.val.toNat := rfl
  simp only [String.utf8EncodeChar]
  split
  · simp only [List.mem_singleton]
    exact hne _ (by omega)
  · split
    · simp only [List.mem_cons, List.not_mem_nil, or_false, not_or]
      exact ⟨hne _ (by omega), hne _ (by omega)⟩
    · split
      · simp only [List.mem_cons, List.not_mem_nil, or_false, not_or]
        exact ⟨hne _ (by omega), hne _ (by omega), hne _ (by omega)⟩
      · simp only [List.mem_cons, List.not_mem_nil, or_false, not_or]
        exact ⟨hne _ (by omega), hne _ (by omega), hne _ (by omega), hne _ (by omega)⟩

/-- The text of a value is a single line. -/
theorem newline_not_mem_toBytes (letters : LetterCase) (v : Value) :
    0x0A ∉ v.toBytes letters := by
  rw [Value.toBytes, asBytes_ofList, List.mem_flatMap]
  intro h
  obtain ⟨c, hc, hmem⟩ := h
  exact newline_not_mem_encodeChar (v.render_printable letters c hc) hmem

end Json
