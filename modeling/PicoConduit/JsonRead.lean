import PicoConduit.JsonText

namespace Json
open JsonString Utf8
set_option autoImplicit true

def readUnit : List Char → Option (Nat × List Char)
  | w :: x :: y :: z :: rest => (codeUnit w x y z).map fun n => (n, rest)
  | _ => none

/-- The second unit of a pair. -/
def readLow (hi : Nat) : List Char → Option (Char × List Char)
  | b :: u :: rest =>
    if b = backslash ∧ u = 'u' then do
      let (lo, rest) ← readUnit rest
      if 0xDC00 ≤ lo ∧ lo < 0xE000 then
        pure (Char.ofNat (0x10000 + (hi - 0xD800) * 0x400 + (lo - 0xDC00)), rest)
      else none
    else none
  | _ => none

/-- What comes after a backslash. -/
def readEscape : List Char → Option (Char × List Char)
  | [] => none
  | e :: rest =>
    if e = 'u' then do
      let (n, rest) ← readUnit rest
      if n < 0xD800 ∨ 0xE000 ≤ n then pure (Char.ofNat n, rest)
      else if n < 0xDC00 then readLow n rest
      else none
    else (shortEscapes.find? (fun entry => entry.1 == e)).map fun entry => (entry.2, rest)

def readPiece : List Char → Option (Char × List Char)
  | [] => none
  | c :: rest =>
    if c = backslash then readEscape rest
    else if c = quote ∨ c.toNat < 0x20 then none
    else some (c, rest)

/-- The text of a string up to its closing quote. -/
def readChars : Nat → List Char → Option (List Char × List Char)
  | 0, _ => none
  | fuel + 1, text =>
    if text.head? = some quote then some ([], text.tail)
    else do
      let (c, rest) ← readPiece text
      let (chars, rest) ← readChars fuel rest
      pure (c :: chars, rest)

theorem readUnit_unit (h : codeUnit w x y z = some n) (rest : List Char) :
    readUnit (w :: x :: y :: z :: rest) = some (n, rest) := by
  rw [readUnit, h]
  rfl

theorem find_short (h : (e, c) ∈ shortEscapes) :
    shortEscapes.find? (fun entry => entry.1 == e) = some (e, c) := by
  cases hfind : shortEscapes.find? (fun entry => entry.1 == e) with
  | none => exact absurd (List.find?_eq_none.1 hfind _ h) (by simp)
  | some entry =>
    obtain ⟨e', c'⟩ := entry
    have he := List.find?_some hfind
    obtain rfl : e' = e := beq_iff_eq.1 he
    rw [shortEscapes_unique (List.mem_of_find?_eq_some hfind) h]

theorem readPiece_piece (h : Piece piece c) (rest : List Char) :
    readPiece (piece ++ rest) = some (c, rest) := by
  cases h with
  | plain hb hq hc =>
    simp only [List.singleton_append, readPiece, if_neg hb]
    rw [if_neg (by simp only [hq, false_or]; omega)]
  | short h =>
    rename_i e
    have hu : e ≠ 'u' := by
      rintro rfl
      exact not_short_unit h
    simp only [List.cons_append, List.nil_append, readPiece, ↓reduceIte, readEscape, if_neg hu,
      find_short h, Option.map_some]
  | unit h hn =>
    simp only [unitEscape, List.cons_append, List.nil_append, readPiece, ↓reduceIte, readEscape,
      readUnit_unit h, Option.bind_eq_bind, Option.bind_some, if_pos hn]
    rfl
  | @pair w x y z hi w' x' y' z' lo hh hl hhi hlo =>
    have hnot : ¬ (hi < 0xD800 ∨ 0xE000 ≤ hi) := by omega
    simp only [unitEscape, List.cons_append, List.nil_append, readPiece, ↓reduceIte, readEscape,
      readUnit_unit hh, Option.bind_eq_bind, Option.bind_some, if_neg hnot, if_pos hhi.2, readLow,
      and_self, readUnit_unit hl, if_pos hlo]
    rfl

theorem piece_head_ne_quote (h : Piece piece c) (rest : List Char) :
    (piece ++ rest).head? ≠ some quote := by
  cases h with
  | plain hb hq hc => simpa using hq
  | short h => simp [backslash, quote]
  | unit h hn => simp [unitEscape, backslash, quote]
  | pair hh hl hhi hlo => simp [unitEscape, backslash, quote]

/-- A literal is read as what it denotes. -/
theorem readChars_denotes {spelling : List Char} (h : Denotes spelling text)
    (hfuel : spelling.length < fuel) :
    readChars fuel (spelling ++ quote :: rest) = some (text, rest) := by
  induction h generalizing fuel with
  | nil =>
    cases fuel with
    | zero => exact absurd hfuel (Nat.not_lt_zero _)
    | succ fuel => rfl
  | cons hp _ ih =>
    cases fuel with
    | zero => exact absurd hfuel (Nat.not_lt_zero _)
    | succ fuel =>
      have hpos := List.length_pos_iff.2 hp.ne_nil
      rw [List.length_append] at hfuel
      have hrest : readChars fuel (_ ++ quote :: rest) = some (_, rest) := ih (by omega)
      rw [readChars, List.append_assoc, if_neg (piece_head_ne_quote hp _), readPiece_piece hp]
      simp only [Option.bind_eq_bind, Option.bind_some, hrest]
      rfl

def isSpace (c : Char) : Bool := c == ' ' || c == '\t' || c == '\n' || c == '\r'

def skipSpace (text : List Char) : List Char := text.dropWhile isSpace

/-- The text after a character and the white space before it. -/
def expect (c : Char) (text : List Char) : Option (List Char) :=
  if (skipSpace text).head? = some c then some (skipSpace text).tail else none

/-- The text of a string with its quotes. -/
def readLiteral (fuel : Nat) (text : List Char) : Option (String × List Char) := do
  let rest ← expect quote text
  let (chars, rest) ← readChars fuel rest
  pure (String.ofList chars, rest)

/-- A natural number without leading zeros. -/
def readNumber (text : List Char) : Option (Nat × List Char) :=
  let digits := text.takeWhile Char.isDigit
  if digits = [] ∨ 1 < digits.length ∧ digits.head? = some '0' then none
  else some (Nat.ofDigitChars 10 digits 0, text.dropWhile Char.isDigit)

def readWord (word : List Char) (v : Value) (text : List Char) : Option (Value × List Char) :=
  if word <+: text then some (v, text.drop word.length) else none

mutual

/-- The value at the front of a text. -/
def readValue : Nat → List Char → Option (Value × List Char)
  | 0, _ => none
  | fuel + 1, text =>
    match expect '[' text with
    | some rest =>
      match expect ']' rest with
      | some rest => some (.array [], rest)
      | none => (readElems fuel rest).map fun (elems, rest) => (.array elems, rest)
    | none =>
      match expect openBrace text with
      | some rest =>
        match expect closeBrace rest with
        | some rest => some (.object [], rest)
        | none => (readFields fuel rest).map fun (fields, rest) => (.object fields, rest)
      | none =>
        let text := skipSpace text
        match text.head? with
        | none => none
        | some c =>
          if c = quote then (readLiteral fuel text).map fun (s, rest) => (.string s, rest)
          else if c = 'n' then readWord "null".toList .null text
          else if c = 't' then readWord "true".toList (.bool true) text
          else if c = 'f' then readWord "false".toList (.bool false) text
          else (readNumber text).map fun (n, rest) => (.number n, rest)

def readElems : Nat → List Char → Option (List Value × List Char)
  | 0, _ => none
  | fuel + 1, text => do
    let (v, rest) ← readValue fuel text
    match expect ',' rest with
    | some rest => do
      let (vs, rest) ← readElems fuel rest
      pure (v :: vs, rest)
    | none => do
      let rest ← expect ']' rest
      pure ([v], rest)

def readFields : Nat → List Char → Option (List (String × Value) × List Char)
  | 0, _ => none
  | fuel + 1, text => do
    let (key, rest) ← readLiteral fuel text
    let rest ← expect ':' rest
    let (v, rest) ← readValue fuel rest
    match expect ',' rest with
    | some rest => do
      let (fields, rest) ← readFields fuel rest
      pure ((key, v) :: fields, rest)
    | none => do
      let rest ← expect closeBrace rest
      pure ([(key, v)], rest)

end

/-- The value of a whole text. -/
def read (text : List Char) : Option Value :=
  match readValue (text.length + 1) text with
  | some (v, rest) => if skipSpace rest = [] then some v else none
  | none => none

def Value.ofBytes (bytes : Bytes) : Option Value := do
  let text ← fromUtf8 bytes
  read text.toList

theorem skipSpace_cons (h : isSpace c = false) (rest : List Char) :
    skipSpace (c :: rest) = c :: rest :=
  List.dropWhile_cons_of_neg (by rw [h]; exact Bool.false_ne_true)

theorem expect_cons (h : isSpace c = false) (rest : List Char) :
    expect c (c :: rest) = some rest := by
  rw [expect, skipSpace_cons h]
  exact if_pos rfl

theorem expect_ne (h : isSpace d = false) (hne : d ≠ c) (rest : List Char) :
    expect c (d :: rest) = none := by
  rw [expect, skipSpace_cons h]
  exact if_neg fun he => hne (Option.some.inj he)

theorem readLiteral_literal (letters : LetterCase) (s : String)
    (hfuel : (literal letters s.toList).length ≤ fuel + 1) (rest : List Char) :
    readLiteral fuel (literal letters s.toList ++ rest) = some (s, rest) := by
  simp only [literal, List.length_cons, List.length_append, List.length_nil] at hfuel
  rw [readLiteral, literal, List.cons_append, List.append_assoc, expect_cons (by decide),
    Option.bind_eq_bind, Option.bind_some, List.singleton_append,
    readChars_denotes (denotes_escape letters s.toList) (by omega), Option.bind_eq_bind,
    Option.bind_some]
  simp only [String.ofList_toList]
  rfl

/-- A text that goes on with something else than a digit. -/
def Ends (rest : List Char) : Prop := ∀ c ∈ rest.head?, c.isDigit = false

theorem digitChar_ne_zero : ∀ n < 10, 0 < n → Nat.digitChar n ≠ '0' := by decide

theorem toDigits_head (h : 0 < n) : (Nat.toDigits 10 n).head? ≠ some '0' := by
  induction n using Nat.strongRecOn with
  | ind n ih =>
    by_cases hn : n < 10
    · rw [Nat.toDigits_of_lt_base hn]
      exact fun he => digitChar_ne_zero n hn h (Option.some.inj he)
    · rw [Nat.toDigits_of_base_le (by decide) (Nat.le_of_not_lt hn),
        List.head?_append_of_ne_nil _ Nat.toDigits_ne_nil]
      exact ih (n / 10) (by omega) (by omega)

theorem readNumber_toDigits (n : Nat) (h : Ends rest) :
    readNumber (Nat.toDigits 10 n ++ rest) = some (n, rest) := by
  have hten : (10 : Nat) ≤ 10 := Nat.le_refl 10
  have hdigits : ∀ c ∈ Nat.toDigits 10 n, c.isDigit = true :=
    fun c hc => Nat.isDigit_of_mem_toDigits (by decide) hten hc
  have htake : rest.takeWhile Char.isDigit = [] := by
    cases rest with
    | nil => rfl
    | cons c rest => exact List.takeWhile_cons_of_neg (by rw [h c rfl]; exact Bool.false_ne_true)
  have hdrop : rest.dropWhile Char.isDigit = rest := by
    cases rest with
    | nil => rfl
    | cons c rest => exact List.dropWhile_cons_of_neg (by rw [h c rfl]; exact Bool.false_ne_true)
  have hok : ¬ (Nat.toDigits 10 n = [] ∨
      1 < (Nat.toDigits 10 n).length ∧ (Nat.toDigits 10 n).head? = some '0') := by
    rintro (hnil | ⟨hlen, hhead⟩)
    · exact Nat.toDigits_ne_nil hnil
    · cases n with
      | zero => exact absurd hlen (by decide)
      | succ n => exact toDigits_head (Nat.succ_pos n) hhead
  rw [readNumber, List.takeWhile_append_of_pos hdigits, List.dropWhile_append_of_pos hdigits, htake,
    hdrop, List.append_nil, if_neg hok, Nat.ofDigitChars_ten_toDigits]

theorem ne_of_isDigit (h : Char.isDigit c = true) (hd : Char.isDigit d = false) : c ≠ d := by
  rintro rfl
  rw [h] at hd
  cases hd

theorem isSpace_of_isDigit (h : Char.isDigit c = true) : isSpace c = false := by
  simp only [isSpace, Bool.or_eq_false_iff, beq_eq_false_iff_ne]
  exact ⟨⟨⟨ne_of_isDigit h (by decide), ne_of_isDigit h (by decide)⟩,
    ne_of_isDigit h (by decide)⟩, ne_of_isDigit h (by decide)⟩

theorem toDigits_cons (n : Nat) : ∃ c text, Nat.toDigits 10 n = c :: text ∧ c.isDigit = true := by
  cases htext : Nat.toDigits 10 n with
  | nil => exact absurd htext Nat.toDigits_ne_nil
  | cons c text =>
    have hten : (10 : Nat) ≤ 10 := Nat.le_refl 10
    exact ⟨c, text, rfl,
      Nat.isDigit_of_mem_toDigits (by decide) hten (htext ▸ List.mem_cons_self)⟩

/-- The first character of a text is no space and ends no array. -/
theorem render_cons (letters : LetterCase) (v : Value) :
    ∃ c text, v.render letters = c :: text ∧ isSpace c = false ∧ c ≠ ']' := by
  cases v with
  | null => exact ⟨'n', "ull".toList, rfl, by decide, by decide⟩
  | bool b =>
    cases b with
    | false => exact ⟨'f', "alse".toList, rfl, by decide, by decide⟩
    | true => exact ⟨'t', "rue".toList, rfl, by decide, by decide⟩
  | number n =>
    obtain ⟨c, text, htext, hdigit⟩ := toDigits_cons n
    rw [Value.render]
    exact ⟨c, text, htext, isSpace_of_isDigit hdigit, ne_of_isDigit hdigit (by decide)⟩
  | string s =>
    rw [Value.render]
    exact ⟨quote, _, rfl, by decide, by decide⟩
  | array elems =>
    rw [Value.render]
    exact ⟨'[', _, rfl, by decide, by decide⟩
  | object fields =>
    rw [Value.render]
    exact ⟨openBrace, _, rfl, by decide, by decide⟩

theorem readWord_word (word : List Char) (v : Value) (rest : List Char) :
    readWord word v (word ++ rest) = some (v, rest) := by
  rw [readWord, if_pos (List.prefix_append word rest), List.drop_left]

/-- A text that begins neither an array nor an object. -/
theorem readValue_cons (h : isSpace c = false) (harray : c ≠ '[') (hobject : c ≠ openBrace)
    (fuel : Nat) (rest : List Char) : readValue (fuel + 1) (c :: rest) =
      if c = quote then (readLiteral fuel (c :: rest)).map fun (s, rest) => (.string s, rest)
      else if c = 'n' then readWord "null".toList .null (c :: rest)
      else if c = 't' then readWord "true".toList (.bool true) (c :: rest)
      else if c = 'f' then readWord "false".toList (.bool false) (c :: rest)
      else (readNumber (c :: rest)).map fun (n, rest) => (.number n, rest) := by
  rw [readValue, expect_ne h harray, expect_ne h hobject, skipSpace_cons h]
  rfl

theorem readValue_array (fuel : Nat) (rest : List Char) : readValue (fuel + 1) ('[' :: rest) =
    match expect ']' rest with
    | some rest => some (.array [], rest)
    | none => (readElems fuel rest).map fun (elems, rest) => (.array elems, rest) := by
  rw [readValue, expect_cons (by decide)]

theorem readValue_object (fuel : Nat) (rest : List Char) :
    readValue (fuel + 1) (openBrace :: rest) =
      match expect closeBrace rest with
      | some rest => some (.object [], rest)
      | none => (readFields fuel rest).map fun (fields, rest) => (.object fields, rest) := by
  rw [readValue, expect_ne (by decide) (by decide), expect_cons (by decide)]

theorem expect_renderElems (letters : LetterCase) (v : Value) (vs : List Value)
    (rest : List Char) : expect ']' (renderElems letters (v :: vs) ++ rest) = none := by
  obtain ⟨c, text, htext, hspace, hne⟩ := render_cons letters v
  cases vs with
  | nil =>
    rw [renderElems, htext]
    exact expect_ne hspace hne _
  | cons w vs =>
    rw [renderElems, htext]
    exact expect_ne hspace hne _

theorem expect_renderFields (letters : LetterCase) (field : String × Value)
    (fields : List (String × Value)) (rest : List Char) :
    expect closeBrace (renderFields letters (field :: fields) ++ rest) = none := by
  obtain ⟨key, v⟩ := field
  have hspace : isSpace quote = false := by decide
  cases fields with
  | nil =>
    rw [renderFields]
    exact expect_ne hspace (by decide) _
  | cons field fields =>
    rw [renderFields]
    exact expect_ne hspace (by decide) _

theorem ends_cons (h : Char.isDigit c = false) (rest : List Char) : Ends (c :: rest) := by
  intro d hd
  cases hd
  exact h

mutual

theorem readValue_render (letters : LetterCase) :
    ∀ (v : Value) (fuel : Nat) (rest : List Char), (v.render letters).length ≤ fuel → Ends rest →
      readValue fuel (v.render letters ++ rest) = some (v, rest)
  | v, 0, rest, hfuel, hends => by
    obtain ⟨c, text, htext, -⟩ := render_cons letters v
    rw [htext] at hfuel
    exact absurd hfuel (Nat.not_succ_le_zero _)
  | .null, fuel + 1, rest, hfuel, hends => by
    rw [Value.render]
    exact (readValue_cons (by decide) (by decide) (by decide) fuel _).trans
      (readWord_word "null".toList .null rest)
  | .bool false, fuel + 1, rest, hfuel, hends => by
    rw [Value.render]
    exact (readValue_cons (by decide) (by decide) (by decide) fuel _).trans
      (readWord_word "false".toList (.bool false) rest)
  | .bool true, fuel + 1, rest, hfuel, hends => by
    rw [Value.render]
    exact (readValue_cons (by decide) (by decide) (by decide) fuel _).trans
      (readWord_word "true".toList (.bool true) rest)
  | .number n, fuel + 1, rest, hfuel, hends => by
    obtain ⟨c, text, htext, hdigit⟩ := toDigits_cons n
    have hread := readNumber_toDigits n hends
    rw [Value.render]
    rw [htext, List.cons_append] at hread ⊢
    rw [readValue_cons (isSpace_of_isDigit hdigit) (ne_of_isDigit hdigit (by decide))
      (ne_of_isDigit hdigit (by decide)), if_neg (ne_of_isDigit hdigit (by decide)),
      if_neg (ne_of_isDigit hdigit (by decide)), if_neg (ne_of_isDigit hdigit (by decide)),
      if_neg (ne_of_isDigit hdigit (by decide)), hread]
    rfl
  | .string s, fuel + 1, rest, hfuel, hends => by
    rw [Value.render] at hfuel ⊢
    have hread := readLiteral_literal letters s hfuel rest
    rw [literal, List.cons_append] at hread ⊢
    rw [readValue_cons (by decide) (by decide) (by decide), if_pos rfl, hread]
    rfl
  | .array elems, fuel + 1, rest, hfuel, hends => by
    rw [Value.render] at hfuel ⊢
    simp only [List.length_cons, List.length_append, List.length_nil] at hfuel
    rw [List.cons_append, List.append_assoc, List.singleton_append, readValue_array]
    cases elems with
    | nil =>
      rw [renderElems, List.nil_append, expect_cons (by decide)]
    | cons v vs =>
      rw [expect_renderElems,
        readElems_render letters (v :: vs) fuel rest (List.cons_ne_nil v vs) (by omega)]
      rfl
  | .object fields, fuel + 1, rest, hfuel, hends => by
    rw [Value.render] at hfuel ⊢
    simp only [List.length_cons, List.length_append, List.length_nil] at hfuel
    rw [List.cons_append, List.append_assoc, List.singleton_append, readValue_object]
    cases fields with
    | nil =>
      rw [renderFields, List.nil_append, expect_cons (by decide)]
    | cons field fields =>
      rw [expect_renderFields,
        readFields_render letters (field :: fields) fuel rest (List.cons_ne_nil field fields)
          (by omega)]
      rfl

theorem readElems_render (letters : LetterCase) :
    ∀ (elems : List Value) (fuel : Nat) (rest : List Char), elems ≠ [] →
      (renderElems letters elems).length + 1 ≤ fuel →
        readElems fuel (renderElems letters elems ++ ']' :: rest) = some (elems, rest)
  | [], _, _, hne, _ => absurd rfl hne
  | _ :: _, 0, _, _, hfuel => absurd hfuel (Nat.not_succ_le_zero _)
  | [v], fuel + 1, rest, _, hfuel => by
    rw [renderElems] at hfuel ⊢
    rw [readElems, readValue_render letters v fuel _ (by omega) (ends_cons (by decide) rest)]
    simp only [Option.bind_eq_bind, Option.bind_some, expect_ne (by decide : isSpace ']' = false)
      (by decide : ']' ≠ ','), expect_cons (by decide : isSpace ']' = false)]
    rfl
  | v :: w :: vs, fuel + 1, rest, _, hfuel => by
    rw [renderElems] at hfuel ⊢
    simp only [List.length_cons, List.length_append] at hfuel
    rw [List.append_assoc, List.cons_append, readElems,
      readValue_render letters v fuel _ (by omega) (ends_cons (by decide) _)]
    simp only [Option.bind_eq_bind, Option.bind_some, expect_cons (by decide : isSpace ',' = false),
      readElems_render letters (w :: vs) fuel rest (List.cons_ne_nil w vs) (by omega)]
    rfl

theorem readFields_render (letters : LetterCase) :
    ∀ (fields : List (String × Value)) (fuel : Nat) (rest : List Char), fields ≠ [] →
      (renderFields letters fields).length + 1 ≤ fuel →
        readFields fuel (renderFields letters fields ++ closeBrace :: rest) = some (fields, rest)
  | [], _, _, hne, _ => absurd rfl hne
  | _ :: _, 0, _, _, hfuel => absurd hfuel (Nat.not_succ_le_zero _)
  | [(key, v)], fuel + 1, rest, _, hfuel => by
    rw [renderFields] at hfuel ⊢
    simp only [List.length_cons, List.length_append] at hfuel
    have hread := readValue_render letters v fuel (closeBrace :: rest) (by omega)
      (ends_cons (by decide) rest)
    rw [List.append_assoc, List.cons_append, readFields, readLiteral_literal letters key (by omega)]
    simp only [Option.bind_eq_bind, Option.bind_some, expect_cons (by decide : isSpace ':' = false),
      hread,
      expect_ne (by decide : isSpace closeBrace = false) (by decide : closeBrace ≠ ','),
      expect_cons (by decide : isSpace closeBrace = false)]
    rfl
  | (key, v) :: field :: fields, fuel + 1, rest, _, hfuel => by
    rw [renderFields] at hfuel ⊢
    simp only [List.length_cons, List.length_append] at hfuel
    have hread := readValue_render letters v fuel
      (',' :: (renderFields letters (field :: fields) ++ closeBrace :: rest)) (by omega)
      (ends_cons (by decide) _)
    rw [List.append_assoc, List.cons_append, List.append_assoc, List.cons_append, readFields,
      readLiteral_literal letters key (by omega)]
    simp only [Option.bind_eq_bind, Option.bind_some, expect_cons (by decide : isSpace ':' = false),
      hread, expect_cons (by decide : isSpace ',' = false),
      readFields_render letters (field :: fields) fuel rest (List.cons_ne_nil field fields)
        (by omega)]
    rfl

end

/-- A value is read back from its text. -/
theorem read_render (letters : LetterCase) (v : Value) : read (v.render letters) = some v := by
  have hread := readValue_render letters v ((v.render letters).length + 1) [] (by omega)
    fun c hc => nomatch hc
  rw [List.append_nil] at hread
  rw [read, hread]
  rfl

theorem ofBytes_toBytes (letters : LetterCase) (v : Value) :
    Value.ofBytes (v.toBytes letters) = some v := by
  rw [Value.ofBytes, Value.toBytes, fromUtf8_asBytes]
  exact (congrArg read (String.toList_ofList)).trans (read_render letters v)

end Json
