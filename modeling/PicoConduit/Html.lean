import PicoConduit.CharacterReferences

namespace Html
set_option autoImplicit true

def quote : Char := Char.ofNat 34

def apostrophe : Char := Char.ofNat 39

def carriageReturn : Char := Char.ofNat 13

def lineFeed : Char := Char.ofNat 10

def isSpace (c : Char) : Bool :=
  c == Char.ofNat 9 || c == lineFeed || c == Char.ofNat 12 || c == ' '

/-- A reader takes every kind of line end for a line feed. -/
def newlines (afterReturn : Bool) : List Char → List Char
  | [] => []
  | c :: cs =>
    if c = carriageReturn then lineFeed :: newlines true cs
    else if c = lineFeed ∧ afterReturn then newlines false cs
    else c :: newlines false cs

structure Tag where
  closing : Bool
  name : List Char
  attributes : List (List Char × List Char)
  selfClosing : Bool
  deriving DecidableEq, Repr

/-- What a page is read as. -/
inductive PageToken
  | startTag (name : List Char) (attributes : List (List Char × List Char)) (selfClosing : Bool)
  | endTag (name : List Char)
  | char (c : Char)
  | declaration
  deriving DecidableEq, Repr

def Tag.token (tag : Tag) : PageToken :=
  if tag.closing then .endTag tag.name
  else .startTag tag.name tag.attributes tag.selfClosing

/-- An attribute is added to a tag unless the tag already has one of its name. -/
def Tag.add (E : Entities) (tag : Tag) (key value : List Char) : Tag :=
  if tag.attributes.any (·.1 = key) then tag
  else { tag with attributes := tag.attributes ++ [(key, decodeValue E value)] }

/-- Where in a tag the reader is. -/
inductive TagState
  | tagName
  | beforeAttribute
  | attributeName (key : List Char)
  | afterAttributeName (key : List Char)
  | beforeValue (key : List Char)
  | quoted (delimiter : Char) (key value : List Char)
  | unquoted (key value : List Char)
  | afterValue
  | selfClosing

/-- What one character in a tag leads to. -/
inductive TagStep
  | next (tag : Tag) (state : TagState)
  | done (tag : Tag)

def nameChar (c : Char) : Char := if c = nul then replacement else c.toLower

/-- Before an attribute, and after anything that need not be followed by a space. -/
def startAttribute (tag : Tag) (c : Char) : TagStep :=
  if isSpace c then .next tag .beforeAttribute
  else if c = '/' then .next tag .selfClosing
  else if c = '>' then .done tag
  else if c = '=' then .next tag (.attributeName [c])
  else .next tag (.attributeName [nameChar c])

def TagState.step (E : Entities) (tag : Tag) : TagState → Char → TagStep
  | .tagName, c =>
    if isSpace c then .next tag .beforeAttribute
    else if c = '/' then .next tag .selfClosing
    else if c = '>' then .done tag
    else .next { tag with name := tag.name ++ [nameChar c] } .tagName
  | .beforeAttribute, c => startAttribute tag c
  | .attributeName key, c =>
    if isSpace c then .next tag (.afterAttributeName key)
    else if c = '/' then .next (tag.add E key []) .selfClosing
    else if c = '>' then .done (tag.add E key [])
    else if c = '=' then .next tag (.beforeValue key)
    else .next tag (.attributeName (key ++ [nameChar c]))
  | .afterAttributeName key, c =>
    if isSpace c then .next tag (.afterAttributeName key)
    else if c = '/' then .next (tag.add E key []) .selfClosing
    else if c = '=' then .next tag (.beforeValue key)
    else if c = '>' then .done (tag.add E key [])
    else .next (tag.add E key []) (.attributeName [nameChar c])
  | .beforeValue key, c =>
    if isSpace c then .next tag (.beforeValue key)
    else if c = quote ∨ c = apostrophe then .next tag (.quoted c key [])
    else if c = '>' then .done (tag.add E key [])
    else .next tag (.unquoted key [c])
  | .quoted delimiter key value, c =>
    if c = delimiter then .next (tag.add E key value) .afterValue
    else .next tag (.quoted delimiter key (value ++ [c]))
  | .unquoted key value, c =>
    if isSpace c then .next (tag.add E key value) .beforeAttribute
    else if c = '>' then .done (tag.add E key value)
    else .next tag (.unquoted key (value ++ [c]))
  | .afterValue, c => startAttribute tag c
  | .selfClosing, c =>
    if c = '>' then .done { tag with selfClosing := true } else startAttribute tag c

/-- A tag and what follows it; a page that ends within a tag has lost the tag. -/
def scanTag (E : Entities) (tag : Tag) (state : TagState) : List Char → Option (Tag × List Char)
  | [] => none
  | c :: cs =>
    match state.step E tag c with
    | .next tag state => scanTag E tag state cs
    | .done tag => some (tag, cs)

def tagTokens : Option (Tag × List Char) → List PageToken × List Char
  | some (tag, rest) => ([tag.token], rest)
  | none => ([], [])

def endMarkup (E : Entities) : List Char → List PageToken × List Char
  | [] => ([.char '<', .char '/'], [])
  | c :: cs =>
    if c.isAlpha then tagTokens (scanTag E ⟨true, [], [], false⟩ .tagName (c :: cs))
    else if c = '>' then ([], cs)
    else ([.declaration], [])

/-- What the reader makes of a less-than sign and what follows it. It goes no further than a
declaration or a comment. -/
def markup (E : Entities) : List Char → List PageToken × List Char
  | [] => ([.char '<'], [])
  | c :: cs =>
    if c.isAlpha then tagTokens (scanTag E ⟨false, [], [], false⟩ .tagName (c :: cs))
    else if c = '/' then endMarkup E cs
    else if c = '!' ∨ c = '?' then ([.declaration], [])
    else ([.char '<'], c :: cs)

/-- What the reader takes from a page that does not end here. -/
def take (E : Entities) (c : Char) (cs : List Char) : List PageToken × List Char :=
  if c = '<' then markup E cs
  else if c = '&' then
    match reference E cs with
    | some (out, rest) => (out.map .char, rest)
    | none => ([.char c], cs)
  else ([.char c], cs)

theorem scanTag_length (h : scanTag E tag state cs = some (tag', rest)) :
    rest.length < cs.length := by
  induction cs generalizing tag state with
  | nil => cases h
  | cons c cs ih =>
    rw [scanTag] at h
    split at h
    · exact Nat.lt_succ_of_lt (ih h)
    · cases h
      exact Nat.lt_succ_self _

theorem tagTokens_length (E : Entities) (tag : Tag) (state : TagState) (cs : List Char) :
    (tagTokens (scanTag E tag state cs)).2.length ≤ cs.length := by
  cases hscan : scanTag E tag state cs with
  | none => exact Nat.zero_le _
  | some found => exact Nat.le_of_lt (scanTag_length hscan)

theorem endMarkup_length (E : Entities) (cs : List Char) :
    (endMarkup E cs).2.length ≤ cs.length := by
  cases cs with
  | nil => exact Nat.le_refl _
  | cons c cs =>
    rw [endMarkup]
    split
    · exact tagTokens_length _ _ _ _
    · split
      · exact Nat.le_succ _
      · exact Nat.zero_le _

theorem markup_length (E : Entities) (cs : List Char) : (markup E cs).2.length ≤ cs.length := by
  cases cs with
  | nil => exact Nat.le_refl _
  | cons c cs =>
    rw [markup]
    split
    · exact tagTokens_length _ _ _ _
    · split
      · exact Nat.le_succ_of_le (endMarkup_length E cs)
      · split
        · exact Nat.zero_le _
        · exact Nat.le_refl _

theorem take_length (E : Entities) (c : Char) (cs : List Char) :
    (take E c cs).2.length ≤ cs.length := by
  rw [take]
  split
  · exact markup_length E cs
  · split
    · split
      · rename_i hfound
        exact Nat.le_trans (Nat.le_add_right _ 2) (reference_length hfound).2
      · exact Nat.le_refl _
    · exact Nat.le_refl _

/-- A page as the tokens that a reader finds in it. The reader is the one that all elements begin
with; it does not know the elements whose content is not markup. -/
def tokens (E : Entities) : List Char → List PageToken
  | [] => []
  | c :: cs => (take E c cs).1 ++ tokens E (take E c cs).2
termination_by cs => cs.length
decreasing_by exact Nat.lt_succ_of_le (take_length E c cs)

def readPage (E : Entities) (page : List Char) : List PageToken := tokens E (newlines false page)

theorem not_mem_newlines (afterReturn : Bool) (cs : List Char) :
    carriageReturn ∉ newlines afterReturn cs := by
  induction cs generalizing afterReturn with
  | nil => exact List.not_mem_nil
  | cons c cs ih =>
    rw [newlines]
    split
    · exact List.not_mem_cons_of_ne_of_not_mem (by decide) (ih true)
    · split
      · exact ih false
      · exact List.not_mem_cons_of_ne_of_not_mem (Ne.symm ‹_›) (ih false)

theorem length_newlines_le (afterReturn : Bool) (cs : List Char) :
    (newlines afterReturn cs).length ≤ cs.length := by
  induction cs generalizing afterReturn with
  | nil => exact Nat.le_refl _
  | cons c cs ih =>
    rw [newlines]
    split
    · exact Nat.succ_le_succ (ih true)
    · split
      · exact Nat.le_succ_of_le (ih false)
      · exact Nat.succ_le_succ (ih false)

theorem newlines_append (hc : c ≠ lineFeed) (afterReturn : Bool) (cs rest : List Char) :
    newlines afterReturn (cs ++ c :: rest) =
      newlines afterReturn cs ++ newlines false (c :: rest) := by
  induction cs generalizing afterReturn with
  | nil =>
    simp only [List.nil_append, newlines, hc, false_and, ↓reduceIte]
  | cons d cs ih =>
    rw [List.cons_append, newlines, newlines]
    split
    · rw [ih, List.cons_append]
    · split
      · exact ih false
      · rw [ih, List.cons_append]

theorem newlines_plain (h : carriageReturn ∉ cs) (rest : List Char) :
    newlines false (cs ++ rest) = cs ++ newlines false rest := by
  induction cs with
  | nil => rfl
  | cons c cs ih =>
    rw [List.mem_cons, not_or] at h
    rw [List.cons_append, newlines, if_neg (Ne.symm h.1), if_neg (by simp), ih h.2,
      List.cons_append]

theorem newlines_eq_self (h : carriageReturn ∉ cs) : newlines false cs = cs := by
  have hplain := newlines_plain h []
  rwa [List.append_nil, newlines, List.append_nil] at hplain

/-- What a less-than sign must not be followed by in a text. -/
def OpensMarkup (c : Char) : Prop := c.isAlpha ∨ c = '/' ∨ c = '!' ∨ c = '?'

instance : Decidable (OpensMarkup c) := inferInstanceAs (Decidable (_ ∨ _ ∨ _ ∨ _))

/-- A text that is read as it is written. -/
structure PlainText (E : Entities) (cs : List Char) : Prop where
  markup : ∀ rest, '<' :: rest <:+ cs → ∀ c ∈ rest.head?, ¬ OpensMarkup c
  reference : ∀ rest, '&' :: rest <:+ cs → reference E rest = none

/-- What the first character of a plain text needs of what follows it. -/
def PlainChar (E : Entities) (c : Char) (rest : List Char) : Prop :=
  (c = '<' → ∀ d ∈ rest.head?, ¬ OpensMarkup d) ∧ (c = '&' → reference E rest = none)

theorem plainText_nil (E : Entities) : PlainText E [] := by
  refine ⟨fun rest h => ?_, fun rest h => ?_⟩
  · cases List.suffix_nil.1 h
  · cases List.suffix_nil.1 h

theorem plainText_cons : PlainText E (c :: cs) ↔ PlainChar E c cs ∧ PlainText E cs := by
  constructor
  · intro h
    refine ⟨⟨?_, ?_⟩, fun rest hr => h.markup rest (hr.trans (List.suffix_cons c cs)),
      fun rest hr => h.reference rest (hr.trans (List.suffix_cons c cs))⟩
    · rintro rfl
      exact h.markup cs List.suffix_rfl
    · rintro rfl
      exact h.reference cs List.suffix_rfl
  · rintro ⟨hchar, hrest⟩
    refine ⟨fun rest hr => ?_, fun rest hr => ?_⟩
    · rcases List.suffix_cons_iff.1 hr with he | hr
      · obtain ⟨rfl, rfl⟩ := List.cons.inj he
        exact hchar.1 rfl
      · exact hrest.markup rest hr
    · rcases List.suffix_cons_iff.1 hr with he | hr
      · obtain ⟨rfl, rfl⟩ := List.cons.inj he
        exact hchar.2 rfl
      · exact hrest.reference rest hr

theorem plainText_of_free (hmarkup : '<' ∉ cs) (href : '&' ∉ cs) : PlainText E cs where
  markup := fun _ h => absurd (h.subset List.mem_cons_self) hmarkup
  reference := fun _ h => absurd (h.subset List.mem_cons_self) href

theorem markup_of_not (h : ∀ c ∈ cs.head?, ¬ OpensMarkup c) :
    markup E cs = ([.char '<'], cs) := by
  cases cs with
  | nil => rfl
  | cons c cs =>
    have hc := h c rfl
    simp only [OpensMarkup, not_or] at hc
    rw [markup, if_neg hc.1, if_neg hc.2.1, if_neg (by simp [hc.2.2])]

theorem take_plain (h : PlainChar E c cs) : take E c cs = ([.char c], cs) := by
  rw [take]
  split
  · rename_i hlt
    rw [hlt]
    exact markup_of_not (h.1 hlt)
  · split
    · rename_i hamp
      rw [h.2 hamp]
    · rfl

/-- A less-than sign ends every reference. -/
theorem less_endsReference : EndsReference '<' :=
  ⟨by decide, by decide, by decide, by decide, by decide⟩

theorem plainChar_append (h : PlainChar E c cs) (rest : List Char) :
    PlainChar E c (cs ++ '<' :: rest) := by
  refine ⟨fun hlt d hd => ?_, fun hamp => ?_⟩
  · cases cs with
    | nil =>
      cases hd
      decide
    | cons e cs => exact h.1 hlt d hd
  · rw [reference_append less_endsReference, h.2 hamp]
    rfl

theorem tokens_plain (h : PlainText E cs) (rest : List Char) :
    tokens E (cs ++ '<' :: rest) = cs.map .char ++ tokens E ('<' :: rest) := by
  induction cs with
  | nil => rfl
  | cons c cs ih =>
    obtain ⟨hchar, hcs⟩ := plainText_cons.1 h
    rw [List.cons_append, tokens, take_plain (plainChar_append hchar rest), ih hcs]
    rfl

end Html
