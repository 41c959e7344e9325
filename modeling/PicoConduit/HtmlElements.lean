import PicoConduit.Html

namespace Html
set_option autoImplicit true

def PageToken.isChar : PageToken → Bool
  | .char _ => true
  | _ => false

/-- The characters that come before any other token. -/
def leading (ts : List PageToken) : Nat := (ts.takeWhile PageToken.isChar).length

theorem leading_chars (out : List Char) (ts : List PageToken) :
    leading (out.map .char ++ ts) = out.length + leading ts := by
  induction out with
  | nil => exact (Nat.zero_add _).symm
  | cons c out ih =>
    have hcons : leading (.char c :: (out.map .char ++ ts)) =
        leading (out.map .char ++ ts) + 1 := rfl
    rw [List.map_cons, List.cons_append, hcons, ih, List.length_cons]
    omega

/-- A piece that has been taken from a page, and the reading of the rest. -/
def continued (E : Entities) (taken : List PageToken × List Char) : List PageToken :=
  taken.1 ++ tokens E taken.2

theorem tokens_cons (E : Entities) (c : Char) (cs : List Char) :
    tokens E (c :: cs) = continued E (take E c cs) := by
  rw [tokens, continued]

theorem leading_tagTokens (E : Entities) (found : Option (Tag × List Char)) :
    leading (continued E (tagTokens found)) = 0 := by
  cases found with
  | none => rw [tagTokens, continued, tokens]; rfl
  | some found =>
    obtain ⟨tag, rest⟩ := found
    rw [tagTokens, continued, Tag.token]
    split
    · rfl
    · rfl

theorem leading_endTag (hd : d.isAlpha) (rest : List Char) :
    leading (tokens E ('<' :: '/' :: d :: rest)) = 0 := by
  have htake : take E '<' ('/' :: d :: rest) =
      tagTokens (scanTag E ⟨true, [], [], false⟩ .tagName (d :: rest)) := if_pos hd
  rw [tokens_cons, htake]
  exact leading_tagTokens _ _

theorem markup_alpha (hc : c.isAlpha) (cs : List Char) : markup E (c :: cs) =
    tagTokens (scanTag E ⟨false, [], [], false⟩ .tagName (c :: cs)) := if_pos hc

theorem leading_endMarkup (cs rest : List Char)
    (ih : ∀ after, after.length < cs.length →
      leading (tokens E (after ++ '<' :: rest)) ≤ after.length) :
    leading (continued E (endMarkup E (cs ++ '<' :: rest))) ≤ cs.length := by
  cases cs with
  | nil => exact Nat.le_refl 0
  | cons c cs =>
    rw [List.cons_append, endMarkup]
    split
    · rw [leading_tagTokens]
      exact Nat.zero_le _
    · split
      · exact Nat.le_succ_of_le (ih cs (Nat.lt_succ_self _))
      · exact Nat.zero_le _

theorem leading_markup (hc : OpensMarkup c) (cs rest : List Char)
    (ih : ∀ after, after.length < cs.length →
      leading (tokens E (after ++ '<' :: rest)) ≤ after.length) :
    leading (continued E (markup E (c :: (cs ++ '<' :: rest)))) ≤ cs.length := by
  rw [markup]
  split
  · rw [leading_tagTokens]
    exact Nat.zero_le _
  · split
    · exact leading_endMarkup cs rest ih
    · split
      · exact Nat.zero_le _
      · rename_i halpha hslash hmark
        rcases hc with hc | hc | hc
        · exact absurd hc halpha
        · exact absurd hc hslash
        · exact absurd hc hmark

/-- A character that is not read as it is written takes more of the text than it gives back. -/
theorem leading_take (h : ¬ PlainChar E c cs) (rest : List Char)
    (ih : ∀ after, after.length < cs.length →
      leading (tokens E (after ++ '<' :: rest)) ≤ after.length) :
    leading (continued E (take E c (cs ++ '<' :: rest))) ≤ cs.length := by
  rcases Classical.not_and_iff_not_or_not.1 h with hmarkup | href
  · obtain ⟨rfl, hopens⟩ := Classical.not_imp.1 hmarkup
    cases cs with
    | nil => exact absurd (fun d hd => by cases hd) hopens
    | cons d cs =>
      have hd : OpensMarkup d := by
        by_contra hd
        refine hopens fun e he => ?_
        cases he
        exact hd
      have hle := leading_markup hd cs rest fun after hlt => ih after (Nat.lt_succ_of_lt hlt)
      exact Nat.le_succ_of_le hle
  · obtain ⟨rfl, hsome⟩ := Classical.not_imp.1 href
    obtain ⟨⟨out, after⟩, hfound⟩ := Option.ne_none_iff_exists'.1 hsome
    obtain ⟨hout, hafter⟩ := reference_length hfound
    have hread := ih after (by omega)
    have htake : take E '&' (cs ++ '<' :: rest) = (out.map .char, after ++ '<' :: rest) := by
      have hreference := reference_append less_endsReference E cs rest
      rw [hfound] at hreference
      simp only [take, hreference]
      rfl
    have hsum : leading (continued E (out.map .char, after ++ '<' :: rest)) =
        out.length + leading (tokens E (after ++ '<' :: rest)) := leading_chars out _
    rw [htake]
    omega

/-- In front of an end tag, no more characters are read than are written, and as many only if the
text is read as it is written. -/
theorem leading_tokens (E : Entities) (hd : d.isAlpha) (cs rest : List Char) :
    leading (tokens E (cs ++ '<' :: '/' :: d :: rest)) ≤ cs.length ∧
      (leading (tokens E (cs ++ '<' :: '/' :: d :: rest)) = cs.length → PlainText E cs) := by
  induction hn : cs.length using Nat.strongRecOn generalizing cs with
  | ind n ih =>
    subst hn
    cases cs with
    | nil =>
      rw [List.nil_append, leading_endTag hd]
      exact ⟨Nat.le_refl 0, fun _ => plainText_nil E⟩
    | cons c cs =>
      have hshorter (after : List Char) (hlt : after.length < cs.length + 1) :=
        (ih after.length hlt after rfl)
      rw [List.cons_append, tokens_cons, List.length_cons]
      by_cases hplain : PlainChar E c cs
      · obtain ⟨hle, heq⟩ := hshorter cs (Nat.lt_succ_self _)
        have hone := leading_chars [c] (tokens E (cs ++ '<' :: '/' :: d :: rest))
        rw [List.length_singleton, Nat.add_comm] at hone
        rw [take_plain (plainChar_append hplain _)]
        refine ⟨?_, fun h => plainText_cons.2 ⟨hplain, heq (Nat.succ.inj (hone.symm.trans h))⟩⟩
        exact Nat.le_trans (Nat.le_of_eq hone) (Nat.succ_le_succ hle)
      · have hlt : leading (continued E (take E c (cs ++ '<' :: '/' :: d :: rest))) ≤
            cs.length :=
          leading_take hplain _ fun after hafter => (hshorter after (Nat.lt_succ_of_lt hafter)).1
        exact ⟨Nat.le_succ_of_le hlt, fun h => by omega⟩

/-- A name that is read as it is written. -/
structure IsName (name : List Char) : Prop where
  ne_nil : name ≠ []
  lower : ∀ c ∈ name, c.isLower

theorem ne_of_lower {c d : Char} (hc : c.isLower) (hd : d.isLower = false) : c ≠ d := by
  rintro rfl
  rw [hc] at hd
  cases hd

theorem not_space {c : Char} (hc : c.isLower) : isSpace c = false := by
  have hne (d : Char) (hd : d.isLower = false) : (c == d) = false :=
    beq_eq_false_iff_ne.2 (ne_of_lower hc hd)
  simp only [isSpace, lineFeed]
  rw [hne _ (by decide), hne _ (by decide), hne _ (by decide), hne _ (by decide)]
  rfl

theorem not_upper {c : Char} (hc : c.isLower) : ¬ (c.val ≥ 'A'.val ∧ c.val ≤ 'Z'.val) := by
  have hlow : 'a'.val ≤ c.val := of_decide_eq_true (Bool.and_eq_true_iff.1 hc).1
  exact fun hup => absurd (UInt32.le_trans hlow hup.2) (by decide)

theorem nameChar_lower {c : Char} (hc : c.isLower) : nameChar c = c := by
  have hsame : c.toLower = c := dif_neg (not_upper hc)
  rw [nameChar, if_neg (ne_of_lower hc (by decide)), hsame]

theorem alpha_of_lower {c : Char} (hc : c.isLower) : c.isAlpha = true :=
  Bool.or_eq_true_iff.2 (.inr hc)

/-- A small letter has no meaning of its own in a tag. -/
theorem tagName_lower {c : Char} (hc : c.isLower) (tag : Tag) : TagState.step E tag .tagName c =
    .next { tag with name := tag.name ++ [c] } .tagName := by
  rw [TagState.step, not_space hc, if_neg (by decide), if_neg (ne_of_lower hc (by decide)),
    if_neg (ne_of_lower hc (by decide)), nameChar_lower hc]

theorem attributeName_lower {c : Char} (hc : c.isLower) (tag : Tag) (key : List Char) :
    TagState.step E tag (.attributeName key) c = .next tag (.attributeName (key ++ [c])) := by
  rw [TagState.step, not_space hc, if_neg (by decide), if_neg (ne_of_lower hc (by decide)),
    if_neg (ne_of_lower hc (by decide)), if_neg (ne_of_lower hc (by decide)), nameChar_lower hc]

theorem startAttribute_lower {c : Char} (hc : c.isLower) (tag : Tag) :
    startAttribute tag c = .next tag (.attributeName [c]) := by
  rw [startAttribute, not_space hc, if_neg (by decide), if_neg (ne_of_lower hc (by decide)),
    if_neg (ne_of_lower hc (by decide)), if_neg (ne_of_lower hc (by decide)), nameChar_lower hc]

theorem scanTag_name (hname : ∀ c ∈ name, c.isLower) (tag : Tag) (rest : List Char) :
    scanTag E tag .tagName (name ++ rest) =
      scanTag E { tag with name := tag.name ++ name } .tagName rest := by
  induction name generalizing tag with
  | nil => rw [List.append_nil, List.nil_append]
  | cons c name ih =>
    rw [List.cons_append, scanTag, tagName_lower (hname c List.mem_cons_self)]
    simp only
    rw [ih fun d hd => hname d (List.mem_cons_of_mem c hd)]
    simp only [List.append_assoc, List.singleton_append]

theorem scanTag_key (hkey : ∀ c ∈ key, c.isLower) (tag : Tag) (key' rest : List Char) :
    scanTag E tag (.attributeName key') (key ++ rest) =
      scanTag E tag (.attributeName (key' ++ key)) rest := by
  induction key generalizing key' with
  | nil => rw [List.append_nil, List.nil_append]
  | cons c key ih =>
    rw [List.cons_append, scanTag, attributeName_lower (hkey c List.mem_cons_self)]
    simp only
    rw [ih fun d hd => hkey d (List.mem_cons_of_mem c hd), List.append_assoc,
      List.singleton_append]

theorem scanTag_quoted (hvalue : quote ∉ value) (tag : Tag) (key value' rest : List Char) :
    scanTag E tag (.quoted quote key value') (value ++ quote :: rest) =
      scanTag E (tag.add E key (value' ++ value)) .afterValue rest := by
  induction value generalizing value' with
  | nil =>
    have hstep : TagState.step E tag (.quoted quote key value') quote =
        .next (tag.add E key value') .afterValue := by
      rw [TagState.step, if_pos rfl]
    rw [List.nil_append, scanTag, hstep, List.append_nil]
  | cons c value ih =>
    rw [List.mem_cons, not_or] at hvalue
    have hstep : TagState.step E tag (.quoted quote key value') c =
        .next tag (.quoted quote key (value' ++ [c])) := if_neg (Ne.symm hvalue.1)
    rw [List.cons_append, scanTag, hstep]
    simp only
    rw [ih hvalue.2, List.append_assoc, List.singleton_append]

theorem scanTag_opening (hname : IsName name) (hkey : IsName key) (rest : List Char) :
    scanTag E ⟨false, [], [], false⟩ .tagName (name ++ ' ' :: (key ++ '=' :: quote :: rest)) =
      scanTag E ⟨false, name, [], false⟩ (.quoted quote key []) rest := by
  obtain ⟨k, ks, rfl⟩ := List.exists_cons_of_ne_nil hkey.ne_nil
  have hk := hkey.lower k List.mem_cons_self
  have hspace : TagState.step E ⟨false, name, [], false⟩ .tagName ' ' =
      .next ⟨false, name, [], false⟩ .beforeAttribute := rfl
  have hfirst : TagState.step E ⟨false, name, [], false⟩ .beforeAttribute k =
      .next ⟨false, name, [], false⟩ (.attributeName [k]) := startAttribute_lower hk _
  have hequals : TagState.step E ⟨false, name, [], false⟩ (.attributeName (k :: ks)) '=' =
      .next ⟨false, name, [], false⟩ (.beforeValue (k :: ks)) := rfl
  have hquote : TagState.step E ⟨false, name, [], false⟩ (.beforeValue (k :: ks)) quote =
      .next ⟨false, name, [], false⟩ (.quoted quote (k :: ks) []) := rfl
  rw [scanTag_name hname.lower, List.nil_append, scanTag, hspace]
  simp only
  rw [List.cons_append, scanTag, hfirst]
  simp only
  rw [scanTag_key fun c hc => hkey.lower c (List.mem_cons_of_mem k hc), List.singleton_append,
    scanTag, hequals]
  simp only
  rw [scanTag, hquote]

theorem scanTag_end (hname : IsName name) (rest : List Char) :
    scanTag E ⟨true, [], [], false⟩ .tagName (name ++ '>' :: rest) =
      some (⟨true, name, [], false⟩, rest) := by
  have hstep : TagState.step E ⟨true, name, [], false⟩ .tagName '>' =
      .done ⟨true, name, [], false⟩ := rfl
  rw [scanTag_name hname.lower, List.nil_append, scanTag, hstep]

/-- The tag as far as it has been read. -/
def TagStep.tag : TagStep → Tag
  | .next tag _ => tag
  | .done tag => tag

theorem Tag.add_attributes (E : Entities) (tag : Tag) (key value : List Char) :
    tag.attributes <+: (tag.add E key value).attributes := by
  rw [Tag.add]
  split
  · exact List.prefix_rfl
  · exact List.prefix_append _ _

theorem startAttribute_attributes (tag : Tag) (c : Char) :
    (startAttribute tag c).tag.attributes = tag.attributes := by
  simp only [startAttribute]
  repeat' split
  all_goals rfl

/-- No step takes an attribute away. -/
theorem step_attributes (E : Entities) (tag : Tag) (state : TagState) (c : Char) :
    tag.attributes <+: (state.step E tag c).tag.attributes := by
  have hadd := Tag.add_attributes E tag
  have hstart : tag.attributes <+: (startAttribute tag c).tag.attributes := by
    rw [startAttribute_attributes]
  cases state with
  | beforeAttribute => exact hstart
  | afterValue => exact hstart
  | selfClosing =>
    rw [TagState.step]
    split
    · exact List.prefix_rfl
    · exact hstart
  | _ =>
    rw [TagState.step]
    repeat' split
    all_goals first
      | exact List.prefix_rfl
      | exact hadd _ _

theorem scanTag_attributes (h : scanTag E tag state cs = some (tag', rest)) :
    tag.attributes <+: tag'.attributes := by
  induction cs generalizing tag state with
  | nil => cases h
  | cons c cs ih =>
    have hstep := step_attributes E tag state c
    rw [scanTag] at h
    split at h
    · rename_i next state' hnext
      rw [hnext] at hstep
      exact hstep.trans (ih h)
    · rename_i done hdone
      rw [hdone] at hstep
      cases h
      exact hstep

def opening (name key : List Char) : List Char := '<' :: (name ++ ' ' :: (key ++ ['=', quote]))

def closing (name : List Char) : List Char := '/' :: (name ++ ['>'])

/-- An element with an attribute of the same value as its text, both written as they are. -/
def element (name key value : List Char) : List Char :=
  opening name key ++ (value ++ quote :: '>' :: (value ++ '<' :: closing name))

def elementTokens (name key value : List Char) : List PageToken :=
  .startTag name [(key, value)] false :: (value.map .char ++ [.endTag name])

theorem opening_append (name key rest : List Char) :
    opening name key ++ rest = '<' :: (name ++ ' ' :: (key ++ '=' :: quote :: rest)) := by
  simp only [opening, List.cons_append, List.append_assoc, List.nil_append]

theorem closing_append (name rest : List Char) :
    closing name ++ rest = '/' :: (name ++ '>' :: rest) := by
  simp only [closing, List.cons_append, List.append_assoc, List.nil_append]

theorem tokens_startTag (hname : IsName name) (cs : List Char) :
    tokens E ('<' :: (name ++ cs)) =
      continued E (tagTokens (scanTag E ⟨false, [], [], false⟩ .tagName (name ++ cs))) := by
  obtain ⟨c, name, rfl⟩ := List.exists_cons_of_ne_nil hname.ne_nil
  have halpha := alpha_of_lower (hname.lower c List.mem_cons_self)
  rw [tokens_cons, List.cons_append, ← markup_alpha halpha]
  rfl

theorem tokens_endTag (hname : IsName name) (rest : List Char) :
    tokens E ('<' :: (closing name ++ rest)) = .endTag name :: tokens E rest := by
  rw [closing_append]
  obtain ⟨c, cs, rfl⟩ := List.exists_cons_of_ne_nil hname.ne_nil
  have halpha := alpha_of_lower (hname.lower c List.mem_cons_self)
  have htake : take E '<' ('/' :: (c :: cs ++ '>' :: rest)) =
      tagTokens (scanTag E ⟨true, [], [], false⟩ .tagName (c :: cs ++ '>' :: rest)) :=
    if_pos halpha
  rw [tokens_cons, htake, scanTag_end hname]
  rfl

/-- The value that is read is what stands before the first quote. -/
theorem value_read (hname : IsName name) (hkey : IsName key) (hvalue : quote ∉ value)
    (h : tokens E (opening name key ++ (value ++ quote :: rest)) =
      .startTag name' [(key', value')] selfClosing :: more) : value' = decodeValue E value := by
  rw [opening_append, tokens_startTag hname, scanTag_opening hname hkey, scanTag_quoted hvalue] at h
  have hadd : Tag.add E ⟨false, name, [], false⟩ key ([] ++ value) =
      ⟨false, name, [(key, decodeValue E value)], false⟩ := rfl
  rw [hadd] at h
  cases hscan : scanTag E ⟨false, name, [(key, decodeValue E value)], false⟩ .afterValue rest with
  | none =>
    rw [hscan, tagTokens, continued, tokens] at h
    cases h
  | some found =>
    obtain ⟨tag, after⟩ := found
    obtain ⟨others, hothers⟩ := scanTag_attributes hscan
    rw [hscan, tagTokens, continued, Tag.token] at h
    split at h
    · cases h
    · simp only [List.cons_append, List.nil_append, List.cons.injEq, PageToken.startTag.injEq] at h
      rw [← hothers] at h
      obtain ⟨⟨-, hattributes, -⟩, -⟩ := h
      cases hattributes
      rfl

theorem value_closed (hname : IsName name) (hkey : IsName key) (hvalue : quote ∉ value)
    (rest : List Char) :
    tokens E (opening name key ++ (value ++ quote :: '>' :: rest)) =
      .startTag name [(key, decodeValue E value)] false :: tokens E rest := by
  have hclose : TagState.step E ⟨false, name, [(key, decodeValue E value)], false⟩ .afterValue '>' =
      .done ⟨false, name, [(key, decodeValue E value)], false⟩ := rfl
  have hadd : Tag.add E ⟨false, name, [], false⟩ key ([] ++ value) =
      ⟨false, name, [(key, decodeValue E value)], false⟩ := rfl
  rw [opening_append, tokens_startTag hname, scanTag_opening hname hkey, scanTag_quoted hvalue,
    hadd, scanTag, hclose]
  rfl

/-- A text that neither closes the quotes it stands between nor is changed by a reader. -/
structure Inert (E : Entities) (cs : List Char) : Prop where
  quote : quote ∉ cs
  nul : nul ∉ cs
  carriageReturn : carriageReturn ∉ cs
  plain : PlainText E cs

theorem no_return (hname : IsName name) : carriageReturn ∉ name := by
  intro hmem
  exact absurd (hname.lower _ hmem) (by decide)

theorem element_append (name key value rest : List Char) :
    element name key value ++ rest = opening name key ++ (value ++ quote :: '>' :: (value ++
      '<' :: (closing name ++ rest))) := by
  simp only [element, List.cons_append, List.append_assoc]

theorem newlines_element (hname : IsName name) (hkey : IsName key) (value rest : List Char) :
    newlines false (element name key value ++ rest) =
      element name key (newlines false value) ++ newlines false rest := by
  have hopen : carriageReturn ∉ opening name key := by
    simp only [opening, List.mem_cons, List.mem_append, no_return hname, no_return hkey,
      List.not_mem_nil, false_or, or_false]
    decide
  have hclose : carriageReturn ∉ '<' :: closing name := by
    simp only [closing, List.mem_cons, List.mem_append, no_return hname, List.not_mem_nil,
      false_or, or_false]
    decide
  have hend : newlines false ('<' :: (closing name ++ rest)) =
      '<' :: (closing name ++ newlines false rest) := newlines_plain hclose rest
  have hquote : carriageReturn ∉ [quote, '>'] := by decide
  have hmiddle (cs : List Char) : newlines false (quote :: '>' :: cs) =
      quote :: '>' :: newlines false cs := newlines_plain hquote cs
  rw [element_append, element_append, newlines_plain hopen, newlines_append (by decide), hmiddle,
    newlines_append (by decide), hend]

/-- An inert value is read back from an element. -/
theorem tokens_element (hname : IsName name) (hkey : IsName key) (h : Inert E value)
    (rest : List Char) :
    tokens E (element name key value ++ rest) =
      elementTokens name key value ++ tokens E rest := by
  rw [element_append, value_closed hname hkey h.quote, tokens_plain h.plain, tokens_endTag hname,
    decodeValue_eq_self h.nul h.plain.reference]
  simp only [elementTokens, List.cons_append, List.append_assoc, List.nil_append]

/-- A value that is no longer than what it is read from. -/
theorem value_kept {written : List Char} (h : value = decodeValue E (written.takeWhile (· ≠ quote)))
    (hle : written.length ≤ value.length) :
    quote ∉ written ∧ value = written.map fun c => if c = nul then replacement else c := by
  have htake := List.takeWhile_prefix (p := (· ≠ quote)) (l := written)
  have hdecoded := length_decodeValue_le E (written.takeWhile (· ≠ quote))
  rw [← h] at hdecoded
  have hall : written.takeWhile (· ≠ quote) = written :=
    htake.eq_of_length (Nat.le_antisymm htake.length_le (by omega))
  have hquote : quote ∉ written := by
    intro hmem
    rw [← hall] at hmem
    have hne := List.mem_takeWhile_imp hmem
    simp at hne
  rw [hall] at h hdecoded
  refine ⟨hquote, h.trans (decodeValue_of_length ?_)⟩
  rw [← h]
  exact Nat.le_antisymm hdecoded hle

/-- Whatever the text, a quote follows what comes before its first one. -/
theorem first_quote (cs rest : List Char) :
    ∃ post, cs ++ quote :: rest = cs.takeWhile (· ≠ quote) ++ quote :: post := by
  induction cs with
  | nil => exact ⟨rest, rfl⟩
  | cons c cs ih =>
    by_cases hc : c = quote
    · subst hc
      exact ⟨cs ++ quote :: rest, rfl⟩
    · obtain ⟨post, hpost⟩ := ih
      refine ⟨post, ?_⟩
      rw [List.takeWhile_cons, if_pos (by simpa using hc), List.cons_append, List.cons_append,
        hpost]

theorem not_mem_replaced {cs : List Char} (h : carriageReturn ∉ cs) :
    carriageReturn ∉ cs.map (fun c => if c = nul then replacement else c) ∧
      nul ∉ cs.map (fun c => if c = nul then replacement else c) := by
  refine ⟨fun hmem => ?_, fun hmem => ?_⟩
  · obtain ⟨c, hc, he⟩ := List.mem_map.1 hmem
    split at he
    · exact absurd he (by decide)
    · exact h (he ▸ hc)
  · obtain ⟨c, hc, he⟩ := List.mem_map.1 hmem
    split at he
    · exact absurd he (by decide)
    · exact absurd he ‹_›

/-- Only an inert value is read back from an element. -/
theorem inert_of_tokens (hname : IsName name) (hkey : IsName key)
    (h : tokens E (element name key (newlines false value) ++ rest) =
      elementTokens name key value ++ more) : Inert E value := by
  rw [element_append] at h
  obtain ⟨post, hpost⟩ := first_quote (newlines false value)
    ('>' :: (newlines false value ++ '<' :: (closing name ++ rest)))
  have hfirst : quote ∉ (newlines false value).takeWhile (· ≠ quote) := by
    intro hmem
    simpa using List.mem_takeWhile_imp hmem
  have hread := h
  rw [hpost] at hread
  obtain ⟨hquote, hvalue⟩ :=
    value_kept (value_read hname hkey hfirst hread) (length_newlines_le false value)
  obtain ⟨hreturn, hnul⟩ := not_mem_replaced (not_mem_newlines false value)
  rw [← hvalue] at hreturn hnul
  rw [newlines_eq_self hreturn] at h hquote
  rw [value_closed hname hkey hquote, elementTokens, List.cons_append, List.append_assoc] at h
  have htext := (List.cons.inj h).2
  have hleading : leading (tokens E (value ++ '<' :: (closing name ++ rest))) = value.length := by
    rw [htext, leading_chars]
    rfl
  obtain ⟨c, cs, rfl⟩ := List.exists_cons_of_ne_nil hname.ne_nil
  have halpha := alpha_of_lower (hname.lower c List.mem_cons_self)
  rw [closing_append] at hleading
  exact ⟨hquote, hnul, hreturn, (leading_tokens E halpha value _).2 hleading⟩

/-- The elements of a list are read back exactly when all their values are inert. -/
theorem read_elements_iff (hname : IsName name) (hkey : IsName key) (values : List (List Char))
    (rest : List Char) :
    readPage E (values.flatMap (element name key) ++ rest) =
        values.flatMap (elementTokens name key) ++ readPage E rest ↔
      ∀ value ∈ values, Inert E value := by
  induction values with
  | nil => simp
  | cons value values ih =>
    rw [List.flatMap_cons, List.flatMap_cons, List.append_assoc, List.append_assoc,
      List.forall_mem_cons]
    constructor
    · intro h
      have hinert : Inert E value := by
        rw [readPage, newlines_element hname hkey] at h
        exact inert_of_tokens hname hkey h
      refine ⟨hinert, ih.1 ?_⟩
      rw [readPage, newlines_element hname hkey, newlines_eq_self hinert.carriageReturn,
        tokens_element hname hkey hinert] at h
      exact List.append_cancel_left h
    · rintro ⟨hinert, hvalues⟩
      rw [readPage, newlines_element hname hkey, newlines_eq_self hinert.carriageReturn,
        tokens_element hname hkey hinert, ← readPage, ih.2 hvalues]

end Html
