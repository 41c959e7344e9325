import PicoConduit.Delimited
import PicoConduit.Portal
import Mathlib.Data.List.Nodup
import Mathlib.Data.List.Perm.Basic

namespace PicoConduit
open Checked Utf8
set_option autoImplicit true

/-- One step of the percent encoding: the bytes read, and the byte they stand for. -/
inductive Token : Bytes → UInt8 → Prop
  | plus : Token ['+'.toUInt8] ' '.toUInt8
  | percent : hexNibble c1 = .ok hi → hexNibble c2 = .ok lo →
      Token ['%'.toUInt8, c1, c2] ((hi <<< 4) ||| lo)
  | literal : b ≠ '+'.toUInt8 → b ≠ '%'.toUInt8 → Token [b] b

/-- A percent-encoded input, and the bytes that its tokens stand for. -/
inductive Decodes : Bytes → Bytes → Prop
  | nil : Decodes [] []
  | cons : Token t b → Decodes rest bytes → Decodes (t ++ rest) (b :: bytes)

theorem Decodes.append (h : Decodes xs ys) (h' : Decodes xs' ys') :
    Decodes (xs ++ xs') (ys ++ ys') := by
  induction h with
  | nil => exact h'
  | cons ht _ ih =>
    rw [List.append_assoc]
    exact .cons ht ih

/-- Bytes that decode to themselves. -/
def Plain (bs : Bytes) : Prop := bs.all (fun b => b != '+'.toUInt8 && b != '%'.toUInt8) = true

instance : DecidablePred Plain := fun bs =>
  inferInstanceAs (Decidable (bs.all (fun b => b != '+'.toUInt8 && b != '%'.toUInt8) = true))

theorem Decodes.plain (h : Plain bs) : Decodes bs bs := by
  induction bs with
  | nil => exact .nil
  | cons b bs ih =>
    simp only [Plain, List.all_cons, Bool.and_eq_true, bne_iff_ne] at h
    exact .cons (.literal h.1.1 h.1.2) (ih h.2)

theorem decodeUrlLoop_end (input out : Bytes) (o : Nat) :
    decodeUrlLoop input out o input.length = .ok (.ok (o, out)) := by
  rw [decodeUrlLoop, dif_neg (Nat.lt_irrefl _)]
  rfl

/-- The loop takes one token, or stops where the output buffer is full. -/
theorem decodeUrlLoop_token (ht : Token t b) (pre rest : Bytes) :
    decodeUrlLoop (pre ++ (t ++ rest)) out o pre.length =
      if o < out.length then
        decodeUrlLoop (pre ++ t ++ rest) (out.set o b) (o + 1) (pre ++ t).length
      else .ok (.error .malformedFormBody) := by
  have hne : '%'.toUInt8 ≠ '+'.toUInt8 := by decide
  rw [decodeUrlLoop]
  rcases Nat.lt_or_ge o out.length with ho | ho
  · cases ht with
    | plus => simp [ho, Nat.not_le.2 ho, store_of_lt]
    | percent h1 h2 => simp [ho, Nat.not_le.2 ho, store_of_lt, load, h1, h2, hne]
    | literal hp hq => simp [ho, Nat.not_le.2 ho, store_of_lt, hp, hq]
  · cases ht with
    | plus => simp [ho, Nat.not_lt.2 ho]
    | percent h1 h2 => simp [ho, Nat.not_lt.2 ho, load, h1, h2, hne]
    | literal hp hq => simp [ho, Nat.not_lt.2 ho, hp, hq]

theorem decodeUrlLoop_fits (h : Decodes rest bytes) (pre : Bytes)
    (hfit : o + bytes.length ≤ out.length) :
    decodeUrlLoop (pre ++ rest) out o pre.length =
      .ok (.ok (o + bytes.length, out.take o ++ (bytes ++ out.drop (o + bytes.length)))) := by
  induction h generalizing pre out o with
  | nil =>
    rw [List.append_nil, decodeUrlLoop_end, List.length_nil, List.nil_append, Nat.add_zero,
      List.take_append_drop]
  | @cons t b rest bytes ht _ ih =>
    rw [List.length_cons] at hfit
    have ho : o < out.length := by omega
    rw [decodeUrlLoop_token ht, if_pos ho, ih _ (by rw [List.length_set]; omega), List.length_cons,
      List.take_add_one, List.take_set_of_le (Nat.le_refl o), List.drop_set_of_lt (by omega)]
    simp [ho, Nat.add_comm, Nat.add_left_comm]

theorem decodeUrlLoop_full (h : Decodes rest bytes) (pre : Bytes) (ho : o ≤ out.length)
    (hfull : out.length < o + bytes.length) :
    decodeUrlLoop (pre ++ rest) out o pre.length = .ok (.error .malformedFormBody) := by
  induction h generalizing pre out o with
  | nil =>
    rw [List.length_nil] at hfull
    omega
  | @cons t b rest bytes ht _ ih =>
    rw [decodeUrlLoop_token ht]
    split
    · rw [List.length_cons] at hfull
      exact ih _ (by rw [List.length_set]; omega) (by rw [List.length_set]; omega)
    · rfl

/-- An input that decodes is accepted when its tokens spell a text of at most 128 bytes. -/
theorem decodeUrlEncoded_iff (h : Decodes input bytes) :
    decodeUrlEncoded input = .ok (.ok text) ↔ bytes = asBytes text ∧ bytes.length ≤ 128 := by
  have hlen : (List.replicate 128 (0 : UInt8)).length = 128 := List.length_replicate
  by_cases hfit : bytes.length ≤ 128
  · have hroom : 0 + bytes.length ≤ (List.replicate 128 (0 : UInt8)).length := by omega
    have hl := decodeUrlLoop_fits h [] hroom
    rw [List.nil_append, List.length_nil, List.take_zero, List.nil_append, Nat.zero_add] at hl
    have hs : slice (bytes ++ (List.replicate 128 (0 : UInt8)).drop bytes.length) 0 bytes.length =
        .ok bytes := by
      rw [slice_zero (by simp), List.take_left]
    rw [decodeUrlEncoded, hl, and_iff_left hfit, ← fromUtf8_eq_some]
    simp only [ok_bind, hs]
    split <;> simp [*]
  · have hfull : (List.replicate 128 (0 : UInt8)).length < 0 + bytes.length := by omega
    have hl := decodeUrlLoop_full h [] (Nat.zero_le _) hfull
    rw [List.nil_append, List.length_nil] at hl
    simp only [decodeUrlEncoded, hl, ok_bind, pure_eq, Except.ok.injEq, reduceCtorEq, hfit,
      and_false]

/-- The hexadecimal digits of a number below sixteen, in either case. -/
def IsHexDigit (n : Nat) (c : UInt8) : Prop :=
  c = n.digitChar.toUInt8 ∨ c = n.digitChar.toUpper.toUInt8

def reserved : Bytes := ['&'.toUInt8, '='.toUInt8, '+'.toUInt8, '%'.toUInt8]

/-- A form value and one of its encodings: all but the reserved bytes may stand for themselves, a
plus sign for a space, and two digits for any byte. -/
inductive Encodes : Bytes → Bytes → Prop
  | nil : Encodes [] []
  | literal : b ∉ reserved → Encodes value enc → Encodes (b :: value) (b :: enc)
  | space : Encodes value enc → Encodes (' '.toUInt8 :: value) ('+'.toUInt8 :: enc)
  | percent : IsHexDigit (b.toNat / 16) c1 → IsHexDigit (b.toNat % 16) c2 → Encodes value enc →
      Encodes (b :: value) ('%'.toUInt8 :: c1 :: c2 :: enc)

theorem Encodes.literals (bs : Bytes) (h : bs.all (fun b => b ∉ reserved) = true) :
    Encodes bs bs := by
  induction bs with
  | nil => exact .nil
  | cons b bs ih =>
    simp only [List.all_cons, Bool.and_eq_true, decide_eq_true_eq] at h
    exact .literal h.1 (ih h.2)

theorem Encodes.append (h : Encodes xs ys) (h' : Encodes xs' ys') :
    Encodes (xs ++ xs') (ys ++ ys') := by
  induction h with
  | nil => exact h'
  | literal hb _ ih => exact .literal hb ih
  | space _ ih => exact .space ih
  | percent h1 h2 _ ih => exact .percent h1 h2 ih

theorem hexNibble_of_isHexDigit (hn : n < 16) (h : IsHexDigit n c) :
    hexNibble c = .ok (UInt8.ofNat n) := by
  have hd : ∀ n : Fin 16, hexNibble n.1.digitChar.toUInt8 = .ok (UInt8.ofNat n) ∧
      hexNibble n.1.digitChar.toUpper.toUInt8 = .ok (UInt8.ofNat n) := by
    decide +kernel
  obtain rfl | rfl := h
  · exact (hd ⟨n, hn⟩).1
  · exact (hd ⟨n, hn⟩).2

theorem div_sixteen_lt (b : UInt8) : b.toNat / 16 < 16 :=
  Nat.div_lt_of_lt_mul b.toNat_lt

theorem nibbles (b : UInt8) :
    (UInt8.ofNat (b.toNat / 16) <<< 4) ||| UInt8.ofNat (b.toNat % 16) = b := by
  have h : ∀ n : Fin 256, (UInt8.ofNat (n.1 / 16) <<< 4) ||| UInt8.ofNat (n.1 % 16) =
      UInt8.ofFin n := by
    decide +kernel
  exact h b.toFin

theorem Encodes.decodes (h : Encodes value enc) : Decodes enc value := by
  induction h with
  | nil => exact .nil
  | literal hb _ ih =>
    simp only [reserved, List.mem_cons, not_or] at hb
    exact .cons (.literal hb.2.2.1 hb.2.2.2.1) ih
  | space _ ih => exact .cons .plus ih
  | percent h1 h2 _ ih =>
    have ht := Token.percent (hexNibble_of_isHexDigit (div_sixteen_lt _) h1)
      (hexNibble_of_isHexDigit (Nat.mod_lt _ (by decide)) h2)
    rw [nibbles] at ht
    exact .cons ht ih

/-- The fields of a form, each with its value as text. -/
def ConnectForm.fields (form : ConnectForm) : List (String × String) :=
  [("ssid", form.ssid), ("password", form.password), ("mqtt_host", form.mqttHost),
    ("mqtt_port", toString form.mqttPort.toNat)]

/-- A field with its value encoded. -/
def FieldBody (field : String × String) (part : Bytes) : Prop :=
  ∃ enc, Encodes (asBytes field.2) enc ∧ part = asBytes field.1 ++ '='.toUInt8 :: enc

/-- An `application/x-www-form-urlencoded` body for a form: its fields in some order. -/
def FormBody (form : ConnectForm) (body : Bytes) : Prop :=
  ∃ fields segments, fields.Perm form.fields ∧ List.Forall₂ FieldBody fields segments ∧
    body = ['&'.toUInt8].intercalate segments

/-- The text of a field before it is encoded. -/
def fieldText (field : String × String) : List Char := field.1.toList ++ '=' :: field.2.toList

theorem asBytes_cons (c : Char) (cs : List Char) :
    asBytes (String.ofList (c :: cs)) = String.utf8EncodeChar c ++ asBytes (String.ofList cs) := by
  simp only [asBytes_ofList, List.flatMap_cons]

theorem asBytes_ofList_append (xs ys : List Char) : asBytes (String.ofList (xs ++ ys)) =
    asBytes (String.ofList xs) ++ asBytes (String.ofList ys) := by
  simp only [asBytes_ofList, List.flatMap_append]

theorem asBytes_intercalate (lines : List (List Char)) :
    asBytes (String.ofList (['&'].intercalate lines)) =
      ['&'.toUInt8].intercalate (lines.map fun line => asBytes (String.ofList line)) := by
  induction lines with
  | nil => rfl
  | cons line lines ih =>
    cases lines with
    | nil => simp only [List.map_cons, List.map_nil, List.intercalate_singleton]
    | cons line' lines =>
      simp only [List.map_cons] at ih ⊢
      rw [List.intercalate_cons_cons, List.intercalate_cons_cons, ← ih, asBytes_ofList_append,
        asBytes_ofList_append]
      rfl

theorem Decodes.intercalate (h : List.Forall₂ Decodes segments texts) :
    Decodes (['&'.toUInt8].intercalate segments) (['&'.toUInt8].intercalate texts) := by
  induction h with
  | nil => exact .nil
  | cons hd htl ih =>
    cases htl with
    | nil => simpa only [List.intercalate_singleton] using hd
    | cons hd' htl =>
      rw [List.intercalate_cons_cons, List.intercalate_cons_cons]
      exact (hd.append (.plain (by decide))).append ih

theorem FieldBody.decodes (h : FieldBody field part)
    (hn : Plain (asBytes field.1)) :
    Decodes part (asBytes (String.ofList (fieldText field))) := by
  obtain ⟨enc, he, rfl⟩ := h
  rw [fieldText, asBytes_ofList_append, String.ofList_toList, asBytes_cons, String.ofList_toList]
  exact (Decodes.plain hn).append (.cons (.literal (by decide) (by decide)) he.decodes)

theorem name_literal (h : field ∈ ConnectForm.fields form) :
    '=' ∉ field.1.toList ∧ '&' ∉ field.1.toList ∧ Plain (asBytes field.1) := by
  simp only [ConnectForm.fields, List.mem_cons, List.not_mem_nil, or_false] at h
  obtain rfl | rfl | rfl | rfl := h <;> simp only <;> decide

/-- Fields that are encoded and joined decode to their text, joined. -/
theorem fields_decode {fields : List (String × String)} (hp : fields.Perm (ConnectForm.fields form))
    (hs : List.Forall₂ FieldBody fields segments) : Decodes (['&'.toUInt8].intercalate segments)
      (asBytes (String.ofList (['&'].intercalate (fields.map fieldText)))) := by
  rw [asBytes_intercalate, List.map_map]
  apply Decodes.intercalate
  rw [List.forall₂_map_right_iff]
  have hn : ∀ field ∈ fields, Plain (asBytes field.1) :=
    fun field hf => (name_literal (hp.subset hf)).2.2
  exact ((List.forall₂_and_left _ _).2 ⟨hn, hs⟩).flip.imp fun _ _ h => h.2.decodes h.1

theorem FormFields.assign_fieldText (fields : FormFields) (h : '=' ∉ field.1.toList) :
    fields.assign (fieldText field) = fields.set field.1 field.2.toList := by
  have hne : ∀ c ∈ field.1.toList, (c != '=') = true := by
    intro c hc
    rw [bne_iff_ne]
    rintro rfl
    exact h hc
  rw [assign, fieldText, List.takeWhile_append_of_pos hne, List.dropWhile_append_of_pos hne]
  simp

theorem FormFields.set_comm (fields : FormFields) (h : key ≠ key') :
    (fields.set key val).set key' val' = (fields.set key' val').set key val := by
  simp only [set]
  split <;> split <;> simp_all

theorem parseUnsigned_digits (hne : cs ≠ []) (hall : ∀ c ∈ cs, c.isDigit) :
    parseUnsigned bound cs =
      if Nat.ofDigitChars 10 cs 0 < bound then some (Nat.ofDigitChars 10 cs 0) else none := by
  cases cs with
  | nil => exact absurd rfl hne
  | cons c cs =>
    have hplus : c ≠ '+' := by
      rintro rfl
      exact absurd (hall _ List.mem_cons_self) (by decide)
    have hd : (c :: cs).all Char.isDigit := List.all_eq_true.2 hall
    simp only [parseUnsigned]
    split
    · simp_all
    · rw [if_pos ⟨hne, hd⟩]

theorem parseUnsigned_toString (h : n < bound) :
    parseUnsigned bound (toString n).toList = some n := by
  have hd : (toString n).toList = Nat.toDigits 10 n := Nat.toList_repr
  rw [hd, parseUnsigned_digits Nat.toDigits_ne_nil fun c hc =>
    Nat.isDigit_of_mem_toDigits (by decide) (by decide) hc, Nat.ofDigitChars_ten_toDigits, if_pos h]

theorem ConnectForm.fields_injOn (form : ConnectForm) {x y : String × String}
    (hx : x ∈ form.fields) (hy : y ∈ form.fields) (h : x.1 = y.1) : x = y := by
  have hn : (form.fields.map Prod.fst).Nodup := by
    simp only [fields, List.map_cons, List.map_nil]
    decide
  exact List.inj_on_of_nodup_map hn hx hy h

/-- Assigning the fields of a form in some order gives back its values. -/
theorem FormFields.foldl_set (form : ConnectForm) {fields : List (String × String)}
    (h : fields.Perm form.fields) :
    fields.foldl (fun acc field => acc.set field.1 field.2.toList) ({} : FormFields) =
      ⟨some form.ssid, some form.password, form.mqttHost, form.mqttPort⟩ := by
  rw [h.foldl_eq' fun x hx y hy acc => ?_]
  · simp only [ConnectForm.fields, List.foldl_cons, List.foldl_nil, set, String.ofList_toList,
      parseUnsigned_toString form.mqttPort.toNat_lt]
    simp
  · by_cases he : x.1 = y.1
    · rw [form.fields_injOn (h.subset hx) (h.subset hy) he]
    · exact set_comm acc he

/-- No value that was cut out of the text holds the separator. -/
def FormFields.Separated (fields : FormFields) : Prop :=
  (∀ v, fields.ssid = some v → '&' ∉ v.toList) ∧ (∀ v, fields.password = some v → '&' ∉ v.toList) ∧
    '&' ∉ fields.mqttHost.toList

theorem FormFields.Separated.set {fields : FormFields} (h : fields.Separated)
    (hv : '&' ∉ val) (key : String) : (fields.set key val).Separated := by
  obtain ⟨h1, h2, h3⟩ := h
  have hv' : '&' ∉ (String.ofList val).toList := by rwa [String.toList_ofList]
  unfold FormFields.set
  split
  · exact ⟨fun v hs => Option.some.inj hs ▸ hv', h2, h3⟩
  · exact ⟨h1, fun v hs => Option.some.inj hs ▸ hv', h3⟩
  · exact ⟨h1, h2, hv'⟩
  · exact ⟨h1, h2, h3⟩
  · exact ⟨h1, h2, h3⟩

theorem FormFields.Separated.foldl_assign {fields : FormFields} {pairs : List (List Char)}
    (h : fields.Separated) (hp : ∀ pair ∈ pairs, '&' ∉ pair) :
    (pairs.foldl FormFields.assign fields).Separated := by
  induction pairs generalizing fields with
  | nil => exact h
  | cons pair pairs ih =>
    rw [List.forall_mem_cons] at hp
    have hv : '&' ∉ (pair.dropWhile (· != '=')).drop 1 := fun hm =>
      hp.1 ((List.dropWhile_suffix _).mem (List.mem_of_mem_drop hm))
    exact ih (h.set hv _) hp.2

theorem FormFields.assigned_separated (text : List Char) :
    ((text.splitOn '&').foldl FormFields.assign {}).Separated := by
  apply FormFields.Separated.foldl_assign
  · exact ⟨by simp, by simp, by simp⟩
  · exact fun pair hp => Delimited.not_mem_of_mem_splitOn hp

theorem parseConnectForm_separated (h : parseConnectForm text = .ok form) :
    '&' ∉ form.ssid.toList ∧ '&' ∉ form.password.toList ∧ '&' ∉ form.mqttHost.toList := by
  have hs := FormFields.assigned_separated text.toList
  simp only [parseConnectForm] at h
  split at h
  · cases h
    exact ⟨hs.1 _ ‹_›, hs.2.1 _ ‹_›, hs.2.2⟩
  · cases h

theorem fieldText_separated (hf : field ∈ ConnectForm.fields form)
    (h : '&' ∉ form.ssid.toList ∧ '&' ∉ form.password.toList ∧ '&' ∉ form.mqttHost.toList) :
    '&' ∉ fieldText field := by
  have hport : '&' ∉ (toString form.mqttPort.toNat).toList := by
    rw [show (toString form.mqttPort.toNat).toList = Nat.toDigits 10 form.mqttPort.toNat from
      Nat.toList_repr]
    exact fun hm => absurd (Nat.isDigit_of_mem_toDigits (by decide) (by decide) hm) (by decide)
  have hval : '&' ∉ field.2.toList := by
    simp only [ConnectForm.fields, List.mem_cons, List.not_mem_nil, or_false] at hf
    obtain rfl | rfl | rfl | rfl := hf
    exacts [h.1, h.2.1, h.2.2, hport]
  rw [fieldText, List.mem_append, List.mem_cons, not_or, not_or]
  exact ⟨(name_literal hf).2.1, by decide, hval⟩

theorem parseConnectForm_fieldText {fields : List (String × String)}
    (h : fields.Perm (ConnectForm.fields form)) (hsep : ∀ field ∈ fields, '&' ∉ fieldText field) :
    parseConnectForm (String.ofList (['&'].intercalate (fields.map fieldText))) = .ok form := by
  have hne : fields.map fieldText ≠ [] := by
    rintro hn
    obtain rfl := List.map_eq_nil_iff.1 hn
    cases h.symm.eq_nil
  have hs : (['&'].intercalate (fields.map fieldText)).splitOn '&' = fields.map fieldText :=
    List.splitOn_intercalate '&' (List.forall_mem_map.2 hsep) hne
  have hfold : (fields.map fieldText).foldl FormFields.assign {} =
      fields.foldl (fun acc field => acc.set field.1 field.2.toList) ({} : FormFields) := by
    rw [List.foldl_map]
    apply List.foldl_ext _ _ _
    intro acc field hf
    exact FormFields.assign_fieldText acc (name_literal (h.subset hf)).1
  simp only [parseConnectForm, String.toList_ofList, hs, hfold, FormFields.foldl_set form h]

/-- The portal reads back what was submitted exactly when no value holds an ampersand. -/
theorem credentials_read_back_iff (hbody : FormBody form body)
    (hdec : decodeUrlEncoded body = .ok (.ok text)) :
    parseConnectForm text = .ok form ↔
      '&' ∉ form.ssid.toList ∧ '&' ∉ form.password.toList ∧ '&' ∉ form.mqttHost.toList := by
  obtain ⟨fields, segments, hp, hs, rfl⟩ := hbody
  obtain rfl := asBytes_injective ((decodeUrlEncoded_iff (fields_decode hp hs)).1 hdec).1
  refine ⟨parseConnectForm_separated, fun h => ?_⟩
  exact parseConnectForm_fieldText hp fun field hf => fieldText_separated (hp.subset hf) h

def homeForm (password : String) : ConnectForm := ⟨"My Network", password, "", 1883⟩

def homeSegments (enc : Bytes) : List Bytes :=
  [asBytes "ssid=My+Network", asBytes "password=" ++ enc, asBytes "mqtt_host=",
    asBytes "mqtt_port=1883"]

def homeBody (enc : Bytes) : Bytes := ['&'.toUInt8].intercalate (homeSegments enc)

def homeText (password : String) : String :=
  String.ofList (['&'].intercalate ((homeForm password).fields.map fieldText))

theorem homeSegments_fields (h : Encodes (asBytes password) enc) :
    List.Forall₂ FieldBody (homeForm password).fields (homeSegments enc) := by
  have hssid : Encodes (asBytes "My" ++ (' '.toUInt8 :: asBytes "Network"))
      (asBytes "My" ++ ('+'.toUInt8 :: asBytes "Network")) :=
    (Encodes.literals _ (by decide)).append (.space (.literals _ (by decide)))
  have hport : Encodes (asBytes (toString (1883 : UInt16).toNat)) (asBytes "1883") := by
    rw [show toString (1883 : UInt16).toNat = "1883" by decide]
    exact .literals _ (by decide)
  exact .cons ⟨_, hssid, rfl⟩ (.cons ⟨enc, h, rfl⟩
    (.cons ⟨[], .nil, rfl⟩ (.cons ⟨_, hport, rfl⟩ .nil)))

theorem homeBody_formBody (h : Encodes (asBytes password) enc) :
    FormBody (homeForm password) (homeBody enc) :=
  ⟨_, _, .refl _, homeSegments_fields h, rfl⟩

theorem homeBody_decoded (h : Encodes (asBytes password) enc)
    (hl : (asBytes (homeText password)).length ≤ 128) :
    decodeUrlEncoded (homeBody enc) = .ok (.ok (homeText password)) :=
  (decodeUrlEncoded_iff (fields_decode (.refl _) (homeSegments_fields h))).2 ⟨rfl, hl⟩

theorem hunter_encodes : Encodes (asBytes "hunter2!") (asBytes "hunter2%21") :=
  have hmark : Encodes ['!'.toUInt8] ['%'.toUInt8, '2'.toUInt8, '1'.toUInt8] :=
    .percent (.inl rfl) (.inl rfl) .nil
  (Encodes.literals (asBytes "hunter2") (by decide)).append hmark

theorem hunter_read_back : parseConnectForm (homeText "hunter2!") = .ok (homeForm "hunter2!") :=
  (credentials_read_back_iff (homeBody_formBody hunter_encodes)
    (homeBody_decoded hunter_encodes (by decide))).2 (by decide)

theorem ampersand_encodes : Encodes (asBytes "p&w") (asBytes "p%26w") :=
  .literal (by decide) (.percent (.inl rfl) (.inl rfl) (.literal (by decide) .nil))

/-- The password that holds an ampersand is cut there. -/
theorem ampersand_password_cut : FormBody (homeForm "p&w") (homeBody (asBytes "p%26w")) ∧
    decodeUrlEncoded (homeBody (asBytes "p%26w")) = .ok (.ok (homeText "p&w")) ∧
    parseConnectForm (homeText "p&w") = .ok (homeForm "p") ∧
    parseConnectForm (homeText "p&w") ≠ .ok (homeForm "p&w") := by
  have hp : parseConnectForm (homeText "p&w") = .ok (homeForm "p") := by decide +kernel
  refine ⟨homeBody_formBody ampersand_encodes, homeBody_decoded ampersand_encodes (by decide), hp,
    fun h => ?_⟩
  rw [hp] at h
  exact absurd (Except.ok.inj h) (by decide)

end PicoConduit
