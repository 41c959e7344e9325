import PicoConduit.Provision
import PicoConduit.FormBody
import Mathlib.Data.List.Infix

namespace PicoConduit
open Checked Heapless Utf8
set_option autoImplicit true

/-- An input that ends within a percent token. -/
def Dangling (input : Bytes) : Prop :=
  ∃ xs bytes tail, Decodes xs bytes ∧ input = xs ++ '%'.toUInt8 :: tail ∧ tail.length < 2

/-- A token is not cut, or it dangles. -/
theorem Token.cut (h : Token (front ++ rest) b) : front = [] ∨ rest = [] ∨ Dangling front := by
  rcases front with - | ⟨c, front⟩
  · exact .inl rfl
  rcases rest with - | ⟨d, rest⟩
  · exact .inr (.inl rfl)
  generalize ht : c :: front ++ d :: rest = t at h
  have hlen : (front.length + 1) + (rest.length + 1) = t.length := by
    rw [← ht, List.length_append, List.length_cons, List.length_cons]
  cases h with
  | plus =>
    rw [List.length_singleton] at hlen
    omega
  | literal =>
    rw [List.length_singleton] at hlen
    omega
  | percent =>
    obtain rfl := (List.cons.inj ht).1
    refine .inr (.inr ⟨[], [], front, .nil, rfl, ?_⟩)
    simp only [List.length_cons, List.length_nil] at hlen
    omega

/-- An encoded input is cut between two tokens or within one. -/
theorem Decodes.cut (h : Decodes input bytes) (hcut : input = front ++ rest) :
    (∃ bs cs, bytes = bs ++ cs ∧ Decodes front bs ∧ Decodes rest cs) ∨ Dangling front := by
  induction h generalizing front with
  | nil =>
    obtain ⟨rfl, rfl⟩ := List.append_eq_nil_iff.1 hcut.symm
    exact .inl ⟨[], [], rfl, .nil, .nil⟩
  | @cons t b input bytes ht hd ih =>
    rcases List.append_eq_append_iff.1 hcut with ⟨front', rfl, hrest⟩ | ⟨tail, rfl, hrest⟩
    · rcases ih hrest with ⟨bs, cs, rfl, hf, hr⟩ | ⟨xs, bs, tail, hf, rfl, hlt⟩
      · exact .inl ⟨b :: bs, cs, rfl, .cons ht hf, hr⟩
      · refine .inr ⟨t ++ xs, b :: bs, tail, .cons ht hf, ?_, hlt⟩
        rw [List.append_assoc]
    · rcases ht.cut with rfl | rfl | hdangling
      · exact .inl ⟨[], b :: bytes, rfl, .nil, hrest ▸ .cons ht hd⟩
      · rw [List.append_nil] at ht
        exact .inl ⟨[b], bytes, rfl, List.append_nil front ▸ .cons ht .nil, hrest ▸ hd⟩
      · exact .inr hdangling

theorem decodeUrlLoop_dangling (ho : o ≤ List.length out) (pre : Bytes) (h : Dangling input) :
    ∃ e, decodeUrlLoop (pre ++ input) out o pre.length = .ok (.error e) := by
  obtain ⟨xs, bytes, tail, hd, rfl, hlt⟩ := h
  induction hd generalizing pre out o with
  | nil =>
    have hne : '%'.toUInt8 ≠ '+'.toUInt8 := by decide
    have hend : pre.length + 2 ≥ (pre ++ '%'.toUInt8 :: tail).length := by
      rw [List.length_append, List.length_cons]
      omega
    refine ⟨.invalidPercentEncoding, ?_⟩
    rw [List.nil_append, decodeUrlLoop]
    simp only [List.length_append, List.length_cons] at hend
    simp [hne, hend]
  | @cons t b xs bytes ht _ ih =>
    rw [List.append_assoc, decodeUrlLoop_token ht]
    split
    · exact ih (by rw [List.length_set]; omega) _
    · exact ⟨_, rfl⟩

theorem decodeUrlEncoded_dangling (h : Dangling input) :
    ∃ e, decodeUrlEncoded input = .ok (.error e) := by
  have hroom : 0 ≤ (List.replicate 128 (0 : UInt8)).length := Nat.zero_le _
  obtain ⟨e, he⟩ := decodeUrlLoop_dangling hroom [] h
  rw [List.nil_append, List.length_nil] at he
  refine ⟨e, ?_⟩
  rw [decodeUrlEncoded, he]
  rfl

theorem Encodes.length_le (h : Encodes value enc) : enc.length ≤ 3 * value.length := by
  induction h with
  | nil => exact Nat.le_refl _
  | literal hb _ ih =>
    simp only [List.length_cons]
    omega
  | space _ ih =>
    simp only [List.length_cons]
    omega
  | percent h1 h2 _ ih =>
    simp only [List.length_cons]
    omega

theorem Decodes.eq_nil (h : Decodes input []) : input = [] := by
  cases h
  rfl

/-- The loop of `parse_connect_form` over the pairs of a text. -/
def FormFields.read (fields : FormFields) (text : List Char) : FormFields :=
  (text.splitOn '&').foldl FormFields.assign fields

theorem FormFields.read_pair (fields : FormFields) (h : '&' ∉ pair) :
    fields.read pair = fields.assign pair := by
  rw [FormFields.read, List.splitOn_eq_singleton h]
  rfl

theorem FormFields.read_append (fields : FormFields) (text rest : List Char) :
    fields.read (text ++ '&' :: rest) = (fields.read text).read rest := by
  rw [FormFields.read, List.splitOn_append_cons_self, List.foldl_append]
  rfl

/-- The fields give some credentials, through the copies to the owned buffers. -/
structure FormFields.Gives (fields : FormFields) (creds : Credentials) : Prop where
  ssid : ∃ s, fields.ssid = some s ∧ ownedCopy s = creds.ssid
  password : ∃ p, fields.password = some p ∧ ownedCopy p = creds.password
  mqttHost : ownedCopy fields.mqttHost = creds.mqttHost
  mqttPort : fields.mqttPort = creds.mqttPort

theorem connectReply_iff (text : String) (creds : Credentials) :
    connectReply (parseConnectForm text) = creds.reply ↔
      (FormFields.read {} text.toList).Gives creds := by
  simp only [parseConnectForm, FormFields.read]
  generalize (text.toList.splitOn '&').foldl FormFields.assign {} = fields
  constructor
  · intro h
    split at h
    · rename_i ssid password hs hp
      obtain ⟨h1, h2, h3, h4⟩ := HttpReply.provision.inj h
      exact ⟨⟨ssid, hs, h1⟩, ⟨password, hp, h2⟩, h3, h4⟩
    · cases h
  · rintro ⟨⟨s, hs, h1⟩, ⟨p, hp, h2⟩, h3, h4⟩
    simp only [hs, hp, connectReply, h1, h2, h3, h4]
    rfl

theorem ownedCopy_eq (h : (ownedCopy s : HString cap) = c) :
    s = c.toString ∨ c.toString = "" ∧ cap < s.utf8ByteSize := by
  rcases Nat.lt_or_ge cap s.utf8ByteSize with hlt | hle
  · rw [ownedCopy, HString.pushStr_empty_of_lt hlt] at h
    exact .inr ⟨h ▸ rfl, hlt⟩
  · exact .inl (h ▸ ((ownedCopy_iff s).2 hle).symm)

theorem ownedCopy_bounded (h : (ownedCopy s : HString cap) = c) (hs : s.utf8ByteSize ≤ cap) :
    s = c.toString := by
  rw [← h]
  exact ((ownedCopy_iff s).2 hs).symm

theorem ownedCopy_self (c : HString cap) : ownedCopy c.toString = c :=
  HString.ext_toString ((ownedCopy_iff c.toString).2 c.bounded)

theorem asBytes_infix_le (h : xs <:+: ys) :
    (asBytes (String.ofList xs)).length ≤ (asBytes (String.ofList ys)).length := by
  obtain ⟨as, bs, rfl⟩ := h
  simp only [asBytes_ofList_append, List.length_append]
  omega

/-- The loop cuts its values out of the text. -/
theorem FormFields.read_mqttHost_le {fields : FormFields} {text : List Char}
    (hf : fields.mqttHost.utf8ByteSize ≤ n) (ht : (asBytes (String.ofList text)).length ≤ n) :
    (fields.read text).mqttHost.utf8ByteSize ≤ n := by
  have hpairs : ∀ pair ∈ text.splitOn '&', (asBytes (String.ofList pair)).length ≤ n :=
    fun pair hp => Nat.le_trans (asBytes_infix_le (Delimited.infix_of_mem_splitOn hp)) ht
  rw [FormFields.read]
  generalize text.splitOn '&' = pairs at hpairs
  induction pairs generalizing fields with
  | nil => exact hf
  | cons pair pairs ih =>
    rw [List.forall_mem_cons] at hpairs
    refine ih ?_ hpairs.2
    have hval : (asBytes (String.ofList ((pair.dropWhile (· != '=')).drop 1))).length ≤ n :=
      Nat.le_trans (asBytes_infix_le
        ((List.drop_suffix 1 _).trans (List.dropWhile_suffix _)).isInfix) hpairs.1
    simp only [FormFields.assign, FormFields.set]
    split
    · exact hf
    · exact hf
    · exact hval
    · exact hf
    · exact hf

/-- Less than the name of a field is no field. -/
theorem FormFields.read_host_cut (fields : FormFields) (h : pair <+: "mqtt_hos".toList) :
    fields.read pair = fields := by
  have hcuts := (List.mem_inits _ _).2 h
  simp only [String.reduceToList, List.inits, List.map_cons, List.map_nil, List.mem_cons,
    List.not_mem_nil, or_false] at hcuts
  rcases hcuts with rfl | rfl | rfl | rfl | rfl | rfl | rfl | rfl | rfl <;> rfl

/-- A port that is not there changes nothing. -/
theorem FormFields.read_port_cut (fields : FormFields) (h : pair <+: "mqtt_port=".toList) :
    fields.read pair = fields := by
  have hcuts := (List.mem_inits _ _).2 h
  simp only [String.reduceToList, List.inits, List.map_cons, List.map_nil, List.mem_cons,
    List.not_mem_nil, or_false] at hcuts
  rcases hcuts with rfl | rfl | rfl | rfl | rfl | rfl | rfl | rfl | rfl | rfl | rfl <;> rfl

/-- A bare name stands for an empty value. -/
theorem FormFields.read_host_name (fields : FormFields) :
    fields.read "mqtt_host".toList = { fields with mqttHost := "" } := rfl

theorem FormFields.read_password_name (fields : FormFields) :
    fields.read "password".toList = { fields with password := some "" } := rfl

theorem FormFields.read_password (fields : FormFields) (h : '&' ∉ val) :
    fields.read ("password=".toList ++ val) =
      { fields with password := some (String.ofList val) } := by
  rw [fields.read_pair (by rw [List.mem_append, not_or]; exact ⟨by decide, h⟩)]
  rfl

theorem FormFields.read_host (fields : FormFields) (h : '&' ∉ val) :
    fields.read ("mqtt_host=".toList ++ val) =
      { fields with mqttHost := String.ofList val } := by
  rw [fields.read_pair (by rw [List.mem_append, not_or]; exact ⟨by decide, h⟩)]
  rfl

theorem FormFields.read_port (fields : FormFields) (h : '&' ∉ val) :
    fields.read ("mqtt_port=".toList ++ val) =
      { fields with
        mqttPort := ((parseUnsigned 65536 val).map UInt16.ofNat).getD fields.mqttPort } := by
  rw [fields.read_pair (by rw [List.mem_append, not_or]; exact ⟨by decide, h⟩)]
  rfl

theorem FormFields.read_manual (fields : FormFields) (h : '&' ∉ val) :
    fields.read ("ssid_manual=".toList ++ val) = fields := by
  rw [fields.read_pair (by rw [List.mem_append, not_or]; exact ⟨by decide, h⟩)]
  rfl

/-- What is left of a number's digits are the digits of a smaller number. -/
theorem toDigits_cut (h : d <+: Nat.toDigits 10 n) (hd : d ≠ []) (hne : d ≠ Nat.toDigits 10 n) :
    ∃ m, m < n ∧ d = Nat.toDigits 10 m := by
  induction n using Nat.strongRecOn with
  | _ n ih =>
    rcases Nat.lt_or_ge n 10 with hlt | hge
    · rw [Nat.toDigits_of_lt_base hlt] at h hne
      have hlast : d <+: [] ++ [Nat.digitChar n] := h
      rcases List.prefix_concat_iff.1 hlast with rfl | h
      · exact absurd rfl hne
      · exact absurd (List.prefix_nil.1 h) hd
    · rw [Nat.toDigits_of_base_le (by decide) hge] at h hne
      rcases List.prefix_concat_iff.1 h with rfl | h
      · exact absurd rfl hne
      · by_cases he : d = Nat.toDigits 10 (n / 10)
        · exact ⟨n / 10, by omega, he⟩
        · obtain ⟨m, hm, hdm⟩ := ih (n / 10) (by omega) h he
          exact ⟨m, by omega, hdm⟩

theorem utf8_digit (hc : Char.isDigit c = true) :
    (String.utf8EncodeChar c).length = 1 ∧ Plain (String.utf8EncodeChar c) := by
  have hall : ∀ m : Fin 10, (String.utf8EncodeChar (Char.ofNat (48 + m))).length = 1 ∧
      Plain (String.utf8EncodeChar (Char.ofNat (48 + m))) := by
    decide
  have hc' : 48 ≤ c.toNat ∧ c.toNat ≤ 57 := by
    simpa [Char.isDigit, UInt32.le_iff_toNat_le] using hc
  have he := hall ⟨c.toNat - 48, by omega⟩
  have hsum : 48 + (c.toNat - 48) = c.toNat := by omega
  simpa only [hsum, Char.ofNat_toNat] using he

theorem digits_plain (n : Nat) : Plain (asBytes (toString n)) := by
  have hd : (toString n).toList = Nat.toDigits 10 n := Nat.toList_repr
  rw [asBytes_eq_flatMap, hd, Plain, List.all_eq_true]
  intro b hb
  obtain ⟨c, hc, hb⟩ := List.mem_flatMap.1 hb
  have hplain := (utf8_digit (Nat.isDigit_of_mem_toDigits (by decide) (by decide) hc)).2
  exact List.all_eq_true.1 hplain b hb

theorem port_plain (n : Nat) : '&' ∉ Nat.toDigits 10 n := fun hm =>
  absurd (Nat.isDigit_of_mem_toDigits (by decide) (by decide) hm) (by decide)

theorem parseUnsigned_toDigits (h : n < bound) :
    parseUnsigned bound (Nat.toDigits 10 n) = some n := by
  have hs := parseUnsigned_toString h
  rwa [show (toString n).toList = Nat.toDigits 10 n from Nat.toList_repr] at hs

/-- A port whose digits are cut is another port. -/
theorem port_cut (port : UInt16) (h : d <+: Nat.toDigits 10 port.toNat) (hd : d ≠ [])
    (hne : d ≠ Nat.toDigits 10 port.toNat) :
    ((parseUnsigned 65536 d).map UInt16.ofNat).getD old ≠ port := by
  obtain ⟨m, hm, rfl⟩ := toDigits_cut h hd hne
  have hlt := port.toNat_lt
  rw [parseUnsigned_toDigits (by omega), Option.map_some, Option.getD_some]
  intro he
  rw [← he, UInt16.toNat_ofNat'] at hm
  omega

theorem length_literal (hs : cs.all (fun c => (String.utf8EncodeChar c).length == 1) = true) :
    (asBytes (String.ofList cs)).length = cs.length := by
  induction cs with
  | nil => rfl
  | cons c cs ih =>
    rw [List.all_cons, Bool.and_eq_true, beq_iff_eq] at hs
    rw [asBytes_cons, List.length_append, hs.1, ih hs.2, List.length_cons, Nat.add_comm]

theorem prefix_literal (hs : cs.all (fun c => (String.utf8EncodeChar c).length == 1) = true)
    (h : z <+: asBytes (String.ofList cs)) : ∃ t, t <+: cs ∧ z = asBytes (String.ofList t) := by
  induction cs generalizing z with
  | nil => exact ⟨[], List.nil_prefix, List.prefix_nil.1 h⟩
  | cons c cs ih =>
    rw [List.all_cons, Bool.and_eq_true, beq_iff_eq] at hs
    obtain ⟨b, hb⟩ := List.length_eq_one_iff.1 hs.1
    rw [asBytes_cons, hb, List.singleton_append] at h
    rcases List.prefix_cons_iff.1 h with rfl | ⟨z, rfl, hz⟩
    · exact ⟨[], List.nil_prefix, rfl⟩
    · obtain ⟨t, ht, rfl⟩ := ih hs.2 hz
      refine ⟨c :: t, List.cons_prefix_cons.2 ⟨rfl, ht⟩, ?_⟩
      rw [asBytes_cons, hb]
      rfl

/-- Pairs that do not begin with the name of the password give none. -/
theorem FormFields.read_no_password {fields : FormFields} (hf : fields.password = none)
    (h : ∀ pair ∈ text.splitOn '&', ¬ "password".toList <+: pair) :
    (fields.read text).password = none := by
  rw [FormFields.read]
  generalize text.splitOn '&' = pairs at h
  induction pairs generalizing fields with
  | nil => exact hf
  | cons pair pairs ih =>
    rw [List.forall_mem_cons] at h
    refine ih ?_ h.2
    have hkey : String.ofList (pair.takeWhile (· != '=')) ≠ "password" := by
      intro he
      apply h.1
      rw [← he, String.toList_ofList]
      exact List.takeWhile_prefix _
    simp only [FormFields.assign, FormFields.set]
    split
    · exact hf
    · contradiction
    · exact hf
    · exact hf
    · exact hf

end PicoConduit
