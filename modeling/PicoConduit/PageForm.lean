import PicoConduit.CutForm
import PicoConduit.RequestBody

namespace PicoConduit
open Checked Heapless Utf8
set_option autoImplicit true

/-- Encoded bytes, and the text that they are decoded to. -/
def Reads (enc : Bytes) (text : List Char) : Prop :=
  Decodes enc (asBytes (String.ofList text))

theorem Reads.append (h : Reads xs s) (h' : Reads ys t) : Reads (xs ++ ys) (s ++ t) := by
  rw [Reads, asBytes_ofList_append]
  exact Decodes.append h h'

theorem Reads.plain (s : String) (h : Plain (asBytes s)) : Reads (asBytes s) s.toList := by
  rw [Reads, String.ofList_toList]
  exact .plain h

theorem Encodes.reads (h : Encodes (asBytes s) enc) : Reads enc s.toList := by
  rw [Reads, String.ofList_toList]
  exact h.decodes

/-- The form of the page as a browser submits it: the network that is selected among the options,
the other values, and the bytes that they are encoded to. -/
structure Submission where
  ssid : HString 32
  ssidManual : String
  password : String
  mqttHost : String
  mqttPort : UInt16
  encSsid : Bytes
  encManual : Bytes
  encPassword : Bytes
  encHost : Bytes
  ssid_encoded : Encodes (asBytes ssid.toString) encSsid
  manual_encoded : Encodes (asBytes ssidManual) encManual
  password_encoded : Encodes (asBytes password) encPassword
  host_encoded : Encodes (asBytes mqttHost) encHost

/-- The network that is meant: the manual one where it is not blank. -/
def Submission.effectiveSsid (f : Submission) : String :=
  if f.ssidManual.toList.all isWhitespace then f.ssid.toString else f.ssidManual

/-- The body up to the password. -/
def Submission.front (f : Submission) : Bytes :=
  (asBytes "ssid=" ++ f.encSsid) ++ (asBytes "&ssid_manual=" ++ f.encManual)

def Submission.portField (f : Submission) : Bytes :=
  asBytes "&mqtt_port=" ++ asBytes (toString f.mqttPort.toNat)

def Submission.hostField (f : Submission) : Bytes := asBytes "&mqtt_host=" ++ f.encHost

def Submission.passwordField (f : Submission) : Bytes := asBytes "&password=" ++ f.encPassword

/-- The body of the request, with the fields in the order of the page. -/
def Submission.body (f : Submission) : Bytes :=
  f.front ++ (f.passwordField ++ (f.hostField ++ f.portField))

def Submission.frontText (f : Submission) : List Char :=
  ("ssid=".toList ++ f.ssid.toString.toList) ++ ("&ssid_manual=".toList ++ f.ssidManual.toList)

def Submission.passwordText (f : Submission) : List Char :=
  "&password=".toList ++ f.password.toList

def Submission.hostText (f : Submission) : List Char := "&mqtt_host=".toList ++ f.mqttHost.toList

/-- The body as text. -/
def Submission.text (f : Submission) : List Char :=
  f.frontText ++ (f.passwordText ++ (f.hostText ++
    ("&mqtt_port=".toList ++ (toString f.mqttPort.toNat).toList)))

/-- The fields of the form after the selected network alone. -/
def Submission.selected (f : Submission) : FormFields :=
  FormFields.read {} ("ssid=".toList ++ f.ssid.toString.toList)

/-- The ends of a cut body that lose nothing: what is left after the network, encoded and as
text. -/
inductive Submission.HarmlessCut (f : Submission) : Bytes → List Char → Prop
  | name (hp : f.password = "") (hh : f.mqttHost = f.selected.mqttHost) :
      HarmlessCut f (asBytes "&password") "&password".toList
  | password (hh : f.mqttHost = f.selected.mqttHost) (hs : s <+: "&mqtt_hos".toList) :
      HarmlessCut f (f.passwordField ++ asBytes (String.ofList s)) (f.passwordText ++ s)
  | noHost (hh : f.mqttHost = "") :
      HarmlessCut f (f.passwordField ++ asBytes "&mqtt_host")
        (f.passwordText ++ "&mqtt_host".toList)
  | host (hs : s <+: "&mqtt_port=".toList) :
      HarmlessCut f (f.passwordField ++ (f.hostField ++ asBytes (String.ofList s)))
        (f.passwordText ++ (f.hostText ++ s))

/-- The form gets through: no ampersands, the right network selected, and room for all of the
body or for what matters of it. -/
structure Submission.GetsThrough (f : Submission) : Prop where
  password : '&' ∉ f.password.toList
  mqttHost : '&' ∉ f.mqttHost.toList
  ssid : f.selected.ssid = some f.effectiveSsid
  room : f.body.length ≤ 256 ∧ (asBytes (String.ofList f.text)).length ≤ 128 ∨
    256 < f.body.length ∧ f.mqttPort = f.selected.mqttPort ∧
      ∃ enc text, f.HarmlessCut enc text ∧ f.body.take 256 = f.front ++ enc ∧
        (asBytes (String.ofList (f.frontText ++ text))).length ≤ 128

theorem formReply_decoded (enc : Bytes) (creds : Credentials) :
    formReply enc = .ok (some creds.reply) ↔ ∃ text : String,
      decodeUrlEncoded enc = .ok (.ok text) ∧ (FormFields.read {} text.toList).Gives creds := by
  obtain ⟨r, hr, -⟩ := decodeUrlEncoded_yields enc
  rw [formReply, hr, ok_bind]
  cases r with
  | error e => simp [Credentials.reply]
  | ok text => simp [← connectReply_iff]

theorem formReply_iff (h : Reads enc text) (creds : Credentials) :
    formReply enc = .ok (some creds.reply) ↔
      (asBytes (String.ofList text)).length ≤ 128 ∧ (FormFields.read {} text).Gives creds := by
  rw [formReply_decoded]
  constructor
  · rintro ⟨text', hdecode, hgives⟩
    obtain ⟨hbytes, hlen⟩ := (decodeUrlEncoded_iff h).1 hdecode
    rw [← asBytes_injective hbytes, String.toList_ofList] at hgives
    exact ⟨hlen, hgives⟩
  · rintro ⟨hlen, hgives⟩
    refine ⟨String.ofList text, (decodeUrlEncoded_iff h).2 ⟨rfl, hlen⟩, ?_⟩
    rwa [String.toList_ofList]

theorem Reads.dangling (h : Reads front s) (hd : Dangling enc) : Dangling (front ++ enc) := by
  obtain ⟨xs, bytes, tail, hx, rfl, hlt⟩ := hd
  exact ⟨front ++ xs, _, tail, Decodes.append h hx, (List.append_assoc _ _ _).symm, hlt⟩

/-- A form that is taken from an input whose last value is cut comes from a beginning of that
value. -/
theorem formReply_cut (h : Reads front s) (hv : Reads (enc ++ rest) text)
    (hr : formReply (front ++ enc) = .ok (some (Credentials.reply creds))) :
    ∃ t, t <+: text ∧ Reads enc t ∧ (t = text → rest = []) := by
  obtain ⟨text', hdecode, -⟩ := (formReply_decoded _ creds).1 hr
  rcases Decodes.cut hv rfl with ⟨bs, cs, hbytes, henc, hrest⟩ | hdangling
  · have hall := ((decodeUrlEncoded_iff (Decodes.append h henc)).1 hdecode).1
    obtain ⟨t, ht⟩ : s <+: text'.toList := by
      rw [← String.toList_ofList (l := s)]
      exact toList_prefix ⟨bs, hall⟩
    have hbs : bs = asBytes (String.ofList t) := by
      rw [← String.ofList_toList (s := text'), ← ht, asBytes_ofList_append] at hall
      exact List.append_cancel_left hall
    subst hbs
    have hp : t <+: text := by
      rw [← String.toList_ofList (l := t), ← String.toList_ofList (l := text)]
      exact toList_prefix ⟨cs, hbytes.symm⟩
    refine ⟨t, hp, henc, fun he => ?_⟩
    rw [he, List.self_eq_append_right] at hbytes
    rw [hbytes] at hrest
    exact hrest.eq_nil
  · obtain ⟨e, he⟩ := decodeUrlEncoded_dangling (h.dangling hdangling)
    rw [he] at hdecode
    cases hdecode

theorem Submission.frontText_eq (f : Submission) :
    f.frontText = ("ssid=".toList ++ f.ssid.toString.toList) ++
      '&' :: ("ssid_manual=".toList ++ f.ssidManual.toList) := rfl

/-- The fields after the network, where the manual one holds no ampersand. -/
theorem Submission.read_front (f : Submission) (hm : '&' ∉ f.ssidManual.toList)
    (rest : List Char) :
    FormFields.read {} (f.frontText ++ '&' :: rest) = f.selected.read rest := by
  rw [FormFields.read_append, f.frontText_eq, FormFields.read_append,
    FormFields.read_manual _ hm]
  rfl

theorem Submission.front_reads (f : Submission) : Reads f.front f.frontText :=
  ((Reads.plain "ssid=" (by decide)).append f.ssid_encoded.reads).append
    ((Reads.plain "&ssid_manual=" (by decide)).append f.manual_encoded.reads)

theorem Submission.passwordField_reads (f : Submission) :
    Reads f.passwordField f.passwordText :=
  (Reads.plain "&password=" (by decide)).append f.password_encoded.reads

theorem Submission.hostField_reads (f : Submission) : Reads f.hostField f.hostText :=
  (Reads.plain "&mqtt_host=" (by decide)).append f.host_encoded.reads

theorem Submission.body_reads (f : Submission) : Reads f.body f.text := by
  have hport := (Reads.plain "&mqtt_port=" (by decide)).append
    (Reads.plain _ (digits_plain f.mqttPort.toNat))
  exact f.front_reads.append (f.passwordField_reads.append (f.hostField_reads.append hport))

theorem blank_plain {cs : List Char} (h : cs.all isWhitespace = true) : '&' ∉ cs := fun hm =>
  absurd (List.all_eq_true.1 h _ hm) (by decide)

theorem Submission.manual_plain (f : Submission) (h : '&' ∉ f.effectiveSsid.toList) :
    '&' ∉ f.ssidManual.toList := by
  rw [effectiveSsid] at h
  split at h
  · exact blank_plain ‹_›
  · exact h

/-- The values and the credentials they are stored as. -/
structure Submission.Stores (f : Submission) (creds : Credentials) : Prop where
  ssid : creds.ssid.toString = f.effectiveSsid
  password : creds.password.toString = f.password
  mqttHost : creds.mqttHost.toString = f.mqttHost
  mqttPort : creds.mqttPort = f.mqttPort

theorem Submission.stores (f : Submission)
    (h : Credentials.withMqtt f.effectiveSsid f.password f.mqttHost f.mqttPort = some creds) :
    f.Stores creds := by
  simp only [Credentials.withMqtt, Option.bind_eq_bind, Option.bind_eq_some_iff] at h
  obtain ⟨ssid, hssid, password, hpassword, host, hhost, h⟩ := h
  cases h
  exact ⟨HString.pushStr_empty_eq hssid, HString.pushStr_empty_eq hpassword,
    HString.pushStr_empty_eq hhost, rfl⟩

/-- The fields after the values of the form. -/
def Submission.filled (f : Submission) : FormFields :=
  { f.selected with password := some f.password, mqttHost := f.mqttHost }

theorem Submission.selected_ssid (f : Submission) (hs : f.selected.ssid = some s)
    (hc : (ownedCopy s : HString 32) = c) (he : c.toString = f.effectiveSsid) :
    s = f.effectiveSsid := by
  rcases ownedCopy_eq hc with rfl | ⟨hempty, hlong⟩
  · exact he
  · have hnone : f.ssid.toString = "" := by
      rw [he, effectiveSsid] at hempty
      split at hempty
      · exact hempty
      · rename_i hblank
        rw [hempty] at hblank
        exact absurd rfl hblank
    have hread : f.selected.ssid = some "" := by
      rw [selected, hnone]
      rfl
    rw [hs] at hread
    rw [Option.some.inj hread] at hlong
    exact absurd hlong (by decide)

/-- What is copied out of a text holds no ampersands. -/
theorem FormFields.Gives.plain (h : (FormFields.read {} text).Gives creds) :
    '&' ∉ creds.ssid.toString.toList ∧ '&' ∉ creds.password.toString.toList ∧
      '&' ∉ creds.mqttHost.toString.toList := by
  have hs := FormFields.assigned_separated text
  have hcopy {cap : Nat} {s : String} {c : HString cap} (hp : '&' ∉ s.toList)
      (hc : ownedCopy s = c) : '&' ∉ c.toString.toList := by
    rcases ownedCopy_eq hc with rfl | ⟨hempty, -⟩
    · exact hp
    · rw [hempty]
      exact List.not_mem_nil
  obtain ⟨ssid, hssid, hc⟩ := h.ssid
  obtain ⟨password, hpassword, hc'⟩ := h.password
  exact ⟨hcopy (hs.1 _ hssid) hc, hcopy (hs.2.1 _ hpassword) hc', hcopy hs.2.2 h.mqttHost⟩

/-- The values after the network hold no ampersands. -/
structure Submission.Separated (f : Submission) : Prop where
  manual : '&' ∉ f.ssidManual.toList
  password : '&' ∉ f.password.toList
  mqttHost : '&' ∉ f.mqttHost.toList

theorem Submission.GetsThrough.separated {f : Submission} (h : f.GetsThrough) : f.Separated :=
  ⟨f.manual_plain ((FormFields.assigned_separated _).1 _ h.ssid), h.password, h.mqttHost⟩

/-- The fields after the password. -/
def Submission.secured (f : Submission) : FormFields :=
  { f.selected with password := some f.password }

theorem Submission.Separated.read_password {f : Submission} (h : f.Separated) (t : List Char)
    (ht : '&' ∉ t) : FormFields.read {} (f.frontText ++ ("&password=".toList ++ t)) =
      { f.selected with password := some (String.ofList t) } := by
  have hname : "&password=".toList = '&' :: "password=".toList := by decide
  rw [hname, List.cons_append, f.read_front h.manual, FormFields.read_password _ ht]

theorem Submission.Separated.read_name {f : Submission} (h : f.Separated) :
    FormFields.read {} (f.frontText ++ "&password".toList) =
      { f.selected with password := some "" } :=
  (f.read_front h.manual "password".toList).trans (FormFields.read_password_name _)

theorem Submission.Separated.read_secured {f : Submission} (h : f.Separated) :
    FormFields.read {} (f.frontText ++ f.passwordText) = f.secured := by
  have hread := h.read_password _ h.password
  rw [String.ofList_toList] at hread
  unfold passwordText secured
  exact hread

theorem Submission.Separated.read_rest {f : Submission} (h : f.Separated) (rest : List Char) :
    FormFields.read {} (f.frontText ++ (f.passwordText ++ '&' :: rest)) =
      f.secured.read rest := by
  rw [← List.append_assoc, FormFields.read_append, h.read_secured]

theorem Submission.Separated.read_host {f : Submission} (h : f.Separated) (t : List Char)
    (ht : '&' ∉ t) :
    FormFields.read {} (f.frontText ++ (f.passwordText ++ ("&mqtt_host=".toList ++ t))) =
      { f.secured with mqttHost := String.ofList t } := by
  have hname : "&mqtt_host=".toList = '&' :: "mqtt_host=".toList := by decide
  rw [hname, List.cons_append, h.read_rest, FormFields.read_host _ ht]

theorem Submission.Separated.read_filled {f : Submission} (h : f.Separated) :
    FormFields.read {} (f.frontText ++ (f.passwordText ++ f.hostText)) = f.filled := by
  have hread := h.read_host _ h.mqttHost
  rw [String.ofList_toList, secured] at hread
  unfold hostText filled
  exact hread

theorem Submission.Separated.read_last {f : Submission} (h : f.Separated) (rest : List Char) :
    FormFields.read {} (f.frontText ++ (f.passwordText ++ (f.hostText ++ '&' :: rest))) =
      f.filled.read rest := by
  rw [← List.append_assoc, ← List.append_assoc, FormFields.read_append, List.append_assoc,
    h.read_filled]

theorem Submission.Separated.read_text {f : Submission} (h : f.Separated) :
    FormFields.read {} f.text = { f.filled with mqttPort := f.mqttPort } := by
  have hport : (toString f.mqttPort.toNat).toList = Nat.toDigits 10 f.mqttPort.toNat :=
    Nat.toList_repr
  have hname : "&mqtt_port=".toList = '&' :: "mqtt_port=".toList := by decide
  rw [text, hport, hname, List.cons_append, h.read_last,
    FormFields.read_port _ (port_plain _), parseUnsigned_toDigits f.mqttPort.toNat_lt,
    Option.map_some, Option.getD_some, UInt16.ofNat_toNat]

theorem Submission.Separated.read_no_host {f : Submission} (h : f.Separated)
    (hs : s <+: "&mqtt_hos".toList) :
    FormFields.read {} (f.frontText ++ (f.passwordText ++ s)) = f.secured := by
  have hname : "&mqtt_hos".toList = '&' :: "mqtt_hos".toList := by decide
  rw [hname] at hs
  rcases Delimited.cons_prefix_cases hs with rfl | ⟨z, rfl, hz⟩
  · rw [List.append_nil, h.read_secured]
  · rw [h.read_rest]
    exact FormFields.read_host_cut _ hz

theorem Submission.Separated.read_cut {f : Submission} (h : f.Separated)
    (hc : f.HarmlessCut enc tail) :
    FormFields.read {} (f.frontText ++ tail) = f.filled := by
  cases hc with
  | name hp hh => rw [h.read_name, filled, hp, hh]
  | password hh hs =>
    have hsecured : f.secured = f.filled := by rw [filled, hh, secured]
    rw [← hsecured]
    exact h.read_no_host hs
  | noHost hh =>
    rw [filled, hh]
    exact h.read_rest "mqtt_host".toList
  | host hs =>
    have hname : "&mqtt_port=".toList = '&' :: "mqtt_port=".toList := by decide
    rw [hname] at hs
    rcases Delimited.cons_prefix_cases hs with rfl | ⟨z, rfl, hz⟩
    · rw [List.append_nil, h.read_filled]
    · rw [h.read_last]
      exact FormFields.read_port_cut _ hz

theorem prefix_plain {s cs : List Char} (hs : s <+: cs)
    (h : Plain (asBytes (String.ofList cs))) : Plain (asBytes (String.ofList s)) := by
  obtain ⟨t, rfl⟩ := hs
  rw [asBytes_ofList_append, Plain, List.all_append, Bool.and_eq_true] at h
  exact h.1

theorem Reads.begins {s cs : List Char} (hs : s <+: cs)
    (h : Plain (asBytes (String.ofList cs))) : Reads (asBytes (String.ofList s)) s := by
  have hp := Reads.plain (String.ofList s) (prefix_plain hs h)
  rwa [String.toList_ofList] at hp

theorem Submission.HarmlessCut.reads {f : Submission} (h : f.HarmlessCut enc tail) :
    Reads enc tail := by
  cases h with
  | name => exact Reads.plain "&password" (by decide)
  | password hh hs => exact f.passwordField_reads.append (Reads.begins hs (by decide))
  | noHost => exact f.passwordField_reads.append (Reads.plain "&mqtt_host" (by decide))
  | host hs =>
    exact f.passwordField_reads.append (f.hostField_reads.append (Reads.begins hs (by decide)))

theorem Submission.selected_mqttHost_le (f : Submission) :
    f.selected.mqttHost.utf8ByteSize ≤ 64 := by
  refine FormFields.read_mqttHost_le (by decide) ?_
  have hssid := f.ssid.bounded
  have hname : (asBytes "ssid=").length = 5 := rfl
  rw [asBytes_ofList_append, String.ofList_toList, String.ofList_toList, List.length_append, hname,
    length_asBytes]
  omega

/-- The values are the credentials, where the right network was selected. -/
theorem Submission.Stores.gives_iff {f : Submission} (h : f.Stores creds) (port : UInt16) :
    FormFields.Gives { f.filled with mqttPort := port } creds ↔
      f.selected.ssid = some f.effectiveSsid ∧ port = f.mqttPort := by
  constructor
  · rintro ⟨⟨s, hs, hc⟩, -, -, hport⟩
    have hssid : s = f.effectiveSsid := f.selected_ssid hs hc h.ssid
    rw [hssid] at hs
    exact ⟨hs, hport.trans h.mqttPort⟩
  · rintro ⟨hs, rfl⟩
    refine ⟨⟨_, hs, ?_⟩, ⟨f.password, rfl, ?_⟩, ?_, h.mqttPort.symm⟩
    · rw [← h.ssid, ownedCopy_self]
    · rw [← h.password, ownedCopy_self]
    · have hhost : f.filled.mqttHost = creds.mqttHost.toString := h.mqttHost.symm
      exact hhost ▸ ownedCopy_self creds.mqttHost

/-- What gets through is provisioned. -/
theorem Submission.GetsThrough.formReply {f : Submission} (h : f.GetsThrough)
    (hst : f.Stores creds) : formReply (f.body.take 256) = .ok (some creds.reply) := by
  have hsep := h.separated
  rcases h.room with ⟨hbody, hlen⟩ | ⟨-, hport, enc, tail, hcut, henc, hlen⟩
  · rw [List.take_of_length_le hbody, formReply_iff f.body_reads, hsep.read_text, hst.gives_iff]
    exact ⟨hlen, h.ssid, rfl⟩
  · rw [henc, formReply_iff (f.front_reads.append hcut.reads), hsep.read_cut hcut]
    exact ⟨hlen, (hst.gives_iff f.selected.mqttPort).2 ⟨h.ssid, hport.symm⟩⟩

/-- No ampersands where a form was kept. -/
theorem Submission.Stores.separated {f : Submission} (h : f.Stores creds)
    (hr : PicoConduit.formReply enc = .ok (some creds.reply)) : f.Separated := by
  obtain ⟨decoded, -, hgives⟩ := (formReply_decoded enc creds).1 hr
  obtain ⟨hssid, hpassword, hhost⟩ := hgives.plain
  rw [h.ssid] at hssid
  rw [h.password] at hpassword
  rw [h.mqttHost] at hhost
  exact ⟨f.manual_plain hssid, hpassword, hhost⟩

/-- A form that is kept whole gets through. -/
theorem Submission.Stores.whole {f : Submission} (h : f.Stores creds) (hlen : f.body.length ≤ 256)
    (hr : formReply f.body = .ok (some creds.reply)) : f.GetsThrough := by
  have hsep := h.separated hr
  obtain ⟨hfit, hgives⟩ := (formReply_iff f.body_reads creds).1 hr
  rw [hsep.read_text, h.gives_iff] at hgives
  exact ⟨hsep.password, hsep.mqttHost, hgives.1, .inl ⟨hlen, hfit⟩⟩

/-- A form that is kept although it is cut gets through, if the cut loses nothing. -/
theorem Submission.Stores.harmless {f : Submission} (h : f.Stores creds)
    (hlong : 256 < f.body.length) (hcut : f.HarmlessCut enc tail)
    (henc : f.body.take 256 = f.front ++ enc)
    (hr : formReply (f.front ++ enc) = .ok (some creds.reply)) : f.GetsThrough := by
  have hsep := h.separated hr
  obtain ⟨hfit, hgives⟩ := (formReply_iff (f.front_reads.append hcut.reads) creds).1 hr
  rw [hsep.read_cut hcut] at hgives
  obtain ⟨hssid, hport⟩ := (h.gives_iff f.selected.mqttPort).1 hgives
  exact ⟨hsep.password, hsep.mqttHost, hssid,
    .inr ⟨hlong, hport.symm, enc, tail, hcut, henc, hfit⟩⟩

theorem Submission.frontText_split (f : Submission) (h : f.Separated)
    (hs : '&' ∉ f.ssid.toString.toList) (t : List Char) (ht : '&' ∉ t) :
    (f.frontText ++ '&' :: t).splitOn '&' =
      ["ssid=".toList ++ f.ssid.toString.toList, "ssid_manual=".toList ++ f.ssidManual.toList,
        t] := by
  have hssid : '&' ∉ "ssid=".toList ++ f.ssid.toString.toList := by
    rw [List.mem_append, not_or]
    exact ⟨by decide, hs⟩
  have hmanual : '&' ∉ "ssid_manual=".toList ++ f.ssidManual.toList := by
    rw [List.mem_append, not_or]
    exact ⟨by decide, h.manual⟩
  rw [f.frontText_eq]
  exact Delimited.splitOn_three hssid hmanual ht

/-- What is cut before the end of the password's name has no password. -/
theorem Submission.no_password (f : Submission) (h : f.Separated)
    (hs : '&' ∉ f.ssid.toString.toList) (ht : t <+: f.frontText ++ "&passwor".toList) :
    (FormFields.read {} t).password = none := by
  have hname : "&passwor".toList = '&' :: "passwor".toList := by decide
  obtain ⟨u, hu⟩ := ht
  apply FormFields.read_no_password rfl
  intro pair hpair hp
  obtain ⟨segment, hm, hpre⟩ := Delimited.prefix_of_mem_splitOn u hpair
  rw [hu, hname, f.frontText_split h hs _ (by decide)] at hm
  replace hp := hp.trans hpre
  simp only [List.mem_cons, List.not_mem_nil, or_false] at hm
  rcases hm with rfl | rfl | rfl
  · obtain ⟨v, hv⟩ := hp
    exact absurd (List.cons.inj hv).1 (by decide)
  · obtain ⟨v, hv⟩ := hp
    exact absurd (List.cons.inj hv).1 (by decide)
  · exact absurd hp.length_le (by decide)

theorem Submission.Stores.front_le {f : Submission} (h : f.Stores creds)
    (hm : f.ssidManual.toList.all isWhitespace = false) : f.front.length ≤ 210 := by
  have hssid := f.ssid_encoded.length_le
  have hmanual := f.manual_encoded.length_le
  have heffective : f.effectiveSsid = f.ssidManual := by
    rw [effectiveSsid, hm]
    rfl
  have hle := creds.ssid.bounded
  have hle' := f.ssid.bounded
  have h1 : (asBytes "ssid=").length = 5 := rfl
  have h2 : (asBytes "&ssid_manual=").length = 13 := rfl
  rw [h.ssid, heffective] at hle
  rw [length_asBytes] at hssid hmanual
  simp only [front, List.length_append, h1, h2]
  omega

/-- A form that is kept is not cut before the end of the password's name. -/
theorem Submission.Stores.reaches {f : Submission} (h : f.Stores creds) (hlen : E.length = 256)
    (hr : formReply E = .ok (some creds.reply)) : ¬ E <+: f.front ++ asBytes "&passwor" := by
  intro hE
  cases hm : f.ssidManual.toList.all isWhitespace with
  | true =>
    have heffective : f.effectiveSsid = f.ssid.toString := by
      rw [effectiveSsid, hm]
      rfl
    obtain ⟨rest, hrest⟩ := hE
    have hall := f.front_reads.append (Reads.plain "&passwor" (by decide))
    rw [← hrest] at hall
    have hnil : Reads [] [] := Decodes.nil
    obtain ⟨t, ht, hEt, -⟩ := formReply_cut hnil hall hr
    obtain ⟨-, hgives⟩ := (formReply_iff hEt creds).1 hr
    have hs := hgives.plain.1
    rw [h.ssid, heffective] at hs
    obtain ⟨p, hp, -⟩ := hgives.password
    rw [f.no_password (h.separated hr) hs ht] at hp
    cases hp
  | false =>
    have hle := hE.length_le
    have hfront := h.front_le hm
    have hname : (asBytes "&passwor").length = 8 := rfl
    rw [hlen, List.length_append, hname] at hle
    omega

theorem ownedCopy_cut {c : HString cap} (ht : t <+: c.toString.toList)
    (hc : ownedCopy (String.ofList t) = c) : t = c.toString.toList := by
  have hle := asBytes_infix_le ht.isInfix
  rw [String.ofList_toList, length_asBytes, length_asBytes] at hle
  rw [← ownedCopy_bounded hc (hle.trans c.bounded), String.toList_ofList]

theorem prefix_not_mem {xs ys : List α} (h : xs <+: ys) (hy : y ∉ ys) : y ∉ xs :=
  fun hx => hy (h.mem hx)

theorem Submission.Stores.mqttHost_eq {f : Submission} (h : f.Stores creds)
    (hc : ownedCopy f.selected.mqttHost = creds.mqttHost) : f.mqttHost = f.selected.mqttHost := by
  rw [ownedCopy_bounded hc f.selected_mqttHost_le, h.mqttHost]

/-- A form that is kept although it is cut in a value that it gives has all of the value. -/
theorem value_uncut {c : HString cap} (hname : Reads front s)
    (hvalue : Encodes (asBytes c.toString) enc) (hz : z <+: enc)
    (hr : formReply (front ++ z) = .ok (some (Credentials.reply creds)))
    (hcopy : ∀ t, t <+: c.toString.toList → (FormFields.read {} (s ++ t)).Gives creds →
      ownedCopy (String.ofList t) = c) : z = enc := by
  obtain ⟨rest, rfl⟩ := hz
  obtain ⟨t, ht, hzt, hlast⟩ := formReply_cut hname hvalue.reads hr
  obtain ⟨-, hgives⟩ := (formReply_iff (hname.append hzt) creds).1 hr
  rw [hlast (ownedCopy_cut ht (hcopy t ht hgives)), List.append_nil]

/-- A password that is cut is another password. -/
theorem Submission.Stores.cut_password {f : Submission} (h : f.Stores creds)
    (hlong : 256 < f.body.length)
    (henc : f.body.take 256 = f.front ++ (asBytes "&password=" ++ z)) (hz : z <+: f.encPassword)
    (hr : formReply (f.front ++ (asBytes "&password=" ++ z)) = .ok (some creds.reply)) :
    f.GetsThrough := by
  have hsep := h.separated hr
  have hname := f.front_reads.append (Reads.plain "&password=" (by decide))
  have hcopy : ∀ t, t <+: creds.password.toString.toList →
      (FormFields.read {} ((f.frontText ++ "&password=".toList) ++ t)).Gives creds →
      ownedCopy (String.ofList t) = creds.password := by
    intro t ht hgives
    rw [h.password] at ht
    rw [List.append_assoc, hsep.read_password t (prefix_not_mem ht hsep.password)] at hgives
    obtain ⟨p, hp, hc⟩ := hgives.password
    rwa [← Option.some.inj hp] at hc
  obtain rfl := value_uncut hname (h.password ▸ f.password_encoded) hz
    (by rwa [List.append_assoc]) hcopy
  have hread := f.front_reads.append f.passwordField_reads
  obtain ⟨-, hgives⟩ := (formReply_iff hread creds).1 hr
  rw [hsep.read_secured] at hgives
  have hfield : asBytes "&password=" ++ f.encPassword =
      f.passwordField ++ asBytes (String.ofList []) := (List.append_nil _).symm
  rw [hfield] at henc hr
  exact h.harmless hlong (.password (h.mqttHost_eq hgives.mqttHost) List.nil_prefix) henc hr

/-- A host that is cut is another host. -/
theorem Submission.Stores.cut_host {f : Submission} (h : f.Stores creds)
    (hlong : 256 < f.body.length)
    (henc : f.body.take 256 =
      f.front ++ (f.passwordField ++ (asBytes "&mqtt_host=" ++ z))) (hz : z <+: f.encHost)
    (hr : formReply (f.front ++ (f.passwordField ++ (asBytes "&mqtt_host=" ++ z))) =
      .ok (some creds.reply)) : f.GetsThrough := by
  have hsep := h.separated hr
  have hname := (f.front_reads.append f.passwordField_reads).append
    (Reads.plain "&mqtt_host=" (by decide))
  have hcopy : ∀ t, t <+: creds.mqttHost.toString.toList →
      (FormFields.read {} (((f.frontText ++ f.passwordText) ++ "&mqtt_host=".toList) ++ t)).Gives
        creds → ownedCopy (String.ofList t) = creds.mqttHost := by
    intro t ht hgives
    rw [h.mqttHost] at ht
    rw [List.append_assoc, List.append_assoc,
      hsep.read_host t (prefix_not_mem ht hsep.mqttHost)] at hgives
    exact hgives.mqttHost
  obtain rfl := value_uncut hname (h.mqttHost ▸ f.host_encoded) hz
    (by rwa [List.append_assoc, List.append_assoc]) hcopy
  have hfield : asBytes "&mqtt_host=" ++ f.encHost =
      f.hostField ++ asBytes (String.ofList []) := (List.append_nil _).symm
  rw [hfield] at henc hr
  exact h.harmless hlong (.host List.nil_prefix) henc hr

theorem digits_eq (n : Nat) : toString n = String.ofList (Nat.toDigits 10 n) := by
  rw [← String.ofList_toList (s := toString n)]
  exact congrArg String.ofList Nat.toList_repr

theorem utf8_digits (n : Nat) :
    (Nat.toDigits 10 n).all (fun c => (String.utf8EncodeChar c).length == 1) = true := by
  rw [List.all_eq_true]
  intro c hc
  exact beq_iff_eq.2 (utf8_digit (Nat.isDigit_of_mem_toDigits (by decide) (by decide) hc)).1

theorem port_length (port : UInt16) : (asBytes (toString port.toNat)).length ≤ 5 := by
  have hlt := port.toNat_lt
  rw [digits_eq, length_literal (utf8_digits _), Nat.length_toDigits_le_iff (by decide) (by decide)]
  omega

/-- A port that is cut is another port. -/
theorem Submission.Stores.cut_port {f : Submission} (h : f.Stores creds) (hd : d ≠ [])
    (hpre : d <+: asBytes (toString f.mqttPort.toNat))
    (hr : formReply (f.front ++ (f.passwordField ++ (f.hostField ++
      (asBytes "&mqtt_port=" ++ d)))) = .ok (some creds.reply)) :
    d = asBytes (toString f.mqttPort.toNat) := by
  have hname : "&mqtt_port=".toList = '&' :: "mqtt_port=".toList := by decide
  have hsep := h.separated hr
  have hplain := digits_plain f.mqttPort.toNat
  rw [digits_eq] at hpre hplain ⊢
  obtain ⟨t, ht, rfl⟩ := prefix_literal (utf8_digits _) hpre
  have hread := f.front_reads.append (f.passwordField_reads.append (f.hostField_reads.append
    ((Reads.plain "&mqtt_port=" (by decide)).append (Reads.begins ht hplain))))
  obtain ⟨-, hgives⟩ := (formReply_iff hread creds).1 hr
  rw [hname, List.cons_append, hsep.read_last,
    FormFields.read_port _ (prefix_not_mem ht (port_plain _)), h.gives_iff] at hgives
  by_cases hall : t = Nat.toDigits 10 f.mqttPort.toNat
  · rw [hall]
  · have hne : t ≠ [] := by
      rintro rfl
      exact hd rfl
    exact absurd hgives.2 (port_cut f.mqttPort ht hne hall)

/-- A form that is kept although it is cut after its host gets through. -/
theorem Submission.Stores.kept_port {f : Submission} (h : f.Stores creds)
    (hlong : 256 < f.body.length)
    (henc : f.body.take 256 = f.front ++ (f.passwordField ++ (f.hostField ++ z)))
    (hz : z <+: f.portField)
    (hr : formReply (f.front ++ (f.passwordField ++ (f.hostField ++ z))) =
      .ok (some creds.reply)) : f.GetsThrough := by
  rcases Delimited.prefix_append_cases hz with hz | ⟨d, hd, rfl, hdigits⟩
  · rw [← String.ofList_toList (s := "&mqtt_port=")] at hz
    obtain ⟨t, ht, rfl⟩ := prefix_literal (by decide) hz
    exact h.harmless hlong (.host ht) henc hr
  · obtain rfl := h.cut_port hd hdigits hr
    have hbody : f.body.take 256 = f.body := henc
    have hlen := congrArg List.length hbody
    rw [List.length_take] at hlen
    omega

/-- A form that is kept although it is cut after its password gets through. -/
theorem Submission.Stores.kept_host {f : Submission} (h : f.Stores creds)
    (hlong : 256 < f.body.length)
    (henc : f.body.take 256 = f.front ++ (f.passwordField ++ z))
    (hz : z <+: f.hostField ++ f.portField)
    (hr : formReply (f.front ++ (f.passwordField ++ z)) = .ok (some creds.reply)) :
    f.GetsThrough := by
  have hsep := h.separated hr
  have hsplit : f.hostField ++ f.portField =
      asBytes "&mqtt_hos" ++ 't'.toUInt8 :: '='.toUInt8 :: (f.encHost ++ f.portField) := rfl
  rw [hsplit] at hz
  rcases Delimited.prefix_append_cases hz with hname | ⟨y, hy, rfl, hfield⟩
  · rw [← String.ofList_toList (s := "&mqtt_hos")] at hname
    obtain ⟨t, ht, rfl⟩ := prefix_literal (by decide) hname
    have hread := f.front_reads.append
      (f.passwordField_reads.append (Reads.begins ht (by decide)))
    obtain ⟨-, hgives⟩ := (formReply_iff hread creds).1 hr
    rw [hsep.read_no_host ht] at hgives
    exact h.harmless hlong (.password (h.mqttHost_eq hgives.mqttHost) ht) henc hr
  · rcases Delimited.cons_prefix_cases hfield with rfl | ⟨y, rfl, hlast⟩
    · exact absurd rfl hy
    rcases Delimited.cons_prefix_cases hlast with rfl | ⟨y, rfl, hvalue⟩
    · have hname : asBytes "&mqtt_hos" ++ ['t'.toUInt8] = asBytes "&mqtt_host" := rfl
      have hamp : "&mqtt_host".toList = '&' :: "mqtt_host".toList := by decide
      rw [hname] at henc hr
      have hread := f.front_reads.append
        (f.passwordField_reads.append (Reads.plain "&mqtt_host" (by decide)))
      obtain ⟨-, hgives⟩ := (formReply_iff hread creds).1 hr
      rw [hamp, hsep.read_rest, FormFields.read_host_name] at hgives
      have hempty : "" = creds.mqttHost.toString :=
        ownedCopy_bounded hgives.mqttHost (Nat.zero_le 64)
      rw [h.mqttHost] at hempty
      exact h.harmless hlong (.noHost hempty.symm) henc hr
    · have hname : asBytes "&mqtt_hos" ++ 't'.toUInt8 :: '='.toUInt8 :: y =
          asBytes "&mqtt_host=" ++ y := rfl
      rw [hname] at henc hr
      rcases Delimited.prefix_append_cases hvalue with hhost | ⟨d, -, rfl, hport⟩
      · exact h.cut_host hlong henc hhost hr
      · exact h.kept_port hlong henc hport hr

/-- A form that is kept although it is cut gets through. -/
theorem Submission.Stores.cut {f : Submission} (h : f.Stores creds)
    (hlong : 256 < f.body.length)
    (hr : formReply (f.body.take 256) = .ok (some creds.reply)) : f.GetsThrough := by
  have hsep := h.separated hr
  have hlen : (f.body.take 256).length = 256 := by
    rw [List.length_take]
    omega
  have hsplit : f.body = (f.front ++ asBytes "&passwor") ++ 'd'.toUInt8 :: '='.toUInt8 ::
      (f.encPassword ++ (f.hostField ++ f.portField)) := by
    rw [List.append_assoc]
    rfl
  have hpre := List.take_prefix 256 f.body
  generalize hE : f.body.take 256 = E at hr hlen hpre
  rw [hsplit] at hpre
  rcases Delimited.prefix_append_cases hpre with hfront | ⟨z, hz, rfl, hfield⟩
  · exact absurd hfront (h.reaches hlen hr)
  rw [List.append_assoc] at hE hr
  rcases Delimited.cons_prefix_cases hfield with rfl | ⟨z, rfl, hlast⟩
  · exact absurd rfl hz
  rcases Delimited.cons_prefix_cases hlast with rfl | ⟨z, rfl, hvalue⟩
  · have hname : asBytes "&passwor" ++ ['d'.toUInt8] = asBytes "&password" := rfl
    rw [hname] at hE hr
    have hread := f.front_reads.append (Reads.plain "&password" (by decide))
    obtain ⟨-, hgives⟩ := (formReply_iff hread creds).1 hr
    rw [hsep.read_name] at hgives
    obtain ⟨p, hp, hc⟩ := hgives.password
    obtain rfl := Option.some.inj hp
    have hempty := ownedCopy_bounded hc (by decide)
    rw [h.password] at hempty
    exact h.harmless hlong (.name hempty.symm (h.mqttHost_eq hgives.mqttHost)) hE hr
  · have hname : asBytes "&passwor" ++ 'd'.toUInt8 :: '='.toUInt8 :: z =
        asBytes "&password=" ++ z := rfl
    rw [hname] at hE hr
    rcases Delimited.prefix_append_cases hvalue with hpassword | ⟨y, -, rfl, hrest⟩
    · exact h.cut_password hlong hE hpassword hr
    · exact h.kept_host hlong hE hrest hr

/-- The bytes of a form that the buffer takes are enough exactly if the form gets through. -/
theorem Submission.Stores.formReply_iff {f : Submission} (h : f.Stores creds) :
    formReply (f.body.take 256) = .ok (some creds.reply) ↔ f.GetsThrough := by
  constructor
  · intro hr
    rcases Nat.lt_or_ge 256 f.body.length with hlong | hle
    · exact h.cut hlong hr
    · rw [List.take_of_length_le hle] at hr
      exact h.whole hle hr
  · exact fun hg => hg.formReply h

/-- A request for `/connect` whose header block the buffer takes. -/
theorem ConnectRequest.handled (h : ConnectRequest headers body) (hfit : headers.length ≤ 512) :
    (TurnedDown headers → handleHttpRequest (headers ++ body) = .ok (some .redirect)) ∧
      (¬ TurnedDown headers → handleHttpRequest (headers ++ body) =
        formReply (body.take (if body.length < 4294967296 then 256 else 0))) := by
  have hblock : headerBlock (headers ++ body) = headers := by
    rw [h.headerBlock_eq, List.take_of_length_le hfit]
  have hne := h.ne_nil
  have hline := h.requestLine
  obtain ⟨host, hhost⟩ := extractHeader_returns.2 (h.hasBlankLine.headerStops (asBytes "Host"))
  obtain ⟨value, hvalue, hnames⟩ := h.length
  rw [turnedDown_iff hline hhost]
  refine ⟨fun hap => ?_, fun hap => ?_⟩
  · simp only [handleHttpRequest, hblock, List.isEmpty_iff, hne, ↓reduceIte, slice_firstLine,
      ok_bind, hline, hhost, hap, pure_eq]
  · have htake : body.take (contentLength (some value)) =
        body.take (if body.length < 4294967296 then 256 else 0) := by
      rw [contentLength_names hnames]
      split
      · rw [Nat.min_comm, ← List.take_eq_take_min]
      · rfl
    simp only [handleHttpRequest, hblock, List.isEmpty_iff, hne, ↓reduceIte, slice_firstLine,
      ok_bind, hline, hhost, hap, Bool.false_eq_true, hvalue, List.drop_left, htake]
    rfl

theorem Submission.GetsThrough.length_le {f : Submission} (h : f.GetsThrough)
    (hst : f.Stores creds) : f.body.length < 4294967296 := by
  rcases h.room with ⟨hle, -⟩ | ⟨-, -, enc, tail, -, henc, -⟩
  · omega
  · have hfront := congrArg List.length henc
    have hpassword := f.password_encoded.length_le
    have hhost := f.host_encoded.length_le
    have hdigits := port_length f.mqttPort
    have hp := creds.password.bounded
    have hh := creds.mqttHost.bounded
    have h1 : (asBytes "&password=").length = 10 := rfl
    have h2 : (asBytes "&mqtt_host=").length = 11 := rfl
    have h3 : (asBytes "&mqtt_port=").length = 11 := rfl
    rw [hst.password] at hp
    rw [hst.mqttHost] at hh
    rw [length_asBytes] at hpassword hhost
    rw [List.length_take, List.length_append] at hfront
    simp only [body, passwordField, hostField, portField, List.length_append, h1, h2, h3]
    omega

/-- The page's form is provisioned with its own values exactly if the request is not turned down
and the form gets through. -/
theorem provisioned_iff (f : Submission) (creds : Credentials) (headers : Bytes)
    (hs : Credentials.withMqtt f.effectiveSsid f.password f.mqttHost f.mqttPort = some creds)
    (h : ConnectRequest headers f.body) (hfit : headers.length ≤ 512) :
    handleHttpRequest (headers ++ f.body) = .ok (some creds.reply) ↔
      ¬ TurnedDown headers ∧ f.GetsThrough := by
  have hst := f.stores hs
  obtain ⟨hrefused, hread⟩ := h.handled hfit
  by_cases ht : TurnedDown headers
  · rw [hrefused ht]
    exact iff_of_false (by simp [Credentials.reply]) fun hg => hg.1 ht
  · rw [hread ht, and_iff_right ht]
    split
    · exact hst.formReply_iff
    · rename_i hlong
      refine iff_of_false (fun hr => ?_) fun hg => hlong (hg.length_le hst)
      rw [List.take_zero] at hr
      have hnil : Reads [] [] := Decodes.nil
      obtain ⟨-, hgives⟩ := (formReply_iff hnil creds).1 hr
      obtain ⟨p, hp, -⟩ := hgives.password
      cases hp

/-- The form for `homeCredentials`, with the network's name in either place. -/
def homeSubmission (ssid : HString 32) (manual : String)
    (hs : (asBytes ssid.toString).all (fun b => b ∉ reserved) = true)
    (hm : (asBytes manual).all (fun b => b ∉ reserved) = true) : Submission where
  ssid := ssid
  ssidManual := manual
  password := "secret12"
  mqttHost := ""
  mqttPort := 1883
  encSsid := asBytes ssid.toString
  encManual := asBytes manual
  encPassword := asBytes "secret12"
  encHost := []
  ssid_encoded := .literals _ hs
  manual_encoded := .literals _ hm
  password_encoded := .literals _ (by decide)
  host_encoded := .nil

theorem home_unreserved : (asBytes "home").all (fun b => b ∉ reserved) = true := by decide

def selectedHome : Submission := homeSubmission homeCredentials.ssid "" home_unreserved rfl

def manualHome : Submission := homeSubmission .empty "home" rfl home_unreserved

def pageHeaders : Bytes :=
  asBytes "POST /connect HTTP/1.1\r\nHost: 192.168.4.1\r\nContent-Length: 66\r\n\r\n"

theorem pageHeaders_host :
    extractHeader pageHeaders (asBytes "Host") = .ok (some (asBytes "192.168.4.1")) := by
  rw [extractHeader_eq]
  decide +kernel

theorem pageHeaders_request {body : Bytes} (hlen : body.length = 66) :
    ConnectRequest pageHeaders body where
  complete := by decide +kernel
  first := by decide +kernel
  requestLine := by decide +kernel
  length := by
    refine ⟨asBytes "66", ?_, "66", fromUtf8_asBytes _, by decide,
      List.all_eq_true.1 (by decide), ?_⟩
    · rw [extractHeader_eq]
      decide +kernel
    · rw [hlen]
      decide

theorem pageHeaders_not_turnedDown : ¬ TurnedDown pageHeaders := by
  have hrequest : ConnectRequest pageHeaders (List.replicate 66 0) := pageHeaders_request rfl
  rw [turnedDown_iff hrequest.requestLine pageHeaders_host]
  decide

theorem home_provisioned :
    handleHttpRequest (pageHeaders ++ selectedHome.body) = .ok (some homeCredentials.reply) := by
  refine (provisioned_iff selectedHome homeCredentials pageHeaders (by decide +kernel)
    (pageHeaders_request (by decide)) (by decide +kernel)).2 ⟨pageHeaders_not_turnedDown, ?_⟩
  exact ⟨by decide, by decide, by decide +kernel, .inl ⟨by decide, by decide +kernel⟩⟩

/-- The manual name of a hidden network is left behind. -/
theorem manual_ssid_lost :
    Credentials.withMqtt manualHome.effectiveSsid manualHome.password manualHome.mqttHost
      manualHome.mqttPort = some homeCredentials ∧
    ConnectRequest pageHeaders manualHome.body ∧
    handleHttpRequest (pageHeaders ++ manualHome.body) =
      .ok (some { homeCredentials with ssid := .empty }.reply) ∧
    handleHttpRequest (pageHeaders ++ manualHome.body) ≠ .ok (some homeCredentials.reply) := by
  have hrequest : ConnectRequest pageHeaders manualHome.body :=
    pageHeaders_request (by decide)
  have hreply : handleHttpRequest (pageHeaders ++ manualHome.body) =
      .ok (some { homeCredentials with ssid := .empty }.reply) := by
    rw [(hrequest.handled (by decide +kernel)).2 pageHeaders_not_turnedDown]
    have hread := manualHome.body_reads
    refine (formReply_iff hread _).2
      ⟨by decide +kernel, ⟨"", ?_, rfl⟩, ⟨"secret12", ?_, rfl⟩, ?_, ?_⟩
    · decide +kernel
    · decide +kernel
    · decide +kernel
    · decide +kernel
  refine ⟨by decide +kernel, hrequest, hreply, ?_⟩
  rw [hreply]
  decide +kernel

end PicoConduit
