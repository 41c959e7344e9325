import PicoConduit.Base64Codec
import PicoConduit.Server
import PicoConduit.Spelling

namespace PicoConduit
open Checked Heapless Utf8 Transducer Json JsonString
set_option autoImplicit true

def errorCodes : List ErrorCode :=
  [.missingVersion, .unsupportedVersion, .msgTooLarge, .malformedJson, .missingField,
    .unknownInterface, .unknownAction, .invalidPin, .valueOutOfRange, .pinInUse, .notConfigured,
    .peripheralBusy, .peripheralError, .invalidEncoding, .websocketHandshake, .batchTooLarge,
    .batchEmpty, .subscriptionLimit, .alreadySubscribed, .notSubscribed]

theorem ErrorCode.find_text (e : ErrorCode) :
    errorCodes.find? (fun code => code.text == e.text) = some e := by
  cases e <;> decide

theorem ErrorCode.text_injective (h : ErrorCode.text e = ErrorCode.text e') : e = e' := by
  have hfind := ErrorCode.find_text e
  rw [h, ErrorCode.find_text] at hfind
  cases hfind
  rfl

theorem errorValue_injective (h : errorValue a = errorValue b) : a = b := by
  cases a with
  | none =>
    cases b with
    | none => rfl
    | some e => cases h
  | some e =>
    cases b with
    | none => cases h
    | some e' => rw [ErrorCode.text_injective (Value.string.inj h)]

theorem toValue_bytes (payload : HVec UInt8 maxPayloadLen) :
    ∃ s, (ResponseData.bytes payload).toValue = .ok (.object [("bytes", .string s)]) ∧
      DecodesTo (asBytes s) payload.toList := by
  obtain ⟨s, hs, hd⟩ := serializeBytes_encodes payload
  exact ⟨s, by rw [ResponseData.toValue, hs]; rfl, hd⟩

theorem dataValue_total (data : Option ResponseData) : ∃ v, dataValue data = .ok v := by
  cases data with
  | none => exact ⟨_, rfl⟩
  | some data =>
    cases data with
    | gpioRead value => exact ⟨_, rfl⟩
    | bytes payload =>
      obtain ⟨s, hs, -⟩ := toValue_bytes payload
      exact ⟨_, hs⟩
    | config ssid ip connected => exact ⟨_, rfl⟩
    | version v => exact ⟨_, rfl⟩

theorem toValue_bytes_eq {data : ResponseData}
    (h : (ResponseData.bytes payload).toValue = data.toValue) : data = .bytes payload := by
  obtain ⟨s, hs, hd⟩ := toValue_bytes payload
  rw [hs] at h
  cases data with
  | bytes payload' =>
    obtain ⟨t, ht, hd'⟩ := toValue_bytes payload'
    rw [ht] at h
    simp only [Except.ok.injEq, Value.object.injEq, List.cons.injEq, Prod.mk.injEq, true_and,
      and_true, Value.string.injEq] at h
    subst h
    rw [decodesTo_iff] at hd hd'
    rw [hd] at hd'
    rw [HVec.ext_toList (Option.some.inj hd')]
  | gpioRead | config | version => simp [ResponseData.toValue] at h

theorem mqttFields_injective (h : mqttFields a = mqttFields b) : a = b := by
  cases a with
  | none =>
    cases b with
    | none => rfl
    | some mqtt => cases h
  | some mqtt =>
    cases b with
    | none => cases h
    | some mqtt' =>
      simp only [mqttFields, List.cons.injEq, Prod.mk.injEq, true_and, and_true,
        Value.string.injEq, Value.number.injEq] at h
      obtain ⟨hhost, hport⟩ := h
      obtain ⟨host, port⟩ := mqtt
      obtain ⟨host', port'⟩ := mqtt'
      have hhost' : host = host' := HString.ext_toString hhost
      have hport' : port = port' := UInt16.toNat_inj.1 hport
      rw [hhost', hport']

theorem data_toValue_injective {a b : ResponseData} (h : a.toValue = b.toValue) : a = b := by
  cases a with
  | bytes payload => exact (toValue_bytes_eq h).symm
  | gpioRead value =>
    cases b with
    | bytes payload => cases toValue_bytes_eq h.symm
    | gpioRead value' =>
      simp only [ResponseData.toValue, pure_eq, Except.ok.injEq, Value.object.injEq,
        List.cons.injEq, Prod.mk.injEq, true_and, and_true, Value.number.injEq] at h
      rw [UInt8.toNat_inj.1 h]
    | config | version => simp [ResponseData.toValue] at h
  | config ssid ip connected mqtt =>
    cases b with
    | bytes payload => cases toValue_bytes_eq h.symm
    | config ssid' ip' connected' mqtt' =>
      simp only [ResponseData.toValue, pure_eq, Except.ok.injEq, Value.object.injEq,
        List.cons_append, List.nil_append, List.cons.injEq, Prod.mk.injEq, true_and,
        Value.string.injEq, Value.bool.injEq] at h
      obtain ⟨hs, hi, rfl, hm⟩ := h
      rw [HString.ext_toString hs, HString.ext_toString hi, mqttFields_injective hm]
    | gpioRead | version => simp [ResponseData.toValue] at h
  | version v =>
    cases b with
    | bytes payload => cases toValue_bytes_eq h.symm
    | version v' =>
      simp only [ResponseData.toValue, pure_eq, Except.ok.injEq, Value.object.injEq,
        List.cons.injEq, Prod.mk.injEq, true_and, and_true, Value.string.injEq] at h
      rw [HString.ext_toString h]
    | gpioRead | config => simp [ResponseData.toValue] at h

theorem dataValue_injective (h : dataValue a = dataValue b) : a = b := by
  have hsome (data : ResponseData) : data.toValue ≠ .ok .null := by
    cases data with
    | bytes payload =>
      obtain ⟨s, hs, -⟩ := toValue_bytes payload
      simp [hs]
    | gpioRead | config | version => simp [ResponseData.toValue]
  cases a with
  | none =>
    cases b with
    | none => rfl
    | some data => exact absurd h.symm (hsome data)
  | some data =>
    cases b with
    | none => exact absurd h (hsome data)
    | some data' => rw [data_toValue_injective h]

theorem toValue_eq (r : Response) : ∃ data, dataValue r.data = .ok data ∧
    r.toValue = .ok (.object [("id", .string r.id), ("ok", .bool r.ok), ("data", data),
      ("error", errorValue r.error)]) := by
  obtain ⟨data, hd⟩ := dataValue_total r.data
  exact ⟨data, hd, by rw [Response.toValue, hd]; rfl⟩

/-- A response is determined by the JSON value it is written as. -/
theorem toValue_injective {r r' : Response} (h : r.toValue = r'.toValue) : r = r' := by
  obtain ⟨data, hd, hv⟩ := toValue_eq r
  obtain ⟨data', hd', hv'⟩ := toValue_eq r'
  rw [hv, hv'] at h
  simp only [Except.ok.injEq, Value.object.injEq, List.cons.injEq, Prod.mk.injEq, true_and,
    and_true, Value.string.injEq, Value.bool.injEq] at h
  obtain ⟨hid, hok, rfl, herr⟩ := h
  cases r
  cases r'
  cases hid
  cases hok
  cases dataValue_injective (hd.trans hd'.symm)
  cases errorValue_injective herr
  rfl

/-- Two frames whose objects differ at most in the spelling of their strings. -/
inductive SameObject (lib : JsonLibrary) (f g : Bytes) : Prop
  | rejected (hf : lib.fromSlice f = none) (hg : lib.fromSlice g = none)
  | commands (hf : lib.fromSlice f = some c) (hg : lib.fromSlice g = some d)
      (h : SameValues c d)

/-- Both frames are answered with the same JSON value and leave the device in the same state. -/
def TreatedByValue (lib : JsonLibrary) (s : DeviceState) (f g : Bytes) : Prop :=
  ∃ r r' v s', answerFrame lib s f = .ok (r, s') ∧ answerFrame lib s g = .ok (r', s') ∧
    r.toValue = .ok v ∧ r'.toValue = .ok v

/-- The text between the quotes of the id of a response. -/
def Response.idLiteral (r : Response) : String := String.ofList (escape .upper r.id.toList)

def EchoesId (lib : JsonLibrary) (s : DeviceState) (frame : Bytes) (id : String) : Prop :=
  ∃ r s', answerFrame lib s frame = .ok (r, s') ∧ SameText r.idLiteral id

/-- No payload is decoded that the decoding buffer does not hold. -/
def Operation.Safe (s : DeviceState) (op : Operation) : Prop :=
  ∀ port ∈ op.overruns, ¬ s.configured port

/-- Operations that differ at most in a payload on which the decoder gives the same verdict, or
that it does not get to see. -/
inductive Operation.Alike (s : DeviceState) : Operation → Operation → Prop
  | same : Alike s op op
  | payloads (h : s.configured p → checks = .ok () → payloadAnswer a = payloadAnswer b) :
      Alike s (.write p checks a) (.write p checks b)

/-- Both frames are within the limit or neither is; and if both hold a command, then the two ids
are spelt alike, and so is whatever decides what the commands ask for. -/
structure ReadAlike (lib : JsonLibrary) (s : DeviceState) (f g : Bytes) : Prop where
  length : f.length ≤ maxMsgLen ↔ g.length ≤ maxMsgLen
  commands : ∀ c d, parseCommand lib.fromSlice f = .ok c → parseCommand lib.fromSlice g = .ok d →
    c.id = d.id ∧ c.operation.Safe s ∧ d.operation.Safe s ∧ c.operation.Alike s d.operation

theorem version_eq (h : SameFields c d) : c.version = d.version := by
  have hv := congrArg Command.version h.rest
  exact hv

/-- Two spellings of one object are rejected alike, unless only one is too long. -/
theorem SameObject.parse (h : SameObject lib f g)
    (hl : f.length ≤ maxMsgLen ↔ g.length ≤ maxMsgLen) :
    (∃ e, parseCommand lib.fromSlice f = .error e ∧ parseCommand lib.fromSlice g = .error e) ∨
    ∃ c d, parseCommand lib.fromSlice f = .ok c ∧ parseCommand lib.fromSlice g = .ok d ∧
      SameFields c d := by
  simp only [parseCommand]
  by_cases hf : f.length ≤ maxMsgLen
  · have hg := hl.1 hf
    rw [if_neg (Nat.not_lt.2 hf), if_neg (Nat.not_lt.2 hg)]
    cases h with
    | rejected hf hg => exact .inl ⟨_, by rw [hf], by rw [hg]⟩
    | commands hf hg h =>
      rename_i c d
      have hv : c.checkVersion = d.checkVersion := by
        simp only [Command.checkVersion, version_eq h.toSameFields]
      simp only [hf, hg, hv]
      cases d.checkVersion with
      | error e => exact .inl ⟨e, rfl, rfl⟩
      | ok u => exact .inr ⟨c, d, rfl, rfl, h.toSameFields⟩
  · have hg := fun h => hf (hl.2 h)
    rw [if_pos (Nat.lt_of_not_le hf), if_pos (Nat.lt_of_not_le hg)]
    exact .inl ⟨_, rfl, rfl⟩

theorem answerFrame_ok (hp : parseCommand lib.fromSlice frame = .ok cmd) :
    answerFrame lib s frame = execute s cmd := by
  simp only [answerFrame, hp]

theorem answerFrame_error (hp : parseCommand lib.fromSlice frame = .error e) :
    answerFrame lib s frame = .ok (.failure "" e, s) := by
  simp only [answerFrame, hp, pure_eq]

theorem answerFrame_long (h : ¬ frame.length ≤ maxMsgLen) :
    answerFrame lib s frame = .ok (.failure "" .msgTooLarge, s) :=
  answerFrame_error (if_pos (Nat.lt_of_not_le h))

/-- A frame within the limit is never answered as too long. -/
theorem answerFrame_short (hl : List.length frame ≤ maxMsgLen)
    (h : answerFrame lib s frame = .ok (r, s')) : r.answer ≠ .error .msgTooLarge := by
  cases hp : parseCommand lib.fromSlice frame with
  | error e =>
    rw [answerFrame_error hp] at h
    cases h
    simp only [parseCommand, if_neg (Nat.not_lt.2 hl)] at hp
    split at hp
    · cases hp
      simp [Response.failure, Response.answer]
    · split at hp
      · rename_i hv
        cases hp
        simp only [Command.checkVersion] at hv
        split at hv
        · cases hv
          simp [Response.failure, Response.answer]
        · cases hv
        · cases hv
          simp [Response.failure, Response.answer]
      · cases hp
  | ok cmd =>
    rw [answerFrame_ok hp] at h
    rw [execute_due h]
    have hne := operation_due_ne cmd s
    cases hdue : cmd.operation.due s with
    | ok data => simp [Answer.respond, Response.success, Response.answer]
    | error e => exact fun he => hne (hdue.trans he)

theorem TreatedByValue.symm (h : TreatedByValue lib s f g) : TreatedByValue lib s g f := by
  obtain ⟨r, r', v, s', hf, hg, hv, hv'⟩ := h
  exact ⟨r', r, v, s', hg, hf, hv', hv⟩

/-- Being answered with the same value is being answered with the same response. -/
theorem treatedByValue_iff : TreatedByValue lib s f g ↔
    ∃ r s', answerFrame lib s f = .ok (r, s') ∧ answerFrame lib s g = .ok (r, s') := by
  constructor
  · intro hx
    obtain ⟨r, r', v, s', hf, hg, hv, hv'⟩ := hx
    obtain rfl := toValue_injective (hv.trans hv'.symm)
    exact ⟨r, s', hf, hg⟩
  · intro hx
    obtain ⟨r, s', hf, hg⟩ := hx
    obtain ⟨data, -, hv⟩ := toValue_eq r
    exact ⟨r, r, _, s', hf, hg, hv, hv⟩

theorem TreatedByValue.length_le (h : TreatedByValue lib s f g) (hf : List.length f ≤ maxMsgLen) :
    List.length g ≤ maxMsgLen := by
  obtain ⟨r, s', hrf, hrg⟩ := treatedByValue_iff.1 h
  refine Decidable.byContradiction fun hg => ?_
  rw [answerFrame_long hg] at hrg
  cases hrg
  exact answerFrame_short hf hrf rfl

theorem respond_injective {a b : Answer} (h : a.respond i = b.respond j) : i = j ∧ a = b := by
  cases a <;> cases b <;> simp_all [Answer.respond, Response.success, Response.failure]

/-- Related operations that are answered alike in a state are alike in it. -/
theorem Operation.Related.alike (h : Operation.Related op op') (hdue : op.due s = op'.due s) :
    op.Alike s op' := by
  cases h with
  | same => exact .same
  | payloads =>
    refine .payloads fun hp hc => ?_
    simpa only [Operation.due, hp, hc, ↓reduceIte, Except.bind] using hdue
  | apart h => exact absurd hdue (h s)

/-- Alike operations give the same answer and the same state, unless one overruns its buffer. -/
theorem Operation.Alike.apply (h : Operation.Alike s op op') (hsafe : op'.Safe s)
    (ha : op.apply reqId s = .ok (a, s')) : op'.apply reqId s = .ok (a, s') := by
  cases h with
  | same => exact ha
  | payloads h =>
    rename_i p checks b b'
    cases hp : s.configured p with
    | false => simpa only [Operation.apply, hp, Bool.false_eq_true, ↓reduceIte] using ha
    | true =>
      cases checks with
      | error e => simpa only [Operation.apply, hp, ↓reduceIte] using ha
      | ok u =>
        have hb' : ¬ Overlong b' := fun ho =>
          hsafe p (Operation.overruns_write ho) hp
        simp only [Operation.apply, hp, ↓reduceIte] at ha
        split at ha
        · cases ha
        · simpa only [Operation.apply, hp, ↓reduceIte, if_neg hb', ← h hp rfl] using ha

theorem treated_iff_readAlike (h : SameObject lib f g) (s : DeviceState) :
    TreatedByValue lib s f g ↔ ReadAlike lib s f g := by
  constructor
  · intro ht
    refine ⟨⟨ht.length_le, ht.symm.length_le⟩, fun c d hc hd => ?_⟩
    obtain ⟨r, s', hrf, hrg⟩ := treatedByValue_iff.1 ht
    rw [answerFrame_ok hc] at hrf
    rw [answerFrame_ok hd] at hrg
    obtain ⟨hid, hdue⟩ := respond_injective ((execute_due hrf).symm.trans (execute_due hrg))
    rcases h.parse ⟨ht.length_le, ht.symm.length_le⟩ with ⟨e, he, -⟩ | ⟨c', d', hc', hd', hs⟩
    · rw [hc] at he
      cases he
    · rw [hc] at hc'
      rw [hd] at hd'
      cases hc'
      cases hd'
      exact ⟨hid, execute_returns.1 ⟨r, s', hrf⟩, execute_returns.1 ⟨r, s', hrg⟩,
        (operation_related hs hid).alike hdue⟩
  · intro ha
    rw [treatedByValue_iff]
    rcases h.parse ha.length with ⟨e, hf, hg⟩ | ⟨c, d, hc, hd, -⟩
    · exact ⟨_, s, answerFrame_error hf, answerFrame_error hg⟩
    · obtain ⟨hid, hsafe, hsafe', halike⟩ := ha.commands c d hc hd
      obtain ⟨r, s', hr⟩ := execute_returns.2 hsafe
      obtain ⟨a, happ, rfl⟩ := execute_eq_ok.1 hr
      refine ⟨_, s', (answerFrame_ok hc).trans hr, (answerFrame_ok hd).trans ?_⟩
      rw [execute_eq_ok]
      rw [hid] at happ ⊢
      exact ⟨a, halike.apply hsafe' happ, rfl⟩

/-- The id comes back as the string it stood for exactly when nothing in it was escaped. -/
theorem echoesId_iff (hp : parseCommand lib.fromSlice frame = .ok cmd) (hv : Valid cmd.id)
    (s : DeviceState) : EchoesId lib s frame cmd.id ↔ Unescaped cmd.id ∧ cmd.operation.Safe s := by
  rw [← sameText_escape_iff .upper hv, Operation.Safe, ← execute_returns, EchoesId,
    answerFrame_ok hp]
  constructor
  · intro hx
    obtain ⟨r, s', hr, hs⟩ := hx
    rw [Response.idLiteral, execute_id hr] at hs
    exact ⟨hs, r, s', hr⟩
  · intro hx
    obtain ⟨hs, r, s', hr⟩ := hx
    refine ⟨r, s', hr, ?_⟩
    rwa [Response.idLiteral, execute_id hr]

/-- Two spellings of an object are treated alike exactly when the raw texts of their strings are
read alike, and an id is echoed exactly when it is spelt without escapes. -/
theorem json_strings_by_value_iff (lib : JsonLibrary) :
    (∀ s f g, SameObject lib f g → (TreatedByValue lib s f g ↔ ReadAlike lib s f g)) ∧
    ∀ s frame cmd, parseCommand lib.fromSlice frame = .ok cmd → Valid cmd.id →
      (EchoesId lib s frame cmd.id ↔ Unescaped cmd.id ∧ cmd.operation.Safe s) :=
  ⟨fun s _ _ h => treated_iff_readAlike h s, fun s _ _ hp hv => echoesId_iff hp hv s⟩

/-- A JSON library that reads the commands of a table of frames. -/
def tableLibrary (table : List (Bytes × Command)) : JsonLibrary where
  fromSlice buf := (table.find? (fun entry => entry.1 == buf)).map (·.2)
  toSlice r n := if (replyText r).length ≤ n then some (replyText r) else none

/-- The frame of a `config` command, with given raw texts for its strings. -/
def configFrame (id action mode : String) : Bytes :=
  asBytes ("\x7b\"version\":1,\"id\":\"" ++ id ++ "\",\"interface\":\"config\",\"action\":\"" ++
    action ++ "\",\"mode\":\"" ++ mode ++ "\"\x7d")

def configCommand (id action mode : String) : Command where
  version := some 1
  id := id
  interface := some "config"
  action := some action
  mode := some mode

def spellings : List (String × String × String) :=
  [("a", "get", "x"), ("a", "ge\\u0074", "x"), ("a", "get", "\\u0078"), ("a\\/b", "get", "x")]

def spellingsLibrary : JsonLibrary :=
  tableLibrary (spellings.map fun (id, action, mode) =>
    (configFrame id action mode, configCommand id action mode))

theorem sameText_self {a : String} (h : a.toList.all isPlain = true) : SameText a a :=
  ⟨a.toList, denotes_self h, denotes_self h⟩

theorem configCommand_sameValues (hid : SameText i i) (ha : SameText a b) (hm : SameText m n) :
    SameValues (configCommand i a m) (configCommand i b n) where
  id := hid
  interface := .some (sameText_self (by decide))
  action := .some ha
  mode := .some hm
  pull := .none
  bytes := .none
  parity := .none
  writeBytes := .none
  trigger := .none
  rest := rfl
  commands := .none

theorem sameText_append (pre : List Char) (hp : Piece piece c)
    (ha : (pre ++ [c]).all isPlain = true) :
    SameText (String.ofList (pre ++ [c])) (String.ofList (pre ++ piece)) := by
  have hpre : pre.all isPlain = true := by
    rw [List.all_append, Bool.and_eq_true] at ha
    exact ha.1
  refine ⟨pre ++ [c], ?_, ?_⟩
  · rw [String.toList_ofList]
    exact denotes_self ha
  · rw [String.toList_ofList]
    exact (denotes_self hpre).append hp.denotes

theorem get_respelt : SameText "get" "ge\\u0074" := by
  have hunit : codeUnit '0' '0' '7' '4' = some 0x74 := rfl
  exact sameText_append ['g', 'e'] (.unit hunit (.inl (by decide))) (by decide)

theorem mode_respelt : SameText "x" "\\u0078" := by
  have hunit : codeUnit '0' '0' '7' '8' = some 0x78 := rfl
  exact sameText_append [] (.unit hunit (.inl (by decide))) (by decide)

theorem spellings_parsed : ∀ t ∈ spellings, parseCommand spellingsLibrary.fromSlice
    (configFrame t.1 t.2.1 t.2.2) = .ok (configCommand t.1 t.2.1 t.2.2) := by
  decide

theorem spellings_frame (ht : (i, a, m) ∈ spellings) (s : DeviceState) :
    spellingsLibrary.fromSlice (configFrame i a m) = some (configCommand i a m) ∧
      answerFrame spellingsLibrary s (configFrame i a m) = execute s (configCommand i a m) := by
  have hp : parseCommand spellingsLibrary.fromSlice (configFrame i a m) =
      .ok (configCommand i a m) := spellings_parsed (i, a, m) ht
  have hok := parseCommand_eq_ok.1 hp
  exact ⟨hok.2.1, answerFrame_ok hp⟩

theorem unread_escape_by_value :
    configFrame "a" "get" "x" ≠ configFrame "a" "get" "\\u0078" ∧
    TreatedByValue spellingsLibrary (.default false) (configFrame "a" "get" "x")
      (configFrame "a" "get" "\\u0078") ∧
    EchoesId spellingsLibrary (.default false) (configFrame "a" "get" "x") "a" := by
  have hp := spellings_parsed ("a", "get", "x") (by decide)
  have hq := spellings_parsed ("a", "get", "\\u0078") (by decide)
  have hsafe : Operation.Safe (.default false) .reportConfig := fun _ h => nomatch h
  have hobject : SameObject spellingsLibrary (configFrame "a" "get" "x")
      (configFrame "a" "get" "\\u0078") :=
    .commands (parseCommand_eq_ok.1 hp).2.1 (parseCommand_eq_ok.1 hq).2.1
      (configCommand_sameValues (sameText_self (by decide)) (sameText_self (by decide))
        mode_respelt)
  refine ⟨by decide, ((json_strings_by_value_iff spellingsLibrary).1 _ _ _ hobject).2 ?_,
    ((json_strings_by_value_iff spellingsLibrary).2 _ _ _ hp ⟨_, denotes_self (by decide)⟩).2
      ⟨by unfold Unescaped; decide, hsafe⟩⟩
  refine ⟨by decide, fun c d hc hd => ?_⟩
  rw [hp] at hc
  rw [hq] at hd
  cases hc
  cases hd
  exact ⟨rfl, hsafe, hsafe, .same⟩

/-- An action with an escaped letter is unknown, and an escaped slash is echoed as two
characters. -/
theorem escaped_text_not_by_value :
    (SameObject spellingsLibrary (configFrame "a" "get" "x") (configFrame "a" "ge\\u0074" "x") ∧
      ¬ TreatedByValue spellingsLibrary (.default false) (configFrame "a" "get" "x")
        (configFrame "a" "ge\\u0074" "x")) ∧
    (Valid "a\\/b" ∧ parseCommand spellingsLibrary.fromSlice (configFrame "a\\/b" "get" "x") =
        .ok (configCommand "a\\/b" "get" "x") ∧
      ¬ EchoesId spellingsLibrary (.default false) (configFrame "a\\/b" "get" "x") "a\\/b") := by
  have hget := spellings_frame (i := "a") (a := "get") (m := "x") (by decide) (.default false)
  have hesc := spellings_frame (i := "a") (a := "ge\\u0074") (m := "x") (by decide)
    (.default false)
  refine ⟨⟨.commands hget.1 hesc.1
    (configCommand_sameValues (sameText_self (by decide)) get_respelt (sameText_self (by decide))),
    ?_⟩, ?_⟩
  · intro ht
    obtain ⟨r, s', hf, hg⟩ := treatedByValue_iff.1 ht
    rw [hget.2] at hf
    rw [hesc.2] at hg
    cases hf
    cases hg
  · have hslash : Denotes (['a'] ++ ([backslash, '/'] ++ ['b'])) ['a', '/', 'b'] :=
      .cons (.plain (by decide) (by decide) (by decide))
        (.cons (.short (by decide)) (denotes_self (by decide)))
    have hvalid : Valid "a\\/b" := ⟨_, hslash⟩
    have hp := spellings_parsed ("a\\/b", "get", "x") (by decide)
    refine ⟨hvalid, hp, fun he => ?_⟩
    have hplain := ((echoesId_iff hp hvalid _).1 he).1
    exact absurd hplain (by unfold Unescaped; decide)

end PicoConduit
