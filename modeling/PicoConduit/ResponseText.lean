import PicoConduit.ByValue
import PicoConduit.Components
import PicoConduit.Delimited
import PicoConduit.JsonRead

namespace PicoConduit
open Checked Heapless Utf8 Delimited Transducer Json JsonString
set_option autoImplicit true

/-- The JSON text of a response without white space, as the device writes it. -/
def Response.compact (r : Response) : Bytes :=
  match r.toValue with
  | .ok v => v.toBytes .upper
  | .error _ => []

theorem compact_eq (h : Response.toValue r = .ok v) : r.compact = v.toBytes .upper := by
  rw [Response.compact, h]

theorem newline_not_mem_compact (r : Response) : newline ∉ r.compact := by
  obtain ⟨data, -, hv⟩ := toValue_eq r
  rw [compact_eq hv]
  exact newline_not_mem_toBytes .upper _

/-- A response is read back from its text. -/
theorem ofBytes_compact (r : Response) :
    ∃ v, r.toValue = .ok v ∧ Value.ofBytes r.compact = some v := by
  obtain ⟨data, -, hv⟩ := toValue_eq r
  exact ⟨_, hv, by rw [compact_eq hv, ofBytes_toBytes .upper]⟩

theorem compact_injective {r r' : Response} (h : r.compact = r'.compact) : r = r' := by
  obtain ⟨v, hv, hread⟩ := ofBytes_compact r
  obtain ⟨v', hv', hread'⟩ := ofBytes_compact r'
  rw [h, hread'] at hread
  cases hread
  exact toValue_injective (hv.trans hv'.symm)

/-- How many bytes the data of a response takes. -/
def dataWidth (data : Option ResponseData) : Nat :=
  match dataValue data with
  | .ok v => width (v.render .upper)
  | .error _ => 0

theorem dataWidth_eq (data : Option ResponseData) (h : dataValue data = .ok v) :
    dataWidth data = width (v.render .upper) := by
  rw [dataWidth, h]

theorem error_written (e : ErrorCode) : written e.text ≤ 20 := by
  cases e <;> decide

theorem success_length (id : String) (data : Option ResponseData) :
    (Response.success id data).compact.length = 40 + written id + dataWidth data := by
  obtain ⟨v, hd, hv⟩ := toValue_eq (.success id data)
  have hdata : dataWidth data = width (v.render .upper) := dataWidth_eq data hd
  rw [compact_eq hv, Value.length_toBytes, width_object .upper (List.cons_ne_nil _ _), hdata]
  have hkeys : written "id" = 2 ∧ written "ok" = 2 ∧ written "data" = 4 ∧ written "error" = 5 := by
    decide
  have htrue : width ((Value.bool true).render .upper) = 4 := rfl
  have hnull : width (Value.null.render .upper) = 4 := rfl
  simp only [Response.success, errorValue, fieldsWidth, width_string, hkeys, htrue, hnull]
  omega

theorem failure_length (id : String) (e : ErrorCode) :
    (Response.failure id e).compact.length = 43 + written id + written e.text := by
  obtain ⟨v, hd, hv⟩ := toValue_eq (.failure id e)
  cases hd
  rw [compact_eq hv, Value.length_toBytes, width_object .upper (List.cons_ne_nil _ _)]
  have hkeys : written "id" = 2 ∧ written "ok" = 2 ∧ written "data" = 4 ∧ written "error" = 5 := by
    decide
  have hfalse : width ((Value.bool false).render .upper) = 5 := rfl
  have hnull : width (Value.null.render .upper) = 4 := rfl
  simp only [Response.failure, errorValue, fieldsWidth, width_string, hkeys, hfalse, hnull]
  omega

theorem byte_width (b : UInt8) : width ((Value.number b.toNat).render .upper) ≤ 3 := by
  have hlt := b.toNat_lt
  rw [width_number, Nat.length_toDigits_le_iff (by decide) (by decide)]
  omega

theorem plain_table : ('='.toUInt8 :: encodeTable).all
    (fun c => isPlain (Char.ofUInt8 c) && String.utf8EncodeChar (Char.ofUInt8 c) == [c]) =
      true := by
  decide

theorem encodedText_mem (x : Bytes) : ∀ c ∈ encodedText x, c ∈ '='.toUInt8 :: encodeTable := by
  obtain ⟨body, k, htext, -, hbody, -⟩ := encodedText_textOf x
  intro c hc
  rw [htext] at hc
  rcases List.mem_append.1 hc with hc | hc
  · exact List.mem_cons_of_mem _ (hbody c hc)
  · rw [List.eq_of_mem_replicate hc]
    exact List.mem_cons_self

/-- Base64 text is written without escapes. -/
theorem encodedText_written (h : asBytes s = encodedText x) :
    written s = (encodedText x).length := by
  have hplain := fun c hc => Bool.and_eq_true_iff.1
    (List.all_eq_true.1 plain_table c (encodedText_mem x c hc))
  have hs : s = String.ofList ((encodedText x).map Char.ofUInt8) := by
    apply asBytes_injective
    rw [h, asBytes_ofList, List.flatMap_map]
    generalize encodedText x = text at hplain
    induction text with
    | nil => rfl
    | cons c text ih =>
      rw [List.flatMap_cons, beq_iff_eq.1 (hplain c List.mem_cons_self).2,
        ← ih fun d hd => hplain d (List.mem_cons_of_mem c hd)]
      rfl
  have hall : s.toList.all isPlain = true := by
    rw [hs, String.toList_ofList, List.all_map, List.all_eq_true]
    exact fun c hc => (hplain c hc).1
  rw [written, escape_self .upper hall, width, ← asBytes_eq_flatMap, h]

/-- The payload takes its base64 text, and twelve bytes around it. -/
theorem bytes_width (payload : HVec UInt8 maxPayloadLen) :
    dataWidth (some (.bytes payload)) = 12 + 4 * ((payload.toList.length + 2) / 3) := by
  obtain ⟨s, hs, hbytes⟩ := serializeBytes_text payload
  have hv : dataValue (some (.bytes payload)) = .ok (.object [("bytes", .string s)]) := by
    rw [dataValue, ResponseData.toValue, hs]
    rfl
  have hkey : written "bytes" = 5 := by decide
  rw [dataWidth_eq _ hv, width_object .upper (List.cons_ne_nil _ _)]
  simp only [fieldsWidth, width_string, hkey,
    encodedText_written hbytes, encodedText_length]
  omega

theorem hstring_written (s : HString n) : written s.toString ≤ 6 * n :=
  Nat.le_trans (written_le s.toString) (Nat.mul_le_mul_left 6 s.bounded)

theorem mqttFields_width (mqtt : Option MqttConfig) :
    fieldsWidth .upper (mqttFields mqtt) ≤ 417 := by
  have hkeys : written "mqtt_host" = 9 ∧ written "mqtt_port" = 9 := by decide
  cases mqtt with
  | none => exact Nat.zero_le _
  | some mqtt =>
    have hhost := hstring_written mqtt.host
    have hport : (Nat.toDigits 10 mqtt.port.toNat).length ≤ 5 := by
      have hlt := mqtt.port.toNat_lt
      rw [Nat.length_toDigits_le_iff (by decide) (by decide)]
      omega
    simp only [mqttFields, fieldsWidth, width_string, width_number, hkeys]
    omega

/-- What a configuration report takes, whose network name and address may need escapes. -/
theorem config_width (ssid : HString 32) (ip : HString 16) (connected : Bool)
    (mqtt : Option MqttConfig) : dataWidth (some (.config ssid ip connected mqtt)) =
      32 + written ssid.toString + written ip.toString +
        width ((Value.bool connected).render .upper) + fieldsWidth .upper (mqttFields mqtt) := by
  have hkeys : written "ssid" = 4 ∧ written "ip" = 2 ∧ written "connected" = 9 := by decide
  have hne := List.append_ne_nil_of_left_ne_nil (List.cons_ne_nil ("ssid", .string ssid.toString)
    [("ip", .string ip.toString), ("connected", Value.bool connected)]) (mqttFields mqtt)
  rw [dataWidth_eq (some (.config ssid ip connected mqtt)) rfl, width_object .upper hne]
  simp only [List.cons_append, List.nil_append, fieldsWidth, width_string, hkeys]
  omega

theorem dataWidth_le (data : Option ResponseData) : dataWidth data ≤ 742 := by
  have hkeys : written "value" = 5 ∧ written "version" = 7 := by decide
  cases data with
  | none => exact (by decide : 4 ≤ 742)
  | some data =>
    cases data with
    | gpioRead value =>
      have hdigits := byte_width value
      rw [dataWidth_eq (some (.gpioRead value)) rfl, width_object .upper (List.cons_ne_nil _ _)]
      simp only [fieldsWidth, hkeys]
      omega
    | bytes payload =>
      have hlen := payload.bounded
      have hmax : maxPayloadLen = 512 := rfl
      rw [bytes_width]
      omega
    | config ssid ip connected mqtt =>
      have hssid := hstring_written ssid
      have hip := hstring_written ip
      have hmqtt := mqttFields_width mqtt
      have hbool : width ((Value.bool connected).render .upper) ≤ 5 := by
        cases connected <;> decide
      rw [config_width]
      omega
    | version v =>
      have hversion := hstring_written v
      rw [dataWidth_eq (some (.version v)) rfl, width_object .upper (List.cons_ne_nil _ _)]
      simp only [fieldsWidth, width_string, hkeys]
      omega

/-- A JSON library that writes compact text. -/
def compactLibrary (fromSlice : Bytes → Option Command) : JsonLibrary where
  fromSlice := fromSlice
  toSlice r n := if r.compact.length ≤ n then some r.compact else none

theorem compactLibrary_writes (fromSlice : Bytes → Option Command) :
    WritesWhatFits (compactLibrary fromSlice) Response.compact := fun _ _ => rfl

theorem serialize_iff (hlib : WritesWhatFits lib text) (r : Response) :
    (∃ bytes, serializeResponse lib.toSlice r maxMsgLen = .ok bytes) ↔
      (text r).length < maxMsgLen := by
  rw [serializeResponse, hlib]
  constructor
  · intro hx
    obtain ⟨bytes, h⟩ := hx
    split at h
    · cases h
    · rename_i bytes' hbytes
      split at hbytes
      · cases hbytes
        split at h
        · cases h
        · exact Nat.lt_of_not_le ‹_›
      · cases hbytes
  · intro h
    simp only [if_pos (Nat.le_of_lt h), if_neg (Nat.not_le.2 h)]
    exact ⟨_, rfl⟩

theorem respond_length_le (a : Answer) (id : String) :
    (a.respond id).compact.length ≤ 782 + written id := by
  cases a with
  | ok data =>
    have hdata := dataWidth_le data
    rw [Answer.respond, success_length]
    omega
  | error e =>
    have hcode := error_written e
    rw [Answer.respond, failure_length]
    omega

/-- Every other answer is shorter than a report of the configuration. -/
theorem plain_length_le (h : Answer.Plain a) (id : String) :
    (a.respond id).compact.length ≤ 63 + written id := by
  cases h with
  | done =>
    have hdone : dataWidth none = 4 := by decide
    rw [Answer.respond, success_length, hdone]
    omega
  | version =>
    have hversion : dataWidth (some (.version ((HString.empty.pushStr "0.1.0").getD .empty))) =
      19 := by decide
    rw [Answer.respond, success_length, hversion]
    omega
  | @refused e _ =>
    have hcode := error_written e
    rw [Answer.respond, failure_length]
    omega

/-- What a command is answered is short, or it reports the configuration. -/
theorem execute_length_le (h : execute s cmd = .ok (r, s')) :
    r.compact.length ≤ 63 + written cmd.id ∨ r = .success cmd.id
      (some (.config s.configSsid s.configIp s.configConnected s.configMqtt)) := by
  rw [execute_due h]
  by_cases hop : cmd.operation = .reportConfig
  · rw [hop]
    exact .inr rfl
  · exact .inl (plain_length_le ((operation_asks cmd).due_plain s hop) cmd.id)

/-- A state that a connection reaches, whatever commands it has executed. -/
def Reached (ssid : HString 32) (ip : HString 16) (s : DeviceState) : Prop :=
  ∃ cmds rs, Steps execute (clientState ssid ip) cmds rs s

theorem reached_report (h : Reached ssid ip s) : s.configSsid = ssid ∧ s.configIp = ip ∧
    s.configConnected = true ∧ s.configMqtt = none := by
  obtain ⟨cmds, rs, hs⟩ := h
  have hstep : ∀ s cmd r s', s.readOnly = (clientState ssid ip).readOnly → True →
      execute s cmd = .ok (r, s') → s'.readOnly = (clientState ssid ip).readOnly := by
    intro s cmd r s' hi _ he
    obtain ⟨a, -, ha⟩ := execute_effect he
    exact ha.readOnly_eq.trans hi
  have hread := hs.invariant along_true hstep rfl
  exact ⟨congrArg ReadOnly.configSsid hread, congrArg ReadOnly.configIp hread,
    congrArg ReadOnly.configConnected hread, congrArg ReadOnly.configMqtt hread⟩

def configGet (id : String) : Command where
  version := some 1
  id
  interface := some "config"
  action := some "get"

/-- Whatever the commands of a connection under an id are answered, and whenever, the response can
be written if and only if the id, the network name and the address take at most 947 bytes. -/
theorem every_answer_fits_iff (lib : JsonLibrary) (hlib : WritesWhatFits lib Response.compact)
    (ssid : HString 32) (ip : HString 16) (id : String) :
    (∀ s cmd r s', Reached ssid ip s → cmd.id = id → execute s cmd = .ok (r, s') →
      ∃ bytes, serializeResponse lib.toSlice r maxMsgLen = .ok bytes) ↔
      written id + written ssid.toString + written ip.toString ≤ 947 := by
  have hmax : maxMsgLen = 1024 := rfl
  have hreport : (Response.success id (some (.config ssid ip true none))).compact.length =
      76 + written id + written ssid.toString + written ip.toString := by
    have htrue : width ((Value.bool true).render .upper) = 4 := rfl
    have hnone : fieldsWidth .upper (mqttFields none) = 0 := rfl
    rw [success_length, config_width, htrue, hnone]
    omega
  simp only [serialize_iff hlib]
  constructor
  · intro h
    have hlen := h (clientState ssid ip) (configGet id)
      (.success id (some (.config ssid ip true none))) (clientState ssid ip) ⟨[], [], .nil⟩ rfl rfl
    omega
  · rintro h s cmd r s' hs rfl he
    rcases execute_length_le he with hlen | rfl
    · omega
    · obtain ⟨hssid, hip, hconnected, hmqtt⟩ := reached_report hs
      rw [hssid, hip, hconnected, hmqtt, hreport]
      omega

theorem short_id_fits : ∃ bytes, serializeResponse (compactLibrary fun _ => none).toSlice
    (.success "1" (some (.config .empty .empty true none))) maxMsgLen = .ok bytes :=
  (every_answer_fits_iff _ (compactLibrary_writes _) .empty .empty "1").2 (by decide)
    (clientState .empty .empty) (configGet "1") _ _ ⟨[], [], .nil⟩ rfl rfl

theorem flatMap_sent (hlib : WritesWhatFits lib text) (rs : List Response) :
    rs.flatMap (sent lib) =
      ((rs.filter fun r => (text r).length < maxMsgLen).map text).map (· ++ [newline]) := by
  induction rs with
  | nil => rfl
  | cons r rs ih =>
    rw [List.flatMap_cons, sent_eq hlib, ih, List.filter_cons]
    by_cases hlen : (text r).length < maxMsgLen
    · rw [if_pos hlen, if_pos (decide_eq_true hlen)]
      rfl
    · rw [if_neg hlen, if_neg (by simpa using hlen)]
      rfl

theorem closed_sent (hlib : WritesWhatFits lib Response.compact) (rs : List Response) :
    closed newline (rs.flatMap (sent lib)).flatten =
      (rs.filter fun r => r.compact.length < maxMsgLen).map Response.compact := by
  rw [flatMap_sent hlib]
  refine closed_lines fun line hline => ?_
  obtain ⟨r, -, rfl⟩ := List.mem_map.1 hline
  exact newline_not_mem_compact r

/-- The bytes that the device writes for some responses determine those that were written. -/
theorem written_responses_recovered (lib : JsonLibrary)
    (hlib : WritesWhatFits lib Response.compact) (rs rs' : List Response) :
    (rs.flatMap (sent lib)).flatten = (rs'.flatMap (sent lib)).flatten ↔
      (rs.filter fun r => r.compact.length < maxMsgLen) =
        rs'.filter fun r => r.compact.length < maxMsgLen := by
  constructor
  · intro h
    have hlines := congrArg (closed newline) h
    rw [closed_sent hlib, closed_sent hlib] at hlines
    exact List.map_injective_iff.2 (fun _ _ => compact_injective) hlines
  · intro h
    rw [flatMap_sent hlib, flatMap_sent hlib, h]

theorem swapped_responses_differ :
    ([Response.success "1" none, .success "2" none].flatMap
        (sent (compactLibrary fun _ => none))).flatten ≠
      ([Response.success "2" none, .success "1" none].flatMap
        (sent (compactLibrary fun _ => none))).flatten := by
  intro h
  exact absurd ((written_responses_recovered _ (compactLibrary_writes _) _ _).1 h) (by decide)

end PicoConduit
