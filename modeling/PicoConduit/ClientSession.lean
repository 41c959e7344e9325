import PicoConduit.ClientApi
import PicoConduit.ClientCalls

namespace PicoConduit
open Checked Heapless Utf8 Transducer Trace Json JsonString
set_option autoImplicit true

namespace Client

/-- What can go wrong with a call, apart from the connection itself. -/
inductive CallError
  | json
  | firmware (code : String)
  | badResponse (message : String)
  deriving DecidableEq

/-- What a method returns. The numbers of an analog reading are those of its JSON text. -/
inductive Returned
  | unit
  | value (v : UInt8)
  | bytes (bytes : Bytes)
  | sample (raw : UInt16) (voltage : Nat)
  | temperature (celsius : Nat)
  | config (ssid ip : String) (connected : Bool)
  deriving DecidableEq

def readString : Value → Option String
  | .string s => some s
  | _ => none

def readBool : Value → Option Bool
  | .bool b => some b
  | _ => none

/-- A field of any kind, which may be missing or null. -/
def anyValue : Option Value → Option Value
  | some .null => none
  | field => field

/-- The `RawResponse` that an object describes. -/
def RawResponse.ofValue (v : Value) : Option RawResponse :=
  if GivenOnce ["id", "ok", "data", "error"] v then do
    let id ← (v.get "id").bind readString
    let ok ← (v.get "ok").bind readBool
    let error ← optional readString (v.get "error")
    pure ⟨id, ok, anyValue (v.get "data"), error⟩
  else none

/-- `send_raw`, once a line has come back. -/
def sendRaw (fromStr : Bytes → Option RawResponse) (respLine : Bytes) :
    Except CallError RawResponse :=
  match fromStr respLine with
  | none => .error .json
  | some resp =>
    if !resp.ok then .error (.firmware (resp.error.getD "unknown error")) else .ok resp

def missing (message : String) : Except CallError Returned := .error (.badResponse message)

def bytesOf (lib : Libraries) (resp : RawResponse) : Except CallError Returned :=
  match extractBytes lib resp with
  | .ok bytes => .ok (.bytes bytes)
  | .error (.badResponse message) => missing message

/-- `serde_json::from_value` for a `ConfigInfo`. -/
def configInfo (data : Value) : Option Returned := do
  let ssid ← (data.get "ssid").bind readString
  let ip ← (data.get "ip").bind readString
  let connected ← (data.get "connected").bind readBool
  pure (.config ssid ip connected)

/-- What a method makes of a response. -/
def Method.finish (lib : Libraries) (m : Method) (resp : RawResponse) : Except CallError Returned :=
  match m with
  | .gpioRead _ =>
    match (resp.data.bind (·.get "value")).bind Value.asU64 with
    | none => missing "missing data.value"
    | some v => .ok (.value (UInt8.ofNat v))
  | .adcRead _ =>
    match resp.data with
    | none => missing "missing data"
    | some data =>
      match (data.get "raw").bind Value.asU64 with
      | none => missing "missing data.raw"
      | some raw =>
        match (data.get "voltage").bind Value.asF64 with
        | none => missing "missing data.voltage"
        | some voltage => .ok (.sample (UInt16.ofNat raw) voltage)
  | .adcTemp =>
    match resp.data with
    | none => missing "missing data"
    | some data =>
      match (data.get "celsius").bind Value.asF64 with
      | none => missing "missing data.celsius"
      | some celsius => .ok (.temperature celsius)
  | .uartRead _ _ | .i2cRead _ _ _ | .usbRead _ => bytesOf lib resp
  | .payload (.spiTransfer _) _ | .payload (.i2cWriteRead _ _ _) _ => bytesOf lib resp
  | .configGet =>
    match resp.data with
    | none => missing "missing data"
    | some data =>
      match configInfo data with
      | none => .error .json
      | some info => .ok info
  | _ => .ok .unit

/-- The result of a call that has come back with a line. -/
def Method.result (fromStr : Bytes → Option RawResponse) (lib : Libraries) (m : Method)
    (respLine : Bytes) : Except CallError Returned := do
  let resp ← sendRaw fromStr respLine
  m.finish lib resp

def refused (e : ErrorCode) : Except CallError Returned := .error (.firmware e.text)

def parityOf (s : String) : Option UartParity :=
  if s = "none" then some .none
  else if s = "odd" then some .odd
  else if s = "even" then some .even
  else none

/-- What a call does to the device that it is made on, as if there were no connection between: it
returns, or the firmware refuses it. -/
def Method.perform (s : DeviceState) : Method → Except CallError Returned × DeviceState
  | .gpioWrite _ _ | .gpioRead _ | .adcTemp => (refused .notConfigured, s)
  | .gpioSetMode pin mode pull =>
    if isPinAvailable pin = false then (refused .invalidPin, s)
    else if (mode = "input" ∨ mode = "output") ∧ (pull = "up" ∨ pull = "down" ∨ pull = "none") then
      (.ok .unit, s)
    else (refused .valueOutOfRange, s)
  | .adcRead channel =>
    (refused (if (channelOf channel).isSome then .notConfigured else .malformedJson), s)
  | .uartConfigure uart baud dataBits parity stopBits =>
    match parityOf parity with
    | none => (refused .valueOutOfRange, s)
    | some parity =>
      if uart ≤ 1 ∧ 0 < baud ∧ (dataBits = 7 ∨ dataBits = 8) ∧ (stopBits = 1 ∨ stopBits = 2) then
        (.ok .unit, s.store (indexOf uart)
          (.uart { baud, dataBits, parity, stopBits, configured := true }))
      else (refused .valueOutOfRange, s)
  | .spiConfigure spi freqHz cpol cpha =>
    if spi ≤ 1 ∧ 0 < freqHz ∧ cpol ≤ 1 ∧ cpha ≤ 1 then
      (.ok .unit, s.store (indexOf spi) (.spi { freqHz, cpol, cpha, configured := true }))
    else (refused .valueOutOfRange, s)
  | .i2cConfigure i2c freqHz =>
    if i2c ≤ 1 ∧ (freqHz = 100000 ∨ freqHz = 400000) then
      (.ok .unit, s.store (indexOf i2c) (.i2c { freqHz, configured := true }))
    else (refused .valueOutOfRange, s)
  | .pwmSetDuty channel _ | .pwmEnable channel | .pwmDisable channel =>
    (if channel ≤ 15 then .ok .unit else refused .valueOutOfRange, s)
  | .pwmSetFreq channel freqHz =>
    (if channel ≤ 15 ∧ freqHz ≠ 0 then .ok .unit else refused .valueOutOfRange, s)
  | .uartRead _ len | .i2cRead _ _ len | .usbRead len =>
    (refused (if len.toNat < 4294967296 then .notConfigured else .malformedJson), s)
  | .configGet =>
    (.ok (.config s.configSsid.toString s.configIp.toString s.configConnected), s)
  | .payload _ _ => (refused .malformedJson, s)

/-- The client's JSON library reads a response as what it describes. -/
def ReadsResponses (fromStr : Bytes → Option RawResponse) : Prop :=
  ∀ r v, Response.toValue r = .ok v → fromStr (v.toBytes .upper) = RawResponse.ofValue v

theorem validateIndex_some (command : Command) (idx max : UInt8) :
    validateIndex command (some idx) max =
      if idx ≤ max then .ok idx else .error (.failure command.id .valueOutOfRange) := by
  simp only [validateIndex, ← UInt8.not_le, ite_not, gt_iff_lt]

theorem guard_bind (p : Prop) [Decidable p] (x : α) (r : Response)
    (f : α → Except Response β) :
    ((if p then Except.ok x else .error r) >>= f) = if p then f x else .error r := by
  split <;> rfl

theorem accept_bind (x : α) (f : α → Except Response β) : (Except.ok x >>= f) = f x := rfl

theorem refuse_bind (r : Response) (f : α → Except Response β) :
    (Except.error r >>= f) = .error r := rfl

theorem parseParity_some (h : Command.parity command = some (rawText parity)) :
    Uart.parseParity command =
      match parityOf parity with
      | some p => .ok p
      | none => .error (.failure command.id .valueOutOfRange) := by
  have hnone : rawText parity = "none" ↔ parity = "none" := rawText_eq_iff (by decide)
  have hodd : rawText parity = "odd" ↔ parity = "odd" := rawText_eq_iff (by decide)
  have heven : rawText parity = "even" ↔ parity = "even" := rawText_eq_iff (by decide)
  have hraw : parityOf parity = parityOf (rawText parity) := by
    simp only [parityOf, hnone, hodd, heven]
  rw [Uart.parseParity, h, hraw, parityOf]
  generalize rawText parity = t
  by_cases h₁ : t = "none"
  · rw [h₁]
    rfl
  · by_cases h₂ : t = "odd"
    · rw [h₂]
      rfl
    · by_cases h₃ : t = "even"
      · rw [h₃]
        rfl
      · rw [if_neg h₁, if_neg h₂, if_neg h₃]
        split
        · rename_i he
          exact absurd (Option.some.inj he) h₁
        · rename_i he
          cases he
        · rename_i he
          exact absurd (Option.some.inj he) h₂
        · rename_i he
          exact absurd (Option.some.inj he) h₃
        · rfl

theorem uart_handleConfigure (hu : Command.uart command = some uart)
    (hb : command.baud = some baud) (hd : command.dataBits = some dataBits)
    (hp : command.parity = some (rawText parity)) (hs : command.stopBits = some stopBits) :
    Uart.handleConfigure command =
      match parityOf parity with
      | none => .error (.failure command.id .valueOutOfRange)
      | some parity =>
        if uart ≤ 1 ∧ 0 < baud ∧ (dataBits = 7 ∨ dataBits = 8) ∧ (stopBits = 1 ∨ stopBits = 2) then
          .ok { baud, dataBits, parity, stopBits, configured := true }
        else .error (.failure command.id .valueOutOfRange) := by
  simp only [Uart.handleConfigure, Uart.validateUart, hu, hb, hd, hs, validateIndex_some,
    requireField, fieldOr, parseParity_some hp, guard_bind, decide_eq_true_eq, Bool.or_eq_true,
    beq_iff_eq, gt_iff_lt]
  cases parityOf parity with
  | none => simp only [refuse_bind, ite_self]
  | some p => simp only [accept_bind, ite_and]

theorem gpio_handleSetMode (hp : Command.pin command = some pin)
    (hm : command.mode = some (rawText mode)) (hu : command.pull = some (rawText pull)) :
    Gpio.handleSetMode command =
      if isPinAvailable pin = false then .failure command.id .invalidPin
      else if (mode = "input" ∨ mode = "output") ∧
          (pull = "up" ∨ pull = "down" ∨ pull = "none") then .success command.id none
      else .failure command.id .valueOutOfRange := by
  have hinput : rawText mode = "input" ↔ mode = "input" := rawText_eq_iff (by decide)
  have houtput : rawText mode = "output" ↔ mode = "output" := rawText_eq_iff (by decide)
  have hup : rawText pull = "up" ↔ pull = "up" := rawText_eq_iff (by decide)
  have hdown : rawText pull = "down" ↔ pull = "down" := rawText_eq_iff (by decide)
  have hnone : rawText pull = "none" ↔ pull = "none" := rawText_eq_iff (by decide)
  simp only [Gpio.handleSetMode, Gpio.validatePin, hp, hm, hu, hinput, houtput, hup, hdown, hnone,
    ite_and]
  cases isPinAvailable pin <;> rfl

section Result
variable {fromStr : Bytes → Option RawResponse} (hread : ReadsResponses fromStr)
include hread

theorem result_failure (lib : Libraries) (m : Method) (id : String) (e : ErrorCode) :
    m.result fromStr lib (Response.failure id e).compact = refused e := by
  obtain ⟨v, hd, hv⟩ := toValue_eq (.failure id e)
  cases hd
  rw [compact_eq hv, Method.result, sendRaw, hread _ _ hv]
  rfl

theorem result_success (lib : Libraries) (m : Method) (id : String) (data : Option ResponseData)
    (hd : dataValue data = .ok v) : m.result fromStr lib (Response.success id data).compact =
      m.finish lib ⟨id, true, anyValue (some v), none⟩ := by
  obtain ⟨w, hw, hv⟩ := toValue_eq (.success id data)
  rw [show dataValue (Response.success id data).data = dataValue data from rfl, hd] at hw
  cases hw
  rw [compact_eq hv, Method.result, sendRaw, hread _ _ hv]
  rfl

/-- The device answers a command as the call that it stands for is performed. -/
def Performs (fromStr : Bytes → Option RawResponse) (lib : Libraries) (m : Method)
    (s : DeviceState) (command : Command) : Prop :=
  ∃ a, execute s command = .ok (Answer.respond command.id a, (m.perform s).2) ∧
    m.result fromStr lib (Answer.respond command.id a).compact = (m.perform s).1

theorem performs_refused (lib : Libraries) (hop : command.operation = .answer (.error e))
    (hm : Method.perform s m = (refused e, s)) : Performs fromStr lib m s command := by
  refine ⟨.error e, ?_, ?_⟩
  · rw [hm, execute_eq_ok, hop]
    exact ⟨_, rfl, rfl⟩
  · rw [hm]
    exact result_failure hread lib m command.id e

theorem performs_unit (lib : Libraries)
    (hop : command.operation.apply command.id s = .ok (.ok none, s'))
    (hm : Method.perform s m = (.ok .unit, s'))
    (hfinish : m.finish lib ⟨command.id, true, none, none⟩ = .ok .unit) :
    Performs fromStr lib m s command := by
  refine ⟨.ok none, ?_, ?_⟩
  · rw [hm, execute_eq_ok]
    exact ⟨_, hop, rfl⟩
  · rw [hm, ← hfinish]
    exact result_success hread lib m command.id none rfl

theorem performs_configure (lib : Libraries) {valid : Prop} [Decidable valid]
    {setting : κ → Setting} (hop : command.operation =
      configureOperation (if valid then .ok cfg else .error (.failure command.id .valueOutOfRange))
        (some i) setting)
    (hm : m.perform s = if valid then (.ok .unit, s.store (indexOf i) (setting cfg))
      else (refused .valueOutOfRange, s))
    (hfinish : m.finish lib ⟨command.id, true, none, none⟩ = .ok .unit) :
    Performs fromStr lib m s command := by
  by_cases hvalid : valid
  · rw [if_pos hvalid] at hop hm
    refine performs_unit hread lib ?_ hm hfinish
    rw [hop]
    rfl
  · rw [if_neg hvalid] at hop hm
    refine performs_refused hread lib ?_ hm
    rw [hop]
    rfl

/-- A method on a channel, whose handler may find something else out of its range. -/
theorem performs_channel (lib : Libraries) (good : Prop) [Decidable good]
    (hchannel : Command.channel command = some channel)
    (hop : command.operation = .answer (Pwm.onChannel command
      (if good then .success command.id none else .failure command.id .valueOutOfRange)).answer)
    (hm : m.perform s =
      (if channel ≤ 15 ∧ good then .ok .unit else refused .valueOutOfRange, s))
    (hfinish : m.finish lib ⟨command.id, true, none, none⟩ = .ok .unit) :
    Performs fromStr lib m s command := by
  rw [Pwm.onChannel, Pwm.validateChannel, hchannel, validateIndex_some, Pwm.maxPwmChannel] at hop
  by_cases hindex : channel ≤ 15
  · rw [if_pos hindex] at hop
    by_cases hgood : good
    · rw [if_pos hgood] at hop
      rw [if_pos ⟨hindex, hgood⟩] at hm
      refine performs_unit hread lib ?_ hm hfinish
      rw [hop]
      rfl
    · rw [if_neg hgood] at hop
      rw [if_neg fun h => hgood h.2] at hm
      exact performs_refused hread lib hop hm
  · rw [if_neg hindex] at hop
    rw [if_neg fun h => hindex h.1] at hm
    exact performs_refused hread lib hop hm

theorem performs (lib : Libraries) (s : DeviceState) (h : Method.command reqId m = some command) :
    Performs fromStr lib m s command := by
  cases m with
  | gpioWrite | gpioRead | adcTemp =>
    cases h
    exact performs_refused hread lib rfl rfl
  | gpioSetMode pin mode pull =>
    cases h
    by_cases hpin : isPinAvailable pin = false
    · refine performs_refused hread lib ?_ (by rw [Method.perform, if_pos hpin])
      show Operation.answer (Gpio.handleSetMode _).answer = _
      rw [gpio_handleSetMode rfl rfl rfl, if_pos hpin]
      rfl
    · by_cases hvalid : (mode = "input" ∨ mode = "output") ∧
          (pull = "up" ∨ pull = "down" ∨ pull = "none")
      · refine performs_unit hread lib ?_ (by rw [Method.perform, if_neg hpin, if_pos hvalid]) rfl
        show Operation.apply _ _ (.answer (Gpio.handleSetMode _).answer) = _
        rw [gpio_handleSetMode rfl rfl rfl, if_neg hpin, if_pos hvalid]
        rfl
      · refine performs_refused hread lib ?_ (by rw [Method.perform, if_neg hpin, if_neg hvalid])
        show Operation.answer (Gpio.handleSetMode _).answer = _
        rw [gpio_handleSetMode rfl rfl rfl, if_neg hpin, if_neg hvalid]
        rfl
  | adcRead channel =>
    obtain ⟨c, hc, rfl⟩ := Option.map_eq_some_iff.1 h
    refine performs_refused hread lib rfl ?_
    rw [Method.perform, hc]
    rfl
  | uartConfigure uart baud dataBits parity stopBits =>
    cases h
    cases hparity : parityOf parity with
    | none =>
      refine performs_refused hread lib ?_ (by rw [Method.perform, hparity])
      show configureOperation (Uart.handleConfigure _) _ _ = _
      rw [uart_handleConfigure rfl rfl rfl rfl rfl, hparity]
      rfl
    | some p =>
      refine performs_configure hread lib ?_ (by rw [Method.perform, hparity]) rfl
      show configureOperation (Uart.handleConfigure _) _ _ = _
      rw [uart_handleConfigure rfl rfl rfl rfl rfl, hparity]
  | spiConfigure spi freqHz cpol cpha =>
    cases h
    refine performs_configure hread lib ?_ rfl rfl
    show configureOperation (Spi.handleConfigure _) _ _ = _
    simp only [Spi.handleConfigure, Spi.validateSpi, validateIndex_some, requireField, fieldOr,
      guard_bind, decide_eq_true_eq, ite_and, gt_iff_lt]
  | i2cConfigure i2c freqHz =>
    cases h
    refine performs_configure hread lib ?_ rfl rfl
    show configureOperation (I2c.handleConfigure _) _ _ = _
    simp only [I2c.handleConfigure, I2c.validateI2c, validateIndex_some, requireField, guard_bind,
      Bool.or_eq_true, beq_iff_eq, ite_and]
  | pwmSetDuty channel dutyU16 =>
    cases h
    exact performs_channel hread lib True rfl rfl (by simp only [Method.perform, and_true]) rfl
  | pwmSetFreq channel freqHz =>
    cases h
    refine performs_channel hread lib (freqHz ≠ 0) rfl ?_ rfl rfl
    rw [ite_not]
    rfl
  | pwmEnable channel =>
    cases h
    exact performs_channel hread lib True rfl rfl (by simp only [Method.perform, and_true]) rfl
  | pwmDisable channel =>
    cases h
    exact performs_channel hread lib True rfl rfl (by simp only [Method.perform, and_true]) rfl
  | uartRead | i2cRead | usbRead =>
    simp only [Method.command] at h
    split at h
    · rename_i hlen
      cases h
      refine performs_refused hread lib rfl ?_
      rw [Method.perform, if_pos hlen]
    · cases h
  | configGet =>
    cases h
    refine ⟨.ok (some (.config s.configSsid s.configIp s.configConnected s.configMqtt)), rfl, ?_⟩
    exact result_success hread lib .configGet reqId
      (some (.config s.configSsid s.configIp s.configConnected s.configMqtt)) rfl
  | payload => cases h

end Result

/-- The firmware's JSON library reads a request as the command that it describes. -/
def ReadsRequests (lib : JsonLibrary) : Prop :=
  ∀ n (m : Method), lib.fromSlice (m.line n).bytes = Command.ofValue (byKey (m.request n))

/-- The client's JSON library writes a request without white space, in the order of its keys and
with lower-case letters in escapes. -/
def WritesRequests (toStr : Value → Bytes) : Prop :=
  ∀ n (m : Method), toStr (m.request n) = (byKey (m.request n)).toBytes .lower

/-- A call over a connection, on which a request that is too long is refused. -/
def Method.call (n : UInt64) (m : Method) (s : DeviceState) :
    Except CallError Returned × DeviceState :=
  if (m.line n).bytes.length < maxMsgLen then m.perform s else (refused .msgTooLarge, s)

/-- What some calls make of the lines that have come back. -/
def results (fromStr : Bytes → Option RawResponse) (libs : Libraries)
    (calls : List (UInt64 × Method)) (lines : List Bytes) : List (Except CallError Returned) :=
  List.zipWith (fun call line => call.2.result fromStr libs line) calls lines

/-- What some calls return when they are performed one after the other. -/
def outcomes : DeviceState → List (UInt64 × Method) → List (Except CallError Returned)
  | _, [] => []
  | s, (n, m) :: calls => (m.call n s).1 :: outcomes (m.call n s).2 calls

theorem command_version (h : Method.command reqId m = some command) :
    command.version = some 1 ∧ command.id = reqId := by
  cases m with
  | adcRead =>
    obtain ⟨c, -, rfl⟩ := Option.map_eq_some_iff.1 h
    exact ⟨rfl, rfl⟩
  | uartRead | i2cRead | usbRead =>
    simp only [Method.command] at h
    split at h
    · cases h
      exact ⟨rfl, rfl⟩
    · cases h
  | payload => cases h
  | _ =>
    cases h
    exact ⟨rfl, rfl⟩

/-- A request that the firmware cannot read is refused as malformed. -/
theorem perform_unread (s : DeviceState) (h : Method.command reqId m = none) :
    m.perform s = (refused .malformedJson, s) := by
  cases m with
  | adcRead channel =>
    rw [Method.perform, Option.map_eq_none_iff.1 h]
    rfl
  | uartRead | i2cRead | usbRead =>
    simp only [Method.command] at h
    split at h
    · cases h
    · rename_i hlen
      rw [Method.perform, if_neg hlen]
  | payload => rfl
  | _ => cases h

theorem perform_pendingReboot (m : Method) (s : DeviceState) :
    (m.perform s).2.pendingReboot = s.pendingReboot := by
  cases m with
  | gpioSetMode | spiConfigure | i2cConfigure =>
    simp only [Method.perform]
    split_ifs <;> rfl
  | uartConfigure =>
    simp only [Method.perform]
    split
    · rfl
    · split_ifs <;> rfl
  | _ => rfl

theorem call_pendingReboot (n : UInt64) (m : Method) (s : DeviceState) :
    (m.call n s).2.pendingReboot = s.pendingReboot := by
  rw [Method.call]
  split
  · exact perform_pendingReboot m s
  · rfl

section Answers
variable {lib : JsonLibrary} {fromStr : Bytes → Option RawResponse}
  (hlib : ReadsRequests lib) (hread : ReadsResponses fromStr)
include hlib hread

/-- The device answers the line of a call as the call says, and the method makes of the answer what
the call says. -/
theorem answerItem_line (libs : Libraries) (n : UInt64) (m : Method) (s : DeviceState) :
    ∃ r, answerItem lib s (m.line n).item = .ok (r, (m.call n s).2) ∧
      m.result fromStr libs r.compact = (m.call n s).1 ∧ r.compact.length < maxMsgLen := by
  have hfits (a : Answer) {id : String} (hid : written id ≤ 20) :
      (a.respond id).compact.length < maxMsgLen := by
    have hmax : maxMsgLen = 1024 := rfl
    have hlen := respond_length_le a id
    omega
  have hempty : written "" ≤ 20 := by decide
  by_cases hlen : (m.line n).bytes.length < maxMsgLen
  · have hitem : (m.line n).item = .frame (m.line n).bytes := if_pos (Nat.le_pred_of_lt hlen)
    have hcall : m.call n s = m.perform s := if_pos hlen
    have hslice := (hlib n m).trans (ofValue_request n m)
    rw [hitem, hcall]
    cases hcommand : m.command (nextId n) with
    | none =>
      rw [hcommand] at hslice
      have hparse : parseCommand lib.fromSlice (m.line n).bytes = .error .malformedJson := by
        rw [parseCommand, if_neg (Nat.not_lt.2 (Nat.le_of_lt hlen)), hslice]
      rw [perform_unread s hcommand]
      exact ⟨_, answerFrame_error hparse, result_failure hread libs m "" .malformedJson,
        hfits (.error .malformedJson) hempty⟩
    | some command =>
      rw [hcommand] at hslice
      obtain ⟨hversion, hid⟩ := command_version hcommand
      obtain ⟨a, hrun, hresult⟩ := performs hread libs s hcommand
      have hparse := parseCommand_eq_ok.2 ⟨Nat.le_of_lt hlen, hslice, hversion⟩
      exact ⟨_, (answerFrame_ok hparse).trans hrun, hresult,
        hfits a (hid ▸ nextId_written n)⟩
  · have hitem : (m.line n).item = .failure .msgTooLarge :=
      if_neg fun hle => hlen (Nat.lt_of_le_pred (by decide) hle)
    have hcall : m.call n s = (refused .msgTooLarge, s) := if_neg hlen
    rw [hitem, hcall]
    exact ⟨_, rfl, result_failure hread libs m "" .msgTooLarge, hfits (.error .msgTooLarge) hempty⟩

theorem steps_outcomes (libs : Libraries) {calls : List (UInt64 × Method)}
    (hlines : List.Forall₂ (fun r line => sent lib r = [line ++ [newline]]) rs lines)
    (hwrites : WritesWhatFits lib Response.compact)
    (h : Steps (answerItem lib) s (calls.map fun c => (c.2.line c.1).item) rs s') :
    results fromStr libs calls lines = outcomes s calls := by
  induction calls generalizing s rs lines with
  | nil => rfl
  | cons call calls ih =>
    obtain ⟨n, m⟩ := call
    obtain ⟨r, hanswer, hresult, hroom⟩ := answerItem_line hlib hread libs n m s
    cases h with
    | cons ha hrest =>
      rw [hanswer] at ha
      cases ha
      cases hlines with
      | cons hsent hlines =>
        rw [sent_eq hwrites, if_pos hroom] at hsent
        obtain ⟨hline, -⟩ := List.append_inj' (List.cons.inj hsent).1 rfl
        have htail := ih hlines hrest
        rw [results] at htail ⊢
        rw [List.zipWith_cons_cons, htail, ← hline, hresult]
        rfl

end Answers

theorem outcomes_take (s : DeviceState) (calls : List (UInt64 × Method)) (k : Nat) :
    outcomes s (calls.take k) = (outcomes s calls).take k := by
  induction calls generalizing s k with
  | nil => rw [List.take_nil, outcomes, List.take_nil]
  | cons call calls ih =>
    obtain ⟨n, m⟩ := call
    cases k with
    | zero => rfl
    | succ k => rw [List.take_succ_cons, outcomes, outcomes, List.take_succ_cons, ih]

/-- The lines of a history of method calls. -/
theorem callsOf_methods {toStr : Value → Bytes} {calls : List (UInt64 × Method)}
    (hto : WritesRequests toStr)
    (h : (callsOf past).map Line.bytes = calls.map fun c => toStr (c.2.request c.1)) :
    callsOf past = calls.map fun c => c.2.line c.1 := by
  have hinj : Function.Injective Line.bytes := by
    rintro ⟨bytes, _⟩ ⟨_, _⟩ rfl
    rfl
  apply hinj.list_map
  rw [h, List.map_map]
  exact List.map_congr_left fun c _ => hto c.1 c.2

/-- However the bytes of both directions arrive, a method of the client library returns what the
call does to the device when the calls are made on it directly, one after the other: either what the
method promises or the firmware's error code, and never an error of the protocol. -/
theorem remote_calls_exact (lib : JsonLibrary) (fromStr : Bytes → Option RawResponse)
    (toStr : Value → Bytes) (libs : Libraries) (hlib : ReadsRequests lib)
    (hwrites : WritesWhatFits lib Response.compact) (hread : ReadsResponses fromStr)
    (hto : WritesRequests toStr) (buf : Vector UInt8 maxMsgLen) (ssid : HString 32)
    (ip : HString 16) (past : List LinkEvent) (l : Link)
    (h : Run (LinkStep lib buf) (.start ssid ip) past l) (calls : List (UInt64 × Method))
    (hcalls : (callsOf past).map Line.bytes = calls.map fun c => toStr (c.2.request c.1)) :
    results fromStr libs calls (returnsOf past) =
      (outcomes (clientState ssid ip) calls).take (returnsOf past).length := by
  obtain ⟨s, pending, returned, -, hsplit, rs, hsteps, hlines⟩ :=
    run_answered (hwrites.oneLine newline_not_mem_compact) h
  rw [callsOf_methods hto hcalls] at hsplit
  obtain ⟨done, rest, rfl, rfl, -⟩ := List.map_eq_append_iff.1 hsplit
  rw [List.map_map] at hsteps
  have hlen : (returnsOf past).length = done.length := by
    rw [← hlines.length_eq, hsteps.length_eq, List.length_map]
  have htake := outcomes_take (clientState ssid ip) (done ++ rest) done.length
  rw [List.take_left] at htake
  have hzip : results fromStr libs (done ++ rest) (returnsOf past ++ []) =
      results fromStr libs done (returnsOf past) ++ results fromStr libs rest [] :=
    List.zipWith_append hlen.symm
  have hnone : results fromStr libs rest [] = [] := List.zipWith_nil_right
  rw [List.append_nil, hnone, List.append_nil] at hzip
  rw [hlen, ← htake, ← steps_outcomes hlib hread libs hlines hwrites hsteps, hzip]

/-- The JSON libraries of both sides as documented. -/
def documentedFirmware : JsonLibrary :=
  compactLibrary fun bytes => (Value.ofBytes bytes).bind Command.ofValue

def documentedFromStr (bytes : Bytes) : Option RawResponse :=
  (Value.ofBytes bytes).bind RawResponse.ofValue

def documentedToStr (v : Value) : Bytes := (byKey v).toBytes .lower

theorem documentedFirmware_reads : ReadsRequests documentedFirmware := by
  intro n m
  exact congrArg (Option.bind · Command.ofValue) (ofBytes_toBytes .lower (byKey (m.request n)))

theorem documentedFromStr_reads : ReadsResponses documentedFromStr := by
  intro r v _
  exact congrArg (Option.bind · RawResponse.ofValue) (ofBytes_toBytes .upper v)

theorem documentedToStr_writes : WritesRequests documentedToStr := fun _ _ => rfl

/-- A call with a character in one of its arguments that has to be escaped. -/
def escapedCall : Method := .gpioSetMode 2 "\x1b" "up"

def twoCalls : List (UInt64 × Method) := [(1, .i2cConfigure 0 100000), (2, escapedCall)]

theorem twoCalls_outcomes : outcomes (clientState .empty .empty) twoCalls =
    [.ok .unit, .error (.firmware "value_out_of_range")] := by
  decide

theorem twoCalls_returned : ∃ past l,
    Run (LinkStep documentedFirmware (.replicate maxMsgLen 0)) (.start .empty .empty) past l ∧
    results documentedFromStr documentedLibraries twoCalls (returnsOf past) =
      [.ok .unit, .error (.firmware "value_out_of_range")] := by
  have hwrites := compactLibrary_writes documentedFirmware.fromSlice
  obtain ⟨r₁, ha₁, -, hroom₁⟩ := answerItem_line documentedFirmware_reads documentedFromStr_reads
    documentedLibraries 1 (.i2cConfigure 0 100000) (clientState .empty .empty)
  obtain ⟨l₁, hrun₁, hserves₁⟩ := call_completes (.replicate maxMsgLen 0) hwrites
    (serves_start documentedFirmware .empty .empty) rfl ha₁ hroom₁
  obtain ⟨r₂, ha₂, -, hroom₂⟩ := answerItem_line documentedFirmware_reads documentedFromStr_reads
    documentedLibraries 2 escapedCall (Method.call 1 (.i2cConfigure 0 100000)
      (clientState .empty .empty)).2
  obtain ⟨l₂, hrun₂, -⟩ := call_completes (.replicate maxMsgLen 0) hwrites hserves₁
    (call_pendingReboot _ _ _) ha₂ hroom₂
  have hrun := Trace.run_append.2 ⟨l₁, hrun₁, hrun₂⟩
  refine ⟨_, l₂, hrun, ?_⟩
  rw [remote_calls_exact documentedFirmware documentedFromStr documentedToStr documentedLibraries
    documentedFirmware_reads hwrites documentedFromStr_reads documentedToStr_writes
    (.replicate maxMsgLen 0) .empty .empty _ l₂ hrun twoCalls rfl, twoCalls_outcomes]
  rfl

end Client

end PicoConduit
