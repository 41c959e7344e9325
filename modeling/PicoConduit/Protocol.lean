import PicoConduit.Checked
import PicoConduit.Heapless
import PicoConduit.Utf8

namespace PicoConduit
open Checked Heapless Utf8
set_option autoImplicit true

abbrev maxMsgLen : Nat := 1024
abbrev maxPayloadLen : Nat := 512
abbrev maxB64Len : Nat := (maxPayloadLen / 3 + 1) * 4
abbrev maxBatchSize : Nat := 16
abbrev maxSubscriptions : Nat := 8

abbrev newline : UInt8 := '\n'.toUInt8

/-- The catalogue of `ERROR_*` codes. -/
inductive ErrorCode
  | missingVersion
  | unsupportedVersion
  | msgTooLarge
  | malformedJson
  | missingField
  | unknownInterface
  | unknownAction
  | invalidPin
  | valueOutOfRange
  | pinInUse
  | notConfigured
  | peripheralBusy
  | peripheralError
  | invalidEncoding
  | websocketHandshake
  | batchTooLarge
  | batchEmpty
  | subscriptionLimit
  | alreadySubscribed
  | notSubscribed
  deriving DecidableEq, Repr

/-- The wire text of an error code. -/
def ErrorCode.text : ErrorCode → String
  | .missingVersion => "missing_version"
  | .unsupportedVersion => "unsupported_version"
  | .msgTooLarge => "msg_too_large"
  | .malformedJson => "malformed_json"
  | .missingField => "missing_field"
  | .unknownInterface => "unknown_interface"
  | .unknownAction => "unknown_action"
  | .invalidPin => "invalid_pin"
  | .valueOutOfRange => "value_out_of_range"
  | .pinInUse => "pin_in_use"
  | .notConfigured => "not_configured"
  | .peripheralBusy => "peripheral_busy"
  | .peripheralError => "peripheral_error"
  | .invalidEncoding => "invalid_encoding"
  | .websocketHandshake => "ws_handshake_failed"
  | .batchTooLarge => "batch_too_large"
  | .batchEmpty => "batch_empty"
  | .subscriptionLimit => "subscription_limit"
  | .alreadySubscribed => "already_subscribed"
  | .notSubscribed => "not_subscribed"

inductive AdcChannel
  | ch0
  | ch1
  | ch2
  | temp
  deriving DecidableEq, Repr

/-- One element of the `commands` array of a batch. -/
structure CommandInner where
  version : Option UInt8 := none
  id : String
  interface : Option String := none
  action : Option String := none
  pin : Option UInt8 := none
  value : Option UInt8 := none
  mode : Option String := none
  pull : Option String := none
  uart : Option UInt8 := none
  bytes : Option String := none
  len : Option Nat := none
  baud : Option UInt32 := none
  dataBits : Option UInt8 := none
  parity : Option String := none
  stopBits : Option UInt8 := none
  spi : Option UInt8 := none
  freqHz : Option UInt32 := none
  cpol : Option UInt8 := none
  cpha : Option UInt8 := none
  i2c : Option UInt8 := none
  addr : Option UInt8 := none
  writeBytes : Option String := none
  readLen : Option Nat := none
  channel : Option UInt8 := none
  dutyU16 : Option UInt16 := none
  adcChannel : Option AdcChannel := none
  intervalMs : Option UInt32 := none
  trigger : Option String := none
  deriving DecidableEq

/-- A parsed command; only the fields its interface and action read are expected. -/
structure Command where
  version : Option UInt8 := none
  id : String
  interface : Option String := none
  action : Option String := none
  pin : Option UInt8 := none
  value : Option UInt8 := none
  mode : Option String := none
  pull : Option String := none
  uart : Option UInt8 := none
  bytes : Option String := none
  len : Option Nat := none
  baud : Option UInt32 := none
  dataBits : Option UInt8 := none
  parity : Option String := none
  stopBits : Option UInt8 := none
  spi : Option UInt8 := none
  freqHz : Option UInt32 := none
  cpol : Option UInt8 := none
  cpha : Option UInt8 := none
  i2c : Option UInt8 := none
  addr : Option UInt8 := none
  writeBytes : Option String := none
  readLen : Option Nat := none
  channel : Option UInt8 := none
  dutyU16 : Option UInt16 := none
  adcChannel : Option AdcChannel := none
  intervalMs : Option UInt32 := none
  trigger : Option String := none
  commands : Option (HVec CommandInner (maxBatchSize + 1)) := none
  deriving DecidableEq

def CommandInner.toCommand (c : CommandInner) : Command where
  version := c.version
  id := c.id
  interface := c.interface
  action := c.action
  pin := c.pin
  value := c.value
  mode := c.mode
  pull := c.pull
  uart := c.uart
  bytes := c.bytes
  len := c.len
  baud := c.baud
  dataBits := c.dataBits
  parity := c.parity
  stopBits := c.stopBits
  spi := c.spi
  freqHz := c.freqHz
  cpol := c.cpol
  cpha := c.cpha
  i2c := c.i2c
  addr := c.addr
  writeBytes := c.writeBytes
  readLen := c.readLen
  channel := c.channel
  dutyU16 := c.dutyU16
  adcChannel := c.adcChannel
  intervalMs := c.intervalMs
  trigger := c.trigger
  commands := none

def Command.checkVersion (cmd : Command) : Except ErrorCode Unit :=
  match cmd.version with
  | none => .error .missingVersion
  | some 1 => .ok ()
  | some _ => .error .unsupportedVersion

/-- The fields of the configuration that only a build for MQTT has. -/
structure MqttConfig where
  host : HString 64
  port : UInt16
  deriving DecidableEq

/-- The payload of a successful response. -/
inductive ResponseData
  | gpioRead (value : UInt8)
  | bytes (bytes : HVec UInt8 maxPayloadLen)
  | config (ssid : HString 32) (ip : HString 16) (connected : Bool) (mqtt : Option MqttConfig)
  | version (version : HString 16)
  deriving DecidableEq

structure Response where
  id : String
  ok : Bool
  data : Option ResponseData
  error : Option ErrorCode
  deriving DecidableEq

/-- `Response::ok`. -/
def Response.success (id : String) (data : Option ResponseData) : Response :=
  ⟨id, true, data, none⟩

/-- `Response::error`. -/
def Response.failure (id : String) (error : ErrorCode) : Response :=
  ⟨id, false, none, some error⟩

/-- `parse_command`, for a JSON library that reads a command from a frame or rejects it. -/
def parseCommand (fromSlice : Bytes → Option Command) (buf : Bytes) : Except ErrorCode Command :=
  if buf.length > maxMsgLen then .error .msgTooLarge
  else
    match fromSlice buf with
    | none => .error .malformedJson
    | some cmd =>
      match cmd.checkVersion with
      | .error e => .error e
      | .ok () => .ok cmd

/-- `serialize_response`, for a JSON library that writes a value into a buffer of some size
or reports that it does not fit; the result is the used part of the buffer. -/
def serializeResponse (toSlice : Response → Nat → Option Bytes) (resp : Response)
    (bufLen : Nat) : Except ErrorCode Bytes :=
  match toSlice resp bufLen with
  | none => .error .msgTooLarge
  | some text =>
    if text.length ≥ bufLen then .error .msgTooLarge
    else .ok (text ++ [newline])

inductive EdgeTrigger
  | rising
  | falling
  | both
  deriving DecidableEq, Repr

def EdgeTrigger.parse (s : String) : Option EdgeTrigger :=
  match s with
  | "edge_rising" => some .rising
  | "edge_falling" => some .falling
  | "edge_both" => some .both
  | _ => none

/-- What a subscription watches. -/
inductive SubscriptionTarget
  | adc (channel : AdcChannel) (intervalMs : UInt32)
  | gpioLevel (pin : UInt8) (intervalMs : UInt32)
  | gpioEdge (pin : UInt8) (trigger : EdgeTrigger)
  deriving DecidableEq, Repr

structure Subscription where
  id : HString 32
  target : SubscriptionTarget
  deriving DecidableEq

def Subscription.sameTarget (s : Subscription) (other : SubscriptionTarget) : Bool :=
  match s.target, other with
  | .adc a _, .adc b _ => a == b
  | .gpioLevel a _, .gpioLevel b _ => a == b
  | .gpioEdge a _, .gpioEdge b _ => a == b
  | _, _ => false

/-- The result of a batch, before it is serialised. -/
structure BatchResponse where
  id : String
  ok : Bool
  responses : HVec Response maxBatchSize
  error : Option ErrorCode
  deriving DecidableEq

theorem checkVersion_eq_ok : Command.checkVersion cmd = .ok u ↔ cmd.version = some 1 := by
  simp only [Command.checkVersion]
  split
  · simp_all
  · simp_all
  · rename_i v hv hc
    simp only [reduceCtorEq, hc, Option.some.injEq, false_iff]
    exact hv

theorem parseCommand_eq_ok : parseCommand fromSlice buf = .ok cmd ↔
    buf.length ≤ maxMsgLen ∧ fromSlice buf = some cmd ∧ cmd.version = some 1 := by
  simp only [parseCommand]
  split
  · simp only [reduceCtorEq, false_iff, not_and]
    omega
  · rename_i hl
    simp only [Nat.not_lt.1 hl, true_and]
    cases hf : fromSlice buf with
    | none => simp
    | some c =>
      simp only [Option.some.injEq]
      constructor
      · intro h
        cases hv : c.checkVersion with
        | error e => simp [hv] at h
        | ok u =>
          simp only [hv, Except.ok.injEq] at h
          exact ⟨h, h ▸ checkVersion_eq_ok.1 hv⟩
      · intro hx
        obtain ⟨rfl, hv⟩ := hx
        have hc : c.checkVersion = .ok () := checkVersion_eq_ok.2 hv
        simp only [hc]

end PicoConduit
