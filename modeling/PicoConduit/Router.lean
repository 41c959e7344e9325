import PicoConduit.Interfaces

namespace PicoConduit
open Checked Heapless Utf8
set_option autoImplicit true

/-- What the device remembers between the commands of one session. -/
structure DeviceState where
  uart : Vector UartConfig 2
  spi : Vector SpiConfig 2
  i2c : Vector I2cConfig 2
  usbConfigured : Bool
  configSsid : HString 32
  configIp : HString 16
  configConnected : Bool
  configMqtt : Option MqttConfig
  pendingReboot : Bool
  subscriptions : HVec Subscription maxSubscriptions
  deriving DecidableEq

/-- The default of a build with or without the feature `transport-mqtt`. -/
def DeviceState.default (transportMqtt : Bool) : DeviceState where
  uart := #v[{}, {}]
  spi := #v[{}, {}]
  i2c := #v[{}, {}]
  usbConfigured := false
  configSsid := .empty
  configIp := .empty
  configConnected := false
  configMqtt := if transportMqtt then some ⟨.empty, 1883⟩ else none
  pendingReboot := false
  subscriptions := .empty

def validRoutes : List (String × List String) :=
  [("gpio", ["read", "write", "set_mode", "subscribe", "unsubscribe"]),
   ("uart", ["read", "write", "configure"]),
   ("spi", ["transfer", "write", "configure"]),
   ("i2c", ["read", "write", "write_read", "configure"]),
   ("pwm", ["set_duty", "set_freq", "enable", "disable"]),
   ("adc", ["read", "subscribe", "unsubscribe"]),
   ("usb", ["read", "write"]),
   ("config", ["get"]),
   ("system", ["get_version", "reboot_to_bootloader"]),
   ("batch", ["run"])]

def validateRoute (cmd : Command) : Except Response (String × String) :=
  match cmd.interface with
  | none => .error (.failure cmd.id .unknownInterface)
  | some interface =>
    match cmd.action with
    | none => .error (.failure cmd.id .unknownAction)
    | some action =>
      match validRoutes.find? (fun entry => entry.1 == interface) with
      | none => .error (.failure cmd.id .unknownInterface)
      | some (_, actions) =>
        if !actions.contains action then .error (.failure cmd.id .unknownAction)
        else .ok (interface, action)

def handleSubscribe (id : String) (target : SubscriptionTarget) (state : DeviceState) :
    Response × DeviceState :=
  if state.subscriptions.toList.any (fun s => s.sameTarget target) then
    (.failure id .alreadySubscribed, state)
  else if state.subscriptions.length ≥ maxSubscriptions then
    (.failure id .subscriptionLimit, state)
  else
    -- both results are discarded by the source: what does not fit is not stored
    let subId := (HString.empty.pushStr id).getD .empty
    let subscriptions := (state.subscriptions.push ⟨subId, target⟩).getD state.subscriptions
    (.success id none, { state with subscriptions })

def handleUnsubscribeAdc (id : String) (channel : AdcChannel) (state : DeviceState) :
    Response × DeviceState :=
  let before := state.subscriptions.length
  let subscriptions := state.subscriptions.retain fun s =>
    match s.target with
    | .adc c _ => c != channel
    | _ => true
  let state := { state with subscriptions }
  if state.subscriptions.length = before then (.failure id .notSubscribed, state)
  else (.success id none, state)

def handleUnsubscribeGpio (id : String) (pin : UInt8) (state : DeviceState) :
    Response × DeviceState :=
  let before := state.subscriptions.length
  let subscriptions := state.subscriptions.retain fun s =>
    match s.target with
    | .gpioLevel p _ => p != pin
    | .gpioEdge p _ => p != pin
    | .adc _ _ => true
  let state := { state with subscriptions }
  if state.subscriptions.length = before then (.failure id .notSubscribed, state)
  else (.success id none, state)

/-- The `configure!` macro of `dispatch`: store what the handler accepts. -/
def configure (cmd : Command) (handled : Except Response κ) (field : Option UInt8)
    (arr : Vector κ 2) (state : DeviceState) (put : Vector κ 2 → DeviceState) :
    Exec (Response × DeviceState) :=
  match handled with
  | .ok cfg => do
    let arr ← setArray arr (field.getD 0).toNat cfg
    pure (.success cmd.id none, put arr)
  | .error r => pure (r, state)

/-- The `peripheral_write!` macro of `dispatch`: check the index, then call the handler with
the configured flag found there. -/
def peripheralWrite (validated : Except Response UInt8) (arr : Vector κ 2) (configured : κ → Bool)
    (handler : Bool → Exec Response) (state : DeviceState) : Exec (Response × DeviceState) :=
  match validated with
  | .ok idx => do
    let cfg ← getArray arr idx.toNat
    let r ← handler (configured cfg)
    pure (r, state)
  | .error r => pure (r, state)

def dispatch (cmd : Command) (route : String × String) (state : DeviceState) :
    Exec (Response × DeviceState) :=
  match route with
  | ("gpio", "set_mode") => pure (Gpio.handleSetMode cmd, state)
  | ("gpio", "read") | ("gpio", "write") => pure (.failure cmd.id .notConfigured, state)
  | ("gpio", "subscribe") =>
    match cmd.pin with
    | none => pure (.failure cmd.id .missingField, state)
    | some pin =>
      match cmd.trigger with
      | some triggerStr =>
        match EdgeTrigger.parse triggerStr with
        | none => pure (.failure cmd.id .missingField, state)
        | some trigger => pure (handleSubscribe cmd.id (.gpioEdge pin trigger) state)
      | none =>
        let intervalMs := cmd.intervalMs.getD 100
        pure (handleSubscribe cmd.id (.gpioLevel pin intervalMs) state)
  | ("gpio", "unsubscribe") =>
    match cmd.pin with
    | none => pure (.failure cmd.id .missingField, state)
    | some pin => pure (handleUnsubscribeGpio cmd.id pin state)
  | ("adc", "read") =>
    match Adc.validateRead cmd with
    | .ok _ => pure (.failure cmd.id .notConfigured, state)
    | .error r => pure (r, state)
  | ("adc", "subscribe") =>
    match cmd.adcChannel with
    | none => pure (.failure cmd.id .missingField, state)
    | some channel =>
      let intervalMs := cmd.intervalMs.getD 100
      pure (handleSubscribe cmd.id (.adc channel intervalMs) state)
  | ("adc", "unsubscribe") =>
    match cmd.adcChannel with
    | none => pure (.failure cmd.id .missingField, state)
    | some channel => pure (handleUnsubscribeAdc cmd.id channel state)
  | ("uart", "configure") =>
    configure cmd (Uart.handleConfigure cmd) cmd.uart state.uart state
      fun uart => { state with uart }
  | ("uart", "write") =>
    peripheralWrite (Uart.validateUart cmd) state.uart (·.configured) (Uart.handleWrite cmd) state
  | ("uart", "read") => pure (.failure cmd.id .notConfigured, state)
  | ("spi", "configure") =>
    configure cmd (Spi.handleConfigure cmd) cmd.spi state.spi state fun spi => { state with spi }
  | ("spi", "write") =>
    peripheralWrite (Spi.validateSpi cmd) state.spi (·.configured) (Spi.handleWrite cmd) state
  | ("spi", "transfer") => pure (.failure cmd.id .notConfigured, state)
  | ("i2c", "configure") =>
    configure cmd (I2c.handleConfigure cmd) cmd.i2c state.i2c state fun i2c => { state with i2c }
  | ("i2c", "write") =>
    peripheralWrite (I2c.validateI2c cmd) state.i2c (·.configured) (I2c.handleWrite cmd) state
  | ("i2c", "read") | ("i2c", "write_read") => pure (.failure cmd.id .notConfigured, state)
  | ("pwm", "set_duty") => pure (Pwm.handleSetDuty cmd, state)
  | ("pwm", "set_freq") => pure (Pwm.handleSetFreq cmd, state)
  | ("pwm", "enable") => pure (Pwm.handleEnable cmd, state)
  | ("pwm", "disable") => pure (Pwm.handleDisable cmd, state)
  | ("usb", "write") => do
    let r ← Usb.handleWrite cmd state.usbConfigured
    pure (r, state)
  | ("usb", "read") => pure (.failure cmd.id .notConfigured, state)
  | ("config", "get") =>
    pure (.success cmd.id
      (some (.config state.configSsid state.configIp state.configConnected state.configMqtt)),
      state)
  | ("system", "get_version") =>
    let version := (HString.empty.pushStr "0.1.0").getD .empty
    pure (.success cmd.id (some (.version version)), state)
  | ("system", "reboot_to_bootloader") =>
    pure (.success cmd.id none, { state with pendingReboot := true })
  | ("batch", "run") => pure (.failure cmd.id .unknownInterface, state)
  | _ => .error .unreachable

/-- Route a command and dispatch it, as every caller of `dispatch` does. -/
def execute (state : DeviceState) (cmd : Command) : Exec (Response × DeviceState) :=
  match validateRoute cmd with
  | .error r => pure (r, state)
  | .ok route => dispatch cmd route state

/-- The loop of `dispatch_batch` over the inner commands. -/
def dispatchInner (responses : HVec Response maxBatchSize) (state : DeviceState) :
    List CommandInner → Exec (HVec Response maxBatchSize × DeviceState)
  | [] => pure (responses, state)
  | inner :: rest => do
    let (resp, state) ← execute state inner.toCommand
    dispatchInner ((responses.push resp).getD responses) state rest

def dispatchBatch (state : DeviceState) (cmd : Command) : Exec (BatchResponse × DeviceState) :=
  match cmd.commands with
  | none => pure (⟨cmd.id, false, .empty, some .batchEmpty⟩, state)
  | some innerCmds =>
    if innerCmds.toList.isEmpty then
      pure (⟨cmd.id, false, .empty, some .batchEmpty⟩, state)
    else if innerCmds.length > maxBatchSize then
      pure (⟨cmd.id, false, .empty, some .batchTooLarge⟩, state)
    else do
      let (responses, state) ← dispatchInner .empty state innerCmds.toList
      pure (⟨cmd.id, true, responses, none⟩, state)

end PicoConduit
