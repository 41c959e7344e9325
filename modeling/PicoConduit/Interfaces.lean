import PicoConduit.Base64
import PicoConduit.Protocol

namespace PicoConduit
open Checked Heapless Utf8
set_option autoImplicit true

def reservedPins : List UInt8 := [23, 24, 25, 26, 27, 28, 29]

def isPinAvailable (pin : UInt8) : Bool := pin ≤ 29 && !reservedPins.contains pin

def validateIndex (cmd : Command) (field : Option UInt8) (max : UInt8) : Except Response UInt8 :=
  match field with
  | none => .error (.failure cmd.id .missingField)
  | some idx => if idx > max then .error (.failure cmd.id .valueOutOfRange) else .ok idx

def checkConfigured (cmd : Command) (configured : Bool) : Except Response Unit :=
  if configured then .ok () else .error (.failure cmd.id .notConfigured)

/-- `decode_bytes`; the outer failure is the program's, the inner one is the client's. -/
def decodeBytes (cmd : Command) (field : Option String) :
    Exec (Except Response (HVec UInt8 maxPayloadLen)) :=
  match field with
  | none => pure (.error (.failure cmd.id .missingField))
  | some encoded =>
    if encoded = "" then pure (.error (.failure cmd.id .missingField))
    else do
      let (n, buf) ← decode (asBytes encoded) (List.replicate maxPayloadLen 0)
      match n with
      | .error () => pure (.error (.failure cmd.id .invalidEncoding))
      | .ok n =>
        match HVec.empty.extendFromSlice (← slice buf 0 n) with
        | none => pure (.error (.failure cmd.id .invalidEncoding))
        | some v => pure (.ok v)

/-- A required field, which must pass the check of its range. -/
def requireField (cmd : Command) (field : Option α) (valid : α → Bool) : Except Response α :=
  match field with
  | some v => if valid v then .ok v else .error (.failure cmd.id .valueOutOfRange)
  | none => .error (.failure cmd.id .missingField)

/-- An optional field, which must pass the check of its range when it is given. -/
def fieldOr (cmd : Command) (default : α) (field : Option α) (valid : α → Bool) :
    Except Response α :=
  match field with
  | some v => if valid v then .ok v else .error (.failure cmd.id .valueOutOfRange)
  | none => .ok default

/-- The write handlers: the configured flag, then the checks of the interface's own fields,
then the payload. -/
def writePayload (cmd : Command) (configured : Bool) (checks : Except Response Unit) :
    Exec Response :=
  match checkConfigured cmd configured with
  | .error r => pure r
  | .ok () =>
    match checks with
    | .error r => pure r
    | .ok () => do
      match ← decodeBytes cmd cmd.bytes with
      | .error r => pure r
      | .ok _ => pure (.success cmd.id none)

namespace Gpio

def validatePin (cmd : Command) : Except Response UInt8 :=
  match cmd.pin with
  | none => .error (.failure cmd.id .missingField)
  | some pinNum =>
    if !isPinAvailable pinNum then .error (.failure cmd.id .invalidPin) else .ok pinNum

def handleSetMode (cmd : Command) : Response :=
  match validatePin cmd with
  | .error r => r
  | .ok _ =>
    match cmd.mode with
    | none => .failure cmd.id .missingField
    | some m =>
      if m = "input" ∨ m = "output" then
        match cmd.pull with
        | none => .success cmd.id none
        | some p =>
          if p = "up" ∨ p = "down" ∨ p = "none" then .success cmd.id none
          else .failure cmd.id .valueOutOfRange
      else .failure cmd.id .valueOutOfRange

end Gpio

namespace Adc

def validateRead (cmd : Command) : Except Response AdcChannel :=
  match cmd.adcChannel with
  | none => .error (.failure cmd.id .missingField)
  | some channel => .ok channel

end Adc

inductive UartParity
  | none
  | odd
  | even
  deriving DecidableEq, Repr

structure UartConfig where
  baud : UInt32 := 115200
  dataBits : UInt8 := 8
  parity : UartParity := .none
  stopBits : UInt8 := 1
  configured : Bool := false
  deriving DecidableEq

namespace Uart

def validateUart (cmd : Command) : Except Response UInt8 := validateIndex cmd cmd.uart 1

/-- The parity that a configure command names; none is the default. -/
def parseParity (cmd : Command) : Except Response UartParity :=
  match cmd.parity with
  | some "none" | none => .ok .none
  | some "odd" => .ok .odd
  | some "even" => .ok .even
  | some _ => .error (.failure cmd.id .valueOutOfRange)

def handleConfigure (cmd : Command) : Except Response UartConfig := do
  let _ ← validateUart cmd
  let baud ← requireField cmd cmd.baud (fun b => b > 0)
  let dataBits ← fieldOr cmd 8 cmd.dataBits (fun d => d == 7 || d == 8)
  let parity ← parseParity cmd
  let stopBits ← fieldOr cmd 1 cmd.stopBits (fun s => s == 1 || s == 2)
  .ok { baud, dataBits, parity, stopBits, configured := true }

def handleWrite (cmd : Command) (configured : Bool) : Exec Response :=
  writePayload cmd configured (.ok ())

end Uart

structure SpiConfig where
  freqHz : UInt32 := 1000000
  cpol : UInt8 := 0
  cpha : UInt8 := 0
  configured : Bool := false
  deriving DecidableEq

namespace Spi

def validateSpi (cmd : Command) : Except Response UInt8 := validateIndex cmd cmd.spi 1

def handleConfigure (cmd : Command) : Except Response SpiConfig := do
  let _ ← validateSpi cmd
  let freqHz ← requireField cmd cmd.freqHz (fun f => f > 0)
  let cpol ← fieldOr cmd 0 cmd.cpol (fun p => p ≤ 1)
  let cpha ← fieldOr cmd 0 cmd.cpha (fun p => p ≤ 1)
  .ok { freqHz, cpol, cpha, configured := true }

def handleWrite (cmd : Command) (configured : Bool) : Exec Response :=
  writePayload cmd configured (.ok ())

end Spi

structure I2cConfig where
  freqHz : UInt32 := 100000
  configured : Bool := false
  deriving DecidableEq

namespace I2c

def validateI2c (cmd : Command) : Except Response UInt8 := validateIndex cmd cmd.i2c 1

def validateAddr (cmd : Command) : Except Response UInt8 :=
  match cmd.addr with
  | some a => .ok a
  | none => .error (.failure cmd.id .missingField)

def handleConfigure (cmd : Command) : Except Response I2cConfig := do
  let _ ← validateI2c cmd
  let freqHz ← requireField cmd cmd.freqHz (fun v => v == 100000 || v == 400000)
  .ok { freqHz, configured := true }

def handleWrite (cmd : Command) (configured : Bool) : Exec Response :=
  writePayload cmd configured ((validateAddr cmd).map fun _ => ())

end I2c

namespace Pwm

def maxPwmChannel : UInt8 := 15

def validateChannel (cmd : Command) : Except Response UInt8 :=
  validateIndex cmd cmd.channel maxPwmChannel

/-- Answer a command whose channel has been checked. -/
def onChannel (cmd : Command) (answer : Response) : Response :=
  match validateChannel cmd with
  | .error r => r
  | .ok _ => answer

def handleSetDuty (cmd : Command) : Response :=
  onChannel cmd
    (match cmd.dutyU16 with
    | none => .failure cmd.id .missingField
    | some _ => .success cmd.id none)

def handleSetFreq (cmd : Command) : Response :=
  onChannel cmd
    (match cmd.freqHz with
    | none => .failure cmd.id .missingField
    | some freq => if freq = 0 then .failure cmd.id .valueOutOfRange else .success cmd.id none)

def handleEnable (cmd : Command) : Response := onChannel cmd (.success cmd.id none)

def handleDisable (cmd : Command) : Response := onChannel cmd (.success cmd.id none)

end Pwm

namespace Usb

def handleWrite (cmd : Command) (configured : Bool) : Exec Response :=
  writePayload cmd configured (.ok ())

end Usb

end PicoConduit
