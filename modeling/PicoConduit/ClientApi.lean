import PicoConduit.Client
import PicoConduit.ErrorRecovery
import PicoConduit.CommandText
import Mathlib.Data.List.Sort

namespace PicoConduit
open Checked Heapless Utf8 Json JsonString
set_option autoImplicit true

namespace Client

def gpioWrite (pin value : UInt8) : Fields :=
  [("interface", .string "gpio"), ("action", .string "write"), ("pin", .number pin.toNat),
    ("value", .number value.toNat)]

def gpioRead (pin : UInt8) : Fields :=
  [("interface", .string "gpio"), ("action", .string "read"), ("pin", .number pin.toNat)]

def gpioSetMode (pin : UInt8) (mode pull : String) : Fields :=
  [("interface", .string "gpio"), ("action", .string "set_mode"), ("pin", .number pin.toNat),
    ("mode", .string mode), ("pull", .string pull)]

def adcRead (channel : UInt8) : Fields :=
  [("interface", .string "adc"), ("action", .string "read"),
    ("adc_channel", .number channel.toNat)]

def adcTemp : Fields :=
  [("interface", .string "adc"), ("action", .string "read"), ("adc_channel", .number 3)]

def uartConfigure (uart : UInt8) (baud : UInt32) (dataBits : UInt8) (parity : String)
    (stopBits : UInt8) : Fields :=
  [("interface", .string "uart"), ("action", .string "configure"), ("uart", .number uart.toNat),
    ("baud", .number baud.toNat), ("data_bits", .number dataBits.toNat),
    ("parity", .string parity), ("stop_bits", .number stopBits.toNat)]

def uartRead (uart : UInt8) (len : UInt64) : Fields :=
  [("interface", .string "uart"), ("action", .string "read"), ("uart", .number uart.toNat),
    ("len", .number len.toNat)]

def spiConfigure (spi : UInt8) (freqHz : UInt32) (cpol cpha : UInt8) : Fields :=
  [("interface", .string "spi"), ("action", .string "configure"), ("spi", .number spi.toNat),
    ("freq_hz", .number freqHz.toNat), ("cpol", .number cpol.toNat), ("cpha", .number cpha.toNat)]

def i2cConfigure (i2c : UInt8) (freqHz : UInt32) : Fields :=
  [("interface", .string "i2c"), ("action", .string "configure"), ("i2c", .number i2c.toNat),
    ("freq_hz", .number freqHz.toNat)]

def i2cRead (i2c addr : UInt8) (len : UInt64) : Fields :=
  [("interface", .string "i2c"), ("action", .string "read"), ("i2c", .number i2c.toNat),
    ("addr", .number addr.toNat), ("len", .number len.toNat)]

def pwmSetDuty (channel : UInt8) (dutyU16 : UInt16) : Fields :=
  [("interface", .string "pwm"), ("action", .string "set_duty"),
    ("channel", .number channel.toNat), ("duty_u16", .number dutyU16.toNat)]

def pwmSetFreq (channel : UInt8) (freqHz : UInt32) : Fields :=
  [("interface", .string "pwm"), ("action", .string "set_freq"),
    ("channel", .number channel.toNat), ("freq_hz", .number freqHz.toNat)]

def pwmEnable (channel : UInt8) : Fields :=
  [("interface", .string "pwm"), ("action", .string "enable"), ("channel", .number channel.toNat)]

def pwmDisable (channel : UInt8) : Fields :=
  [("interface", .string "pwm"), ("action", .string "disable"), ("channel", .number channel.toNat)]

def usbRead (len : UInt64) : Fields :=
  [("interface", .string "usb"), ("action", .string "read"), ("len", .number len.toNat)]

def configGet : Fields := [("interface", .string "config"), ("action", .string "get")]

/-- A call of one of the methods of `PicoConduit`, with its arguments. -/
inductive Method
  | gpioWrite (pin value : UInt8)
  | gpioRead (pin : UInt8)
  | gpioSetMode (pin : UInt8) (mode pull : String)
  | adcRead (channel : UInt8)
  | adcTemp
  | uartConfigure (uart : UInt8) (baud : UInt32) (dataBits : UInt8) (parity : String)
      (stopBits : UInt8)
  | uartRead (uart : UInt8) (len : UInt64)
  | spiConfigure (spi : UInt8) (freqHz : UInt32) (cpol cpha : UInt8)
  | i2cConfigure (i2c : UInt8) (freqHz : UInt32)
  | i2cRead (i2c addr : UInt8) (len : UInt64)
  | pwmSetDuty (channel : UInt8) (dutyU16 : UInt16)
  | pwmSetFreq (channel : UInt8) (freqHz : UInt32)
  | pwmEnable (channel : UInt8)
  | pwmDisable (channel : UInt8)
  | usbRead (len : UInt64)
  | configGet
  | payload (call : PayloadCall) (bytes : Bytes)

def Method.fields : Method → Fields
  | .gpioWrite pin value => Client.gpioWrite pin value
  | .gpioRead pin => Client.gpioRead pin
  | .gpioSetMode pin mode pull => Client.gpioSetMode pin mode pull
  | .adcRead channel => Client.adcRead channel
  | .adcTemp => Client.adcTemp
  | .uartConfigure uart baud dataBits parity stopBits =>
    Client.uartConfigure uart baud dataBits parity stopBits
  | .uartRead uart len => Client.uartRead uart len
  | .spiConfigure spi freqHz cpol cpha => Client.spiConfigure spi freqHz cpol cpha
  | .i2cConfigure i2c freqHz => Client.i2cConfigure i2c freqHz
  | .i2cRead i2c addr len => Client.i2cRead i2c addr len
  | .pwmSetDuty channel dutyU16 => Client.pwmSetDuty channel dutyU16
  | .pwmSetFreq channel freqHz => Client.pwmSetFreq channel freqHz
  | .pwmEnable channel => Client.pwmEnable channel
  | .pwmDisable channel => Client.pwmDisable channel
  | .usbRead len => Client.usbRead len
  | .configGet => Client.configGet
  | .payload call bytes => call.fields bytes

/-- `next_id`: the counter's value as a decimal number. -/
def nextId (n : UInt64) : String := toString n.toNat

/-- What a call sends, which is an object of the fields of a map. -/
def Method.request (n : UInt64) (m : Method) : Value := cmd (nextId n) m.fields

/-- The fields of a map are written in the order of their keys. -/
def byKey : Value → Value
  | .object fields => .object (fields.insertionSort fun a b => a.1 ≤ b.1)
  | v => v

/-- The line of a call. -/
def Method.line (n : UInt64) (m : Method) : Line where
  bytes := (byKey (m.request n)).toBytes .lower
  closed := newline_not_mem_toBytes .lower _

/-- The channel that a number stands for. -/
def channelOf (channel : UInt8) : Option AdcChannel := readAdcChannel (.number channel.toNat)

/-- What the firmware reads from the request of a call: no payload is a string. -/
def Method.command (id : String) : Method → Option Command
  | .gpioWrite pin value => some {
      version := some 1, id, interface := some "gpio", action := some "write", pin := some pin,
      value := some value }
  | .gpioRead pin => some {
      version := some 1, id, interface := some "gpio", action := some "read", pin := some pin }
  | .gpioSetMode pin mode pull => some {
      version := some 1, id, interface := some "gpio", action := some "set_mode", pin := some pin,
      mode := some (rawText mode), pull := some (rawText pull) }
  | .adcRead channel => (channelOf channel).map fun channel => {
      version := some 1, id, interface := some "adc", action := some "read",
      adcChannel := some channel }
  | .adcTemp => some {
      version := some 1, id, interface := some "adc", action := some "read",
      adcChannel := some .temp }
  | .uartConfigure uart baud dataBits parity stopBits => some {
      version := some 1, id, interface := some "uart", action := some "configure",
      uart := some uart, baud := some baud, dataBits := some dataBits,
      parity := some (rawText parity), stopBits := some stopBits }
  | .uartRead uart len => if len.toNat < 4294967296 then some {
      version := some 1, id, interface := some "uart", action := some "read", uart := some uart,
      len := some len.toNat } else none
  | .spiConfigure spi freqHz cpol cpha => some {
      version := some 1, id, interface := some "spi", action := some "configure", spi := some spi,
      freqHz := some freqHz, cpol := some cpol, cpha := some cpha }
  | .i2cConfigure i2c freqHz => some {
      version := some 1, id, interface := some "i2c", action := some "configure", i2c := some i2c,
      freqHz := some freqHz }
  | .i2cRead i2c addr len => if len.toNat < 4294967296 then some {
      version := some 1, id, interface := some "i2c", action := some "read", i2c := some i2c,
      addr := some addr, len := some len.toNat } else none
  | .pwmSetDuty channel dutyU16 => some {
      version := some 1, id, interface := some "pwm", action := some "set_duty",
      channel := some channel, dutyU16 := some dutyU16 }
  | .pwmSetFreq channel freqHz => some {
      version := some 1, id, interface := some "pwm", action := some "set_freq",
      channel := some channel, freqHz := some freqHz }
  | .pwmEnable channel => some {
      version := some 1, id, interface := some "pwm", action := some "enable",
      channel := some channel }
  | .pwmDisable channel => some {
      version := some 1, id, interface := some "pwm", action := some "disable",
      channel := some channel }
  | .usbRead len => if len.toNat < 4294967296 then some {
      version := some 1, id, interface := some "usb", action := some "read",
      len := some len.toNat } else none
  | .configGet => some {
      version := some 1, id, interface := some "config", action := some "get" }
  | .payload _ _ => none

theorem readU8_one : readU8 (.number 1) = some 1 := rfl

theorem readFields_payload (id : String) (call : PayloadCall) (bytes : Bytes) :
    Command.readFields (cmd id (call.fields bytes)) = none := by
  cases call <;>
    simp only [PayloadCall.fields, uartWrite, spiWrite, spiTransfer, i2cWrite, i2cWriteRead,
      usbWrite, cmd, bytesToJson, Command.readFields, CommandInner.readFields, List.cons_append,
      List.nil_append, Value.get, List.find?_cons, String.reduceBEq, List.find?_nil,
      Option.map_some, Option.map_none, optional, readU8_toNat, readU8_one, readStr,
      Option.bind_eq_bind, Option.bind_some, Option.bind_none]

theorem readFields_cmd (id : String) (m : Method) :
    Command.readFields (cmd id m.fields) = m.command (rawText id) := by
  cases m
  case payload call bytes => exact readFields_payload id call bytes
  all_goals
    simp (disch := decide) only [Method.fields, gpioWrite, gpioRead, gpioSetMode, adcRead, adcTemp,
      uartConfigure, uartRead, spiConfigure, i2cConfigure, i2cRead, pwmSetDuty, pwmSetFreq,
      pwmEnable, pwmDisable, usbRead, configGet, cmd, Command.readFields, CommandInner.readFields,
      List.cons_append, List.nil_append, Value.get, List.find?_cons, String.reduceBEq,
      List.find?_nil, Option.map_some, Option.map_none, optional, readU8_toNat, readU16_toNat,
      readU32_toNat, readU8_one, readStr, rawText_self, Option.bind_eq_bind, Option.bind_some,
      Method.command]
  case adcRead channel =>
    rw [channelOf]
    cases readAdcChannel (.number channel.toNat) <;> rfl
  case uartRead uart len =>
    simp only [readUsize]
    split <;> rfl
  case i2cRead i2c addr len =>
    simp only [readUsize]
    split <;> rfl
  case usbRead len =>
    simp only [readUsize]
    split <;> rfl
  all_goals rfl

theorem request_nodup (n : UInt64) (m : Method) : (keysOf (m.request n)).Nodup := by
  cases m with
  | payload call bytes => cases call <;> exact of_decide_eq_true rfl
  | _ => exact of_decide_eq_true rfl

theorem isPlain_of_isDigit (h : Char.isDigit c = true) : isPlain c = true := by
  have hlow : 48 ≤ c.toNat := (Char.isDigit_iff_toNat.1 h).1
  simp only [isPlain, Bool.and_eq_true, bne_iff_ne, decide_eq_true_eq]
  exact ⟨⟨ne_of_isDigit h (by decide), ne_of_isDigit h (by decide)⟩, by omega⟩

theorem nextId_toList (n : UInt64) : (nextId n).toList = Nat.toDigits 10 n.toNat := by
  rw [nextId, Nat.toString_eq_ofList_toDigits, String.toList_ofList]

theorem nextId_plain (n : UInt64) : (nextId n).toList.all isPlain = true := by
  have hten : (10 : Nat) ≤ 10 := Nat.le_refl 10
  rw [nextId_toList, List.all_eq_true]
  exact fun c hc => isPlain_of_isDigit (Nat.isDigit_of_mem_toDigits (by decide) hten hc)

/-- An id has at most twenty digits. -/
theorem nextId_written (n : UInt64) : written (nextId n) ≤ 20 := by
  have hlt := n.toNat_lt
  have hdigits : (Value.number n.toNat).render .upper = Nat.toDigits 10 n.toNat := by
    rw [Value.render]
  rw [written, escape_self .upper (nextId_plain n), nextId_toList, ← hdigits, width_number,
    Nat.length_toDigits_le_iff (by decide) (by decide)]
  omega

/-- What the firmware reads from the line of a call. -/
theorem ofValue_request (n : UInt64) (m : Method) :
    Command.ofValue (byKey (m.request n)) = m.command (nextId n) := by
  have hread := readFields_cmd (nextId n) m
  rw [rawText_self (nextId_plain n)] at hread
  exact (ofValue_perm (List.perm_insertionSort _ _).symm (request_nodup n m)).trans hread

end Client

end PicoConduit
