import PicoConduit.JsonRead
import PicoConduit.Protocol
import Mathlib.Data.List.Find

namespace PicoConduit
open Checked Heapless Utf8 Json JsonString
set_option autoImplicit true

/-- A field that may be missing or null. -/
def optional (read : Value → Option α) (field : Option Value) : Option (Option α) :=
  match field with
  | none => some none
  | some .null => some none
  | some v => (read v).map some

def readU8 : Value → Option UInt8
  | .number n => if n < 256 then some (UInt8.ofNat n) else none
  | _ => none

def readU16 : Value → Option UInt16
  | .number n => if n < 65536 then some (UInt16.ofNat n) else none
  | _ => none

def readU32 : Value → Option UInt32
  | .number n => if n < 4294967296 then some (UInt32.ofNat n) else none
  | _ => none

/-- The addresses of the device have 32 bits. -/
def readUsize : Value → Option Nat
  | .number n => if n < 4294967296 then some n else none
  | _ => none

/-- The text between the quotes of a string, whose writer escapes with lower-case letters. -/
def rawText (s : String) : String := String.ofList (escape .lower s.toList)

example : rawText "\x1b" = "\\u001b" := by decide

/-- A borrowed string is its raw text, whose escapes stay as they are. -/
def readStr : Value → Option String
  | .string s => some (rawText s)
  | _ => none

def readAdcChannel : Value → Option AdcChannel
  | .number 0 => some .ch0
  | .number 1 => some .ch1
  | .number 2 => some .ch2
  | .number 3 => some .temp
  | _ => none

def innerKeys : List String :=
  ["version", "id", "interface", "action", "pin", "value", "mode", "pull", "uart", "bytes", "len",
    "baud", "data_bits", "parity", "stop_bits", "spi", "freq_hz", "cpol", "cpha", "i2c", "addr",
    "write_bytes", "read_len", "channel", "duty_u16", "adc_channel", "interval_ms", "trigger"]

def keysOf : Value → List String
  | .object fields => fields.map (·.1)
  | _ => []

/-- No known field is given twice. -/
def GivenOnce (keys : List String) (v : Value) : Prop :=
  ((keysOf v).filter (keys.contains ·)).Nodup

instance (keys : List String) (v : Value) : Decidable (GivenOnce keys v) :=
  inferInstanceAs (Decidable (List.Nodup _))

/-- The fields of a `CommandInner`, of which only the id is required. -/
def CommandInner.readFields (v : Value) : Option CommandInner := do
  let version ← optional readU8 (v.get "version")
  let id ← (v.get "id").bind readStr
  let interface ← optional readStr (v.get "interface")
  let action ← optional readStr (v.get "action")
  let pin ← optional readU8 (v.get "pin")
  let value ← optional readU8 (v.get "value")
  let mode ← optional readStr (v.get "mode")
  let pull ← optional readStr (v.get "pull")
  let uart ← optional readU8 (v.get "uart")
  let bytes ← optional readStr (v.get "bytes")
  let len ← optional readUsize (v.get "len")
  let baud ← optional readU32 (v.get "baud")
  let dataBits ← optional readU8 (v.get "data_bits")
  let parity ← optional readStr (v.get "parity")
  let stopBits ← optional readU8 (v.get "stop_bits")
  let spi ← optional readU8 (v.get "spi")
  let freqHz ← optional readU32 (v.get "freq_hz")
  let cpol ← optional readU8 (v.get "cpol")
  let cpha ← optional readU8 (v.get "cpha")
  let i2c ← optional readU8 (v.get "i2c")
  let addr ← optional readU8 (v.get "addr")
  let writeBytes ← optional readStr (v.get "write_bytes")
  let readLen ← optional readUsize (v.get "read_len")
  let channel ← optional readU8 (v.get "channel")
  let dutyU16 ← optional readU16 (v.get "duty_u16")
  let adcChannel ← optional readAdcChannel (v.get "adc_channel")
  let intervalMs ← optional readU32 (v.get "interval_ms")
  let trigger ← optional readStr (v.get "trigger")
  pure {
    version, id, interface, action, pin, value, mode, pull, uart, bytes, len, baud, dataBits,
    parity, stopBits, spi, freqHz, cpol, cpha, i2c, addr, writeBytes, readLen, channel, dutyU16,
    adcChannel, intervalMs, trigger }

def CommandInner.ofValue (v : Value) : Option CommandInner :=
  if GivenOnce innerKeys v then CommandInner.readFields v else none

def readCommands : Value → Option (HVec CommandInner (maxBatchSize + 1))
  | .array elems => (elems.mapM CommandInner.ofValue).bind HVec.empty.extendFromSlice
  | _ => none

/-- A command has the fields of an inner one, and a list of these. -/
def Command.readFields (v : Value) : Option Command := do
  let inner ← CommandInner.readFields v
  let commands ← optional readCommands (v.get "commands")
  pure { inner.toCommand with commands }

/-- The command that an object describes. -/
def Command.ofValue (v : Value) : Option Command :=
  if GivenOnce ("commands" :: innerKeys) v then Command.readFields v else none

example : Command.ofValue (.object [("id", .string "a"), ("pin", .number 3), ("x", .null)]) =
    some { id := "a", pin := some 3 } := by
  decide

theorem rawText_self (h : s.toList.all isPlain = true) : rawText s = s := by
  rw [rawText, escape_self .lower h, String.ofList_toList]

theorem rawText_injective (h : rawText s = rawText t) : s = t := by
  have hescape := congrArg String.toList h
  rw [rawText, rawText, String.toList_ofList, String.toList_ofList] at hescape
  have hs := denotes_escape .lower s.toList
  rw [hescape] at hs
  exact String.toList_inj.1 (hs.unique (denotes_escape .lower t.toList))

/-- A text without special characters is recognised as it is. -/
theorem rawText_eq_iff (h : t.toList.all isPlain = true) : rawText s = t ↔ s = t := by
  constructor
  · intro hs
    exact rawText_injective (hs.trans (rawText_self h).symm)
  · rintro rfl
    exact rawText_self h

theorem readU8_toNat (b : UInt8) : readU8 (.number b.toNat) = some b := by
  have hlt : b.toNat < 256 := b.toNat_lt
  simp only [readU8, if_pos hlt, UInt8.ofNat_toNat]

theorem readU16_toNat (b : UInt16) : readU16 (.number b.toNat) = some b := by
  have hlt : b.toNat < 65536 := b.toNat_lt
  simp only [readU16, if_pos hlt, UInt16.ofNat_toNat]

theorem readU32_toNat (b : UInt32) : readU32 (.number b.toNat) = some b := by
  have hlt : b.toNat < 4294967296 := b.toNat_lt
  simp only [readU32, if_pos hlt, UInt32.ofNat_toNat]

/-- The order of the fields of an object is of no account. -/
theorem get_perm {fields fields' : List (String × Value)} (h : fields.Perm fields')
    (hkeys : (fields.map (·.1)).Nodup) (key : String) :
    (Value.object fields).get key = (Value.object fields').get key := by
  rw [Value.get, Value.get, List.find?_eq_find?_of_perm h]
  rintro field ⟨hmem, hfield⟩ field' ⟨hmem', hfield'⟩
  exact List.inj_on_of_nodup_map hkeys hmem hmem'
    ((beq_iff_eq.1 hfield).trans (beq_iff_eq.1 hfield').symm)

theorem readFields_congr {v w : Value} (h : ∀ key, v.get key = w.get key) :
    Command.readFields v = Command.readFields w := by
  simp only [Command.readFields, CommandInner.readFields, h]

theorem ofValue_perm {fields fields' : List (String × Value)} (h : fields.Perm fields')
    (hkeys : (fields.map (·.1)).Nodup) :
    Command.ofValue (.object fields') = Command.readFields (.object fields) := by
  rw [Command.ofValue, if_pos, readFields_congr fun key => (get_perm h hkeys key).symm]
  exact ((h.map (·.1)).nodup_iff.1 hkeys).filter _

end PicoConduit
