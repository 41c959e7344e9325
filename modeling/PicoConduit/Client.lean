import PicoConduit.Interfaces
import PicoConduit.Wire

namespace PicoConduit
open Checked Heapless Utf8 Json
set_option autoImplicit true

namespace Client

abbrev Fields := List (String × Value)

/-- What the JSON libraries of the two sides do with a value: the firmware's reads a field of
type `Option<&str>` or rejects it, the client's looks for an array. -/
structure Libraries where
  strField : Value → Option (Option String)
  asArray : Value → Option (List Value)

structure Documented (lib : Libraries) : Prop where
  strField : ∀ v field, lib.strField v = some field → v = .null ∨ ∃ s, v = .string s
  asArray : ∀ v elems, lib.asArray v = some elems → v = .array elems

/-- The client's errors, as far as a response without a usable payload raises them. -/
inductive Error
  | badResponse (message : String)
  deriving DecidableEq, Repr

structure RawResponse where
  id : String
  ok : Bool
  data : Option Value
  error : Option String

def bytesToJson (bytes : Bytes) : Value := .array (bytes.map fun b => .number b.toNat)

/-- The integers of a JSON array, each cut to a byte. -/
def collectBytes : List Value → Except Error Bytes
  | [] => .ok []
  | v :: vs =>
    match v.asU64 with
    | none => .error (.badResponse "non-integer in bytes array")
    | some n =>
      match collectBytes vs with
      | .error e => .error e
      | .ok bytes => .ok (UInt8.ofNat n :: bytes)

def extractBytes (lib : Libraries) (resp : RawResponse) : Except Error Bytes :=
  match resp.data with
  | none => .error (.badResponse "missing data")
  | some data =>
    match (data.get "bytes").bind lib.asArray with
    | none => .error (.badResponse "missing data.bytes")
    | some arr => collectBytes arr

/-- `PicoConduit::cmd`: the request object for the fields of a call. -/
def cmd (id : String) (fields : Fields) : Value :=
  .object (fields ++ [("version", .number 1), ("id", .string id)])

def uartWrite (uart : UInt8) (bytes : Bytes) : Fields :=
  [("interface", .string "uart"), ("action", .string "write"), ("uart", .number uart.toNat),
    ("bytes", bytesToJson bytes)]

def spiWrite (spi : UInt8) (bytes : Bytes) : Fields :=
  [("interface", .string "spi"), ("action", .string "write"), ("spi", .number spi.toNat),
    ("bytes", bytesToJson bytes)]

def spiTransfer (spi : UInt8) (bytes : Bytes) : Fields :=
  [("interface", .string "spi"), ("action", .string "transfer"), ("spi", .number spi.toNat),
    ("bytes", bytesToJson bytes)]

def i2cWrite (i2c addr : UInt8) (bytes : Bytes) : Fields :=
  [("interface", .string "i2c"), ("action", .string "write"), ("i2c", .number i2c.toNat),
    ("addr", .number addr.toNat), ("bytes", bytesToJson bytes)]

def i2cWriteRead (i2c addr : UInt8) (writeBytes : Bytes) (readLen : Nat) : Fields :=
  [("interface", .string "i2c"), ("action", .string "write_read"), ("i2c", .number i2c.toNat),
    ("addr", .number addr.toNat), ("write_bytes", bytesToJson writeBytes),
    ("read_len", .number readLen)]

def usbWrite (bytes : Bytes) : Fields :=
  [("interface", .string "usb"), ("action", .string "write"), ("bytes", bytesToJson bytes)]

/-- The calls that carry a payload, with the arguments that go along with it. -/
inductive PayloadCall
  | uartWrite (uart : UInt8)
  | spiWrite (spi : UInt8)
  | spiTransfer (spi : UInt8)
  | i2cWrite (i2c addr : UInt8)
  | i2cWriteRead (i2c addr : UInt8) (readLen : Nat)
  | usbWrite
  deriving DecidableEq, Repr

def PayloadCall.fields (bytes : Bytes) : PayloadCall → Fields
  | .uartWrite uart => Client.uartWrite uart bytes
  | .spiWrite spi => Client.spiWrite spi bytes
  | .spiTransfer spi => Client.spiTransfer spi bytes
  | .i2cWrite i2c addr => Client.i2cWrite i2c addr bytes
  | .i2cWriteRead i2c addr readLen => Client.i2cWriteRead i2c addr bytes readLen
  | .usbWrite => Client.usbWrite bytes

/-- The field of the request in which a call puts its payload. -/
def PayloadCall.field : PayloadCall → String
  | .i2cWriteRead _ _ _ => "write_bytes"
  | _ => "bytes"

/-- The firmware accepts the payload of a call and decodes it to the bytes the client was given. -/
def Delivers (lib : Libraries) (call : PayloadCall) (id : String)
    (payload : HVec UInt8 maxPayloadLen) : Prop :=
  ∃ v field, (cmd id (call.fields payload.toList)).get call.field = some v ∧
    lib.strField v = some field ∧
    ∀ command : Command, decodeBytes command field = .ok (.ok payload)

/-- The client reads the payload of a response back as the bytes the firmware serialised. -/
def ReadsBack (lib : Libraries) (id : String) (payload : HVec UInt8 maxPayloadLen) : Prop :=
  ∃ data, (ResponseData.bytes payload).toValue = .ok data ∧
    extractBytes lib ⟨id, true, some data, none⟩ = .ok payload.toList

/-- The two sides agree on a payload in both directions. -/
def Agrees (lib : Libraries) (payload : HVec UInt8 maxPayloadLen) : Prop :=
  (∀ call id, Delivers lib call id payload) ∧ ∀ id, ReadsBack lib id payload

theorem get_payload (call : PayloadCall) (id : String) (bytes : Bytes) :
    (cmd id (call.fields bytes)).get call.field = some (bytesToJson bytes) := by
  cases call <;> rfl

theorem serializeBytes_string (h : serializeBytes payload = .ok v) : ∃ s, v = .string s := by
  simp only [serializeBytes, bind_eq_ok] at h
  obtain ⟨⟨n, buf⟩, -, encoded, -, h⟩ := h
  split at h
  · cases h
    exact ⟨_, rfl⟩
  · cases h

theorem not_delivers (hlib : Documented lib) : ¬ Delivers lib call reqId payload := by
  intro hx
  obtain ⟨v, field, hv, hf, -⟩ := hx
  rw [get_payload] at hv
  cases hv
  rcases hlib.strField _ _ hf with h | ⟨s, h⟩
  · cases h
  · cases h

theorem not_readsBack (hlib : Documented lib) : ¬ ReadsBack lib reqId payload := by
  intro h
  obtain ⟨data, hd, he⟩ := h
  obtain ⟨v, hv, hd⟩ := bind_eq_ok.1 hd
  obtain ⟨s, rfl⟩ := serializeBytes_string hv
  cases hd
  have hget : (Value.object [("bytes", .string s)]).get "bytes" = some (.string s) := rfl
  cases ha : lib.asArray (.string s) with
  | none =>
    simp only [extractBytes, hget, Option.bind_some, ha] at he
    cases he
  | some elems => cases hlib.asArray _ _ ha

/-- The client's arrays and the firmware's strings never meet: no payload of any call reaches
the firmware, and none that the firmware sends reaches the caller. -/
theorem payload_never_agreed (lib : Libraries) (hlib : Documented lib)
    (payload : HVec UInt8 maxPayloadLen) : ¬ Agrees lib payload ∧
      (∀ call id, ¬ Delivers lib call id payload) ∧ ∀ id, ¬ ReadsBack lib id payload :=
  ⟨fun h => not_delivers hlib (h.1 .usbWrite ""), fun _ _ => not_delivers hlib,
    fun _ => not_readsBack hlib⟩

/-- The libraries as documented: a field of type `Option<&str>` takes a string or null. -/
def documentedLibraries : Libraries where
  strField
    | .null => some none
    | .string s => some (some s)
    | _ => none
  asArray := Value.asArray

theorem documentedLibraries_documented : Documented documentedLibraries := by
  constructor
  · intro v field h
    cases v with
    | null => exact .inl rfl
    | string s => exact .inr ⟨s, rfl⟩
    | bool | number | array | object => cases h
  · intro v elems h
    cases v with
    | array => cases h; rfl
    | null | bool | number | string | object => cases h

def hiPayload : HVec UInt8 maxPayloadLen := ⟨[0x48, 0x69], by decide⟩

theorem hiPayload_never_agreed : ¬ Agrees documentedLibraries hiPayload ∧
    (∀ call id, ¬ Delivers documentedLibraries call id hiPayload) ∧
      ∀ id, ¬ ReadsBack documentedLibraries id hiPayload :=
  payload_never_agreed _ documentedLibraries_documented _

theorem hiPayload_disagrees : ¬ Agrees documentedLibraries hiPayload := by
  intro hx
  obtain ⟨h, -⟩ := hx
  obtain ⟨v, field, hv, hf, -⟩ := h (.uartWrite 0) "1"
  cases hv
  cases hf

end Client

end PicoConduit
