import PicoConduit.Checked
import PicoConduit.Utf8

namespace PicoConduit
open Checked Utf8
set_option autoImplicit true

inductive Method
  | get
  | post
  deriving DecidableEq, Repr

structure RequestLine where
  method : Method
  path : String
  deriving DecidableEq, Repr

inductive ParseError
  | malformedRequestLine
  | unknownMethod
  | malformedFormBody
  | missingFormField
  | invalidPercentEncoding
  deriving DecidableEq, Repr

/-- `slice::strip_suffix`. -/
def stripSuffix (suffix line : Bytes) : Option Bytes :=
  if suffix.isSuffixOf line then some (line.take (line.length - suffix.length)) else none

/-- The line without a line end of either form. -/
def stripLineEnd (line : Bytes) : Bytes :=
  ((stripSuffix (asBytes "\r\n") line).or (stripSuffix (asBytes "\n") line)).getD line

def parseRequestLine (line : Bytes) : Except ParseError RequestLine :=
  match fromUtf8 (stripLineEnd line) with
  | none => .error .malformedRequestLine
  | some s =>
    -- the third part is whatever follows the second space
    match s.toList.splitOn ' ' with
    | method :: path :: _ :: _ =>
      match String.ofList method with
      | "GET" => .ok ⟨.get, String.ofList path⟩
      | "POST" => .ok ⟨.post, String.ofList path⟩
      | _ => .error .unknownMethod
    | _ => .error .malformedRequestLine

structure ConnectForm where
  ssid : String
  password : String
  mqttHost : String
  mqttPort : UInt16
  deriving DecidableEq, Repr

/-- `str::parse` at an unsigned type with so many values: decimal digits, possibly after a plus
sign. -/
def parseUnsigned (bound : Nat) (cs : List Char) : Option Nat :=
  let digits := match cs with
    | '+' :: rest => rest
    | _ => cs
  if digits ≠ [] ∧ digits.all Char.isDigit then
    let n := Nat.ofDigitChars 10 digits 0
    if n < bound then some n else none
  else none

/-- The variables of the loop of `parse_connect_form`. -/
structure FormFields where
  ssid : Option String := none
  password : Option String := none
  mqttHost : String := ""
  mqttPort : UInt16 := 1883
  deriving DecidableEq

def FormFields.set (fields : FormFields) (key : String) (val : List Char) : FormFields :=
  match key with
  | "ssid" => { fields with ssid := some (String.ofList val) }
  | "password" => { fields with password := some (String.ofList val) }
  | "mqtt_host" => { fields with mqttHost := String.ofList val }
  | "mqtt_port" =>
    { fields with mqttPort := ((parseUnsigned 65536 val).map UInt16.ofNat).getD fields.mqttPort }
  | _ => fields

/-- One turn of that loop: the key is what precedes the first equals sign. -/
def FormFields.assign (fields : FormFields) (pair : List Char) : FormFields :=
  fields.set (String.ofList (pair.takeWhile (· != '='))) ((pair.dropWhile (· != '=')).drop 1)

def parseConnectForm (decoded : String) : Except ParseError ConnectForm :=
  let fields := (decoded.toList.splitOn '&').foldl FormFields.assign {}
  match fields.ssid, fields.password with
  | some ssid, some password => .ok ⟨ssid, password, fields.mqttHost, fields.mqttPort⟩
  | _, _ => .error .missingFormField

def hexNibble (b : UInt8) : Except ParseError UInt8 :=
  if '0'.toUInt8 ≤ b ∧ b ≤ '9'.toUInt8 then .ok (b - '0'.toUInt8)
  else if 'a'.toUInt8 ≤ b ∧ b ≤ 'f'.toUInt8 then .ok (b - 'a'.toUInt8 + 10)
  else if 'A'.toUInt8 ≤ b ∧ b ≤ 'F'.toUInt8 then .ok (b - 'A'.toUInt8 + 10)
  else .error .invalidPercentEncoding

/-- The loop of `decode_url_encoded`: the number of decoded bytes, and the output buffer. -/
def decodeUrlLoop (input out : Bytes) (outPos inPos : Nat) :
    Exec (Except ParseError (Nat × Bytes)) :=
  if h : inPos < input.length then
    let b := input[inPos]
    if b = '+'.toUInt8 then
      if outPos ≥ out.length then pure (.error .malformedFormBody)
      else do
        let out ← store out outPos ' '.toUInt8
        decodeUrlLoop input out (outPos + 1) (inPos + 1)
    else if b = '%'.toUInt8 then
      if inPos + 2 ≥ input.length then pure (.error .invalidPercentEncoding)
      else do
        match hexNibble (← load input (inPos + 1)) with
        | .error e => pure (.error e)
        | .ok hi =>
          match hexNibble (← load input (inPos + 2)) with
          | .error e => pure (.error e)
          | .ok lo =>
            if outPos ≥ out.length then pure (.error .malformedFormBody)
            else do
              let out ← store out outPos ((hi <<< 4) ||| lo)
              decodeUrlLoop input out (outPos + 1) (inPos + 3)
    else
      if outPos ≥ out.length then pure (.error .malformedFormBody)
      else do
        let out ← store out outPos b
        decodeUrlLoop input out (outPos + 1) (inPos + 1)
  else pure (.ok (outPos, out))
termination_by input.length - inPos

def decodeUrlEncoded (input : Bytes) : Exec (Except ParseError String) := do
  match ← decodeUrlLoop input (List.replicate 128 0) 0 0 with
  | .error e => pure (.error e)
  | .ok (outPos, out) =>
    match fromUtf8 (← slice out 0 outPos) with
    | none => pure (.error .malformedFormBody)
    | some s => pure (.ok s)

/-- The decoding loop stays in its buffers, whatever the input. -/
theorem decodeUrlLoop_yields (ho : outPos ≤ out.length) :
    Yields (decodeUrlLoop input out outPos inPos) fun r =>
      ∀ n out', r = .ok (n, out') → n ≤ out'.length := by
  rw [decodeUrlLoop]
  split
  · refine .ite (fun _ => .ite (fun _ => .ok (by simp)) fun _ => ?_)
      fun _ => .ite (fun _ => .ite (fun _ => .ok (by simp)) fun _ => ?_)
      fun _ => .ite (fun _ => .ok (by simp)) fun _ => ?_
    · exact (store_yields (by omega) _).bind fun out' h => decodeUrlLoop_yields (by omega)
    · apply (load_yields (by omega)).bind
      intro c1 _
      split
      · exact .ok (by simp)
      · apply (load_yields (by omega)).bind
        intro c2 _
        split
        · exact .ok (by simp)
        · refine .ite (fun _ => .ok (by simp)) fun _ => ?_
          exact (store_yields (by omega) _).bind fun out' h => decodeUrlLoop_yields (by omega)
    · exact (store_yields (by omega) _).bind fun out' h => decodeUrlLoop_yields (by omega)
  · refine .ok fun n out' h => ?_
    obtain ⟨rfl, rfl⟩ := Prod.mk.inj (Except.ok.inj h)
    exact ho
termination_by input.length - inPos

theorem decodeUrlEncoded_yields (input : Bytes) :
    Yields (decodeUrlEncoded input) fun _ => True := by
  apply (decodeUrlLoop_yields (Nat.zero_le _)).bind
  intro r hr
  split
  · exact .ok trivial
  · rename_i n out
    apply (slice_yields (Nat.zero_le n) (hr n out rfl)).bind
    intro text _
    split <;> exact .ok trivial

end PicoConduit
