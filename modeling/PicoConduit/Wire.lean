import PicoConduit.Base64
import PicoConduit.Json
import PicoConduit.Protocol

namespace PicoConduit
open Checked Heapless Utf8 Json
set_option autoImplicit true

/-- `Base64Bytes::serialize`: the string that a byte payload becomes. -/
def serializeBytes (bytes : HVec UInt8 maxPayloadLen) : Exec Value := do
  let (n, buf) ← encode bytes.toList (List.replicate maxB64Len 0)
  let encoded ← slice buf 0 n
  match fromUtf8 encoded with
  | some s => pure (.string s)
  | none => .error .unwrap

/-- The fields of a configuration report that only a build for MQTT has. -/
def mqttFields : Option MqttConfig → List (String × Value)
  | none => []
  | some mqtt => [("mqtt_host", .string mqtt.host.toString), ("mqtt_port", .number mqtt.port.toNat)]

def ResponseData.toValue : ResponseData → Exec Value
  | .gpioRead value => pure (.object [("value", .number value.toNat)])
  | .bytes payload => do
    let encoded ← serializeBytes payload
    pure (.object [("bytes", encoded)])
  | .config ssid ip connected mqtt =>
    pure (.object ([("ssid", .string ssid.toString), ("ip", .string ip.toString),
      ("connected", .bool connected)] ++ mqttFields mqtt))
  | .version v => pure (.object [("version", .string v.toString)])

def errorValue : Option ErrorCode → Value
  | none => .null
  | some e => .string e.text

def dataValue : Option ResponseData → Exec Value
  | none => pure .null
  | some data => data.toValue

def Response.toValue (r : Response) : Exec Value := do
  let data ← dataValue r.data
  pure (.object [("id", .string r.id), ("ok", .bool r.ok), ("data", data),
    ("error", errorValue r.error)])

/-- The values of the inner responses, in order. -/
def responseValues : List Response → Exec (List Value)
  | [] => pure []
  | r :: rs => do
    let v ← r.toValue
    let vs ← responseValues rs
    pure (v :: vs)

/-- The data of a batch response, which an invalid batch does not have. -/
def batchDataValue (b : BatchResponse) : Exec Value :=
  if b.ok then do
    let responses ← responseValues b.responses.toList
    pure (.object [("responses", .array responses)])
  else pure .null

def BatchResponse.toValue (b : BatchResponse) : Exec Value := do
  let data ← batchDataValue b
  pure (.object [("id", .string b.id), ("ok", .bool b.ok), ("data", data),
    ("error", errorValue b.error)])

end PicoConduit
