import Mathlib.Data.List.Basic

namespace Json
set_option autoImplicit true

/-- A JSON value whose numbers are natural ones. -/
inductive Value
  | null
  | bool (b : Bool)
  | number (n : Nat)
  | string (s : String)
  | array (elems : List Value)
  | object (fields : List (String × Value))
  deriving Repr

namespace Value

/-- The field of an object; any other value has none. -/
def get (key : String) : Value → Option Value
  | .object fields => (fields.find? (fun field => field.1 == key)).map (·.2)
  | _ => none

def asArray : Value → Option (List Value)
  | .array elems => some elems
  | _ => none

def asU64 : Value → Option Nat
  | .number n => some n
  | _ => none

/-- Every number can be read as a floating-point one, which is not rounded here. -/
def asF64 : Value → Option Nat
  | .number n => some n
  | _ => none

end Value

end Json
