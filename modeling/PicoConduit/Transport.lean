import PicoConduit.Protocol

namespace PicoConduit
open Utf8
set_option autoImplicit true

inductive TransportError
  | disconnected
  | protocol (code : ErrorCode)
  | timeout
  deriving DecidableEq, Repr

/-- A connection that hands over frames and takes frames. -/
structure Transport (τ : Type u) where
  readFrame : τ → Except TransportError Bytes × τ
  writeFrame : Bytes → τ → Except TransportError Unit × τ

end PicoConduit
