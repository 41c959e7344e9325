import PicoConduit.MerkleDamgard

namespace Rfc3174
open MerkleDamgard
set_option autoImplicit true

abbrev Word := BitVec 32

@[ext] structure State where
  a : Word
  b : Word
  c : Word
  d : Word
  e : Word
  deriving DecidableEq

/-- The function of a round. -/
def f (t : Nat) (b c d : Word) : Word :=
  if t < 20 then (b &&& c) ||| (~~~b &&& d)
  else if t < 40 then b ^^^ c ^^^ d
  else if t < 60 then (b &&& c) ||| (b &&& d) ||| (c &&& d)
  else b ^^^ c ^^^ d

/-- The constant of a round. -/
def k (t : Nat) : Word :=
  if t < 20 then 0x5A827999
  else if t < 40 then 0x6ED9EBA1
  else if t < 60 then 0x8F1BBCDC
  else 0xCA62C1D6

/-- A word of a block: four bytes, the first of them the highest. -/
def word (block : List UInt8) (t : Nat) : Word :=
  (block.getD (4 * t) 0).toBitVec ++ (block.getD (4 * t + 1) 0).toBitVec ++
    (block.getD (4 * t + 2) 0).toBitVec ++ (block.getD (4 * t + 3) 0).toBitVec

/-- The word of a round: those of the block first, and then a mixture of earlier ones. -/
def schedule (block : List UInt8) (t : Nat) : Word :=
  if t < 16 then word block t
  else
    (schedule block (t - 3) ^^^ schedule block (t - 8) ^^^ schedule block (t - 14) ^^^
      schedule block (t - 16)).rotateLeft 1
termination_by t

def round (block : List UInt8) (s : State) (t : Nat) : State where
  a := s.a.rotateLeft 5 + f t s.b s.c s.d + s.e + schedule block t + k t
  b := s.a
  c := s.b.rotateLeft 30
  d := s.c
  e := s.d

def compress (h : State) (block : List UInt8) : State :=
  let s := (List.range 80).foldl (round block) h
  ⟨h.a + s.a, h.b + s.b, h.c + s.c, h.d + s.d, h.e + s.e⟩

def initial : State := ⟨0x67452301, 0xEFCDAB89, 0x98BADCFE, 0x10325476, 0xC3D2E1F0⟩

/-- The bytes of a number, the highest first. -/
def beBytes (n : Nat) (x : BitVec (8 * n)) : List UInt8 :=
  (List.range n).map fun i => ⟨x.extractLsb' (8 * (n - 1 - i)) 8⟩

/-- A message as it is hashed: a set bit, zeros, and the number of its bits in eight bytes. -/
def paddedMessage (message : List UInt8) : List UInt8 :=
  padded 64 56 0x80 0 (beBytes 8 (BitVec.ofNat 64 (8 * message.length))) message

def State.output (s : State) : List UInt8 :=
  beBytes 4 s.a ++ beBytes 4 s.b ++ beBytes 4 s.c ++ beBytes 4 s.d ++ beBytes 4 s.e

def sha1 (message : List UInt8) : List UInt8 :=
  ((blocks 64 (paddedMessage message)).foldl compress initial).output

end Rfc3174
