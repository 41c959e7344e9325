import Mathlib.Data.List.Basic

namespace Tlv
set_option autoImplicit true

/-- An option: a code that neither pads nor ends an area, and up to 255 bytes. -/
structure Opt (padCode endCode : UInt8) where
  code : UInt8
  data : List UInt8
  code_ne_pad : code ≠ padCode
  code_ne_end : code ≠ endCode
  length_le : data.length ≤ 255

/-- What an area consists of. -/
inductive Item (padCode endCode : UInt8)
  | pad
  | opt (o : Opt padCode endCode)

def Item.bytes : Item padCode endCode → List UInt8
  | .pad => [padCode]
  | .opt o => o.code :: UInt8.ofNat o.data.length :: o.data

/-- The bytes of an area up to its end. -/
def bytes (items : List (Item padCode endCode)) : List UInt8 := items.flatMap Item.bytes

def Item.firstByte (code : UInt8) : Item padCode endCode → Option UInt8
  | .pad => none
  | .opt o => if o.code = code then o.data.head? else none

/-- The first byte of the first option of a code that has one. -/
def lookup (code : UInt8) (items : List (Item padCode endCode)) : Option UInt8 :=
  items.findSome? (Item.firstByte code)

@[simp] theorem bytes_nil : bytes ([] : List (Item padCode endCode)) = [] := rfl

@[simp] theorem bytes_cons (item : Item padCode endCode) (items : List (Item padCode endCode)) :
    bytes (item :: items) = item.bytes ++ bytes items := List.flatMap_cons

theorem lookup_cons_of_none {item : Item padCode endCode} (h : item.firstByte code = none)
    (items : List (Item padCode endCode)) : lookup code (item :: items) = lookup code items := by
  rw [lookup, List.findSome?_cons, h]
  rfl

theorem lookup_cons_of_some {item : Item padCode endCode} (h : item.firstByte code = some b)
    (items : List (Item padCode endCode)) : lookup code (item :: items) = some b := by
  rw [lookup, List.findSome?_cons, h]

theorem Opt.toNat_length (o : Opt padCode endCode) :
    (UInt8.ofNat o.data.length).toNat = o.data.length := by
  have hle := o.length_le
  rw [UInt8.toNat_ofNat']
  omega

end Tlv
