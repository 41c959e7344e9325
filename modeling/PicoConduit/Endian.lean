import Mathlib.Algebra.Order.Ring.Nat
import Mathlib.Data.List.Basic
import Mathlib.Tactic.Ring

namespace Endian
set_option autoImplicit true

/-- The lowest bytes of a number, the lowest first. -/
def leBytes : Nat → Nat → List UInt8
  | 0, _ => []
  | width + 1, n => UInt8.ofNat n :: leBytes width (n / 256)

def ofLeBytes : List UInt8 → Nat
  | [] => 0
  | b :: bs => b.toNat + 256 * ofLeBytes bs

@[simp] theorem length_leBytes (width n : Nat) : (leBytes width n).length = width := by
  induction width generalizing n with
  | zero => rfl
  | succ width ih => rw [leBytes, List.length_cons, ih]

theorem ofLeBytes_leBytes (width n : Nat) :
    ofLeBytes (leBytes width n) = n % 256 ^ width := by
  induction width generalizing n with
  | zero => rw [leBytes, ofLeBytes, pow_zero, Nat.mod_one]
  | succ width ih =>
    rw [leBytes, ofLeBytes, ih, UInt8.toNat_ofNat', pow_succ' 256 width, Nat.mod_mul]

theorem ofLeBytes_leBytes_of_lt (h : n < 256 ^ width) : ofLeBytes (leBytes width n) = n := by
  rw [ofLeBytes_leBytes, Nat.mod_eq_of_lt h]

end Endian
