import Interchain.Proofs.Curve.Addition
import Interchain.Proofs.Curve.Primes
import Mathlib.FieldTheory.Finite.Basic

/-!
# The base field is a field

The elements of the base field are the residues modulo the prime: `Fp.embedding` carries all operations over, by
Fermat's theorem also the inverse. A square has a root, which is found up to its sign, as the prime is 3 modulo 4.

Of an element that is not zero and its negative, exactly one lies in the upper half. This is the sign by which
points are encoded.
-/

namespace Interchain.Fp

instance : Fact fieldPrime.Prime := ⟨fieldPrime_prime⟩

variable {a b r x y : Fp}

/-! ### Residues -/

/-- An element as a residue. -/
def toZMod (a : Fp) : ZMod fieldPrime := a.val

theorem toZMod_injective : Function.Injective toZMod := by
  intro a b h
  have hmod : a.val % fieldPrime = b.val % fieldPrime := (ZMod.natCast_eq_natCast_iff' _ _ _).1 h
  rw [Nat.mod_eq_of_lt a.isLt, Nat.mod_eq_of_lt b.isLt] at hmod
  exact Fin.ext hmod

theorem toZMod_zero : toZMod 0 = 0 := by
  rw [toZMod, Fin.val_zero, Nat.cast_zero]

theorem toZMod_one : toZMod 1 = 1 := by
  show ((1 % fieldPrime : Nat) : ZMod fieldPrime) = 1
  rw [ZMod.natCast_mod, Nat.cast_one]

theorem toZMod_add (a b : Fp) : toZMod (a + b) = toZMod a + toZMod b := by
  rw [toZMod, Fin.val_add, ZMod.natCast_mod, Nat.cast_add]
  rfl

theorem toZMod_mul (a b : Fp) : toZMod (a * b) = toZMod a * toZMod b := by
  show ((a.val * b.val % fieldPrime : Nat) : ZMod fieldPrime) = _
  rw [ZMod.natCast_mod, Nat.cast_mul]
  rfl

theorem toZMod_sub (a b : Fp) : toZMod (a - b) = toZMod a - toZMod b := by
  rw [toZMod, Fin.val_sub, ZMod.natCast_mod, Nat.cast_add, Nat.cast_sub (Nat.le_of_lt b.isLt), ZMod.natCast_self]
  show 0 - toZMod b + toZMod a = _
  ring

theorem toZMod_power (a : Fp) (n : Nat) : toZMod (power a n) = toZMod a ^ n :=
  map_power toZMod_one toZMod_mul a n

/-- By Fermat, as the prime less one is the power that gives one. -/
theorem toZMod_inv (a : Fp) : toZMod (inv a) = (toZMod a)⁻¹ := by
  rw [inv, toZMod_power]
  rcases eq_or_ne (toZMod a) 0 with h0 | h0
  · rw [h0, zero_pow (by decide), inv_zero]
  · refine eq_inv_of_mul_eq_one_left ?_
    rw [← pow_succ]
    exact ZMod.pow_card_sub_one_eq_one h0

/-- Elements of the base field as residues modulo the prime. -/
def embedding : Coordinates.Embedding Fp (ZMod fieldPrime) where
  toFun := toZMod
  injective := toZMod_injective
  map_zero := toZMod_zero
  map_one := toZMod_one
  map_add := toZMod_add
  map_sub := toZMod_sub
  map_mul := toZMod_mul
  map_neg a := by
    show toZMod (0 - a) = -toZMod a
    rw [toZMod_sub, toZMod_zero, zero_sub]
  map_inv := toZMod_inv

/-! ### Square roots -/

theorem mul_self_of_sqrt? (h : sqrt? a = some r) : r * r = a := by
  simp only [sqrt?] at h
  split at h
  · next hr =>
    obtain rfl := Option.some.inj h
    exact hr
  · cases h

/-- The prime is three modulo four, and a square to the power of half the group's order is one. -/
theorem sqrt?_mul_self (y : Fp) : ∃ r, sqrt? (y * y) = some r ∧ (r = y ∨ r = 0 - y) := by
  have hroot : power (y * y) ((fieldPrime + 1) / 4) * power (y * y) ((fieldPrime + 1) / 4) = y * y := by
    refine toZMod_injective ?_
    rw [toZMod_mul, toZMod_power, toZMod_mul, ← pow_add]
    rcases eq_or_ne (toZMod y) 0 with h0 | h0
    · rw [h0, zero_mul, zero_pow (by decide)]
    · have hexp : 2 * ((fieldPrime + 1) / 4 + (fieldPrime + 1) / 4) = fieldPrime - 1 + 2 := by decide
      rw [← sq, ← pow_mul, hexp, pow_add, ZMod.pow_card_sub_one_eq_one h0, one_mul]
  refine ⟨power (y * y) ((fieldPrime + 1) / 4), by simp only [sqrt?, if_pos hroot], ?_⟩
  have hsquares : toZMod (power (y * y) ((fieldPrime + 1) / 4)) ^ 2 = toZMod y ^ 2 := by
    rw [sq, sq, ← toZMod_mul, ← toZMod_mul, hroot]
  rcases sq_eq_sq_iff_eq_or_eq_neg.1 hsquares with h | h
  · exact .inl (toZMod_injective h)
  · refine .inr (toZMod_injective ?_)
    rw [h, toZMod_sub, toZMod_zero, zero_sub]

/-! ### Signs -/

theorem isLarge_neg (hy : y ≠ 0) : isLarge (0 - y) = !y.isLarge := by
  have hpos : 0 < y.val := Nat.pos_of_ne_zero fun h => hy (Fin.ext h)
  have hval : (0 - y).val = fieldPrime - y.val := by
    rw [Fin.val_sub, Fin.val_zero, Nat.add_zero, Nat.mod_eq_of_lt (by omega)]
  have hodd : fieldPrime % 2 = 1 := by decide
  rw [isLarge, isLarge, hval, ← decide_not, decide_eq_decide]
  have := y.isLt
  omega

theorem zero_sub_zero_sub (y : Fp) : 0 - (0 - y) = y := by
  refine toZMod_injective ?_
  rw [toZMod_sub, toZMod_sub, toZMod_zero, zero_sub, zero_sub, neg_neg]

/-- Of an element and its negative, the one in the same half as the element is the element itself. -/
theorem eq_of_isLarge (hr : r = y ∨ r = 0 - y) : (if r.isLarge = y.isLarge then r else 0 - r) = y := by
  rcases hr with rfl | rfl
  · rw [if_pos rfl]
  · rcases eq_or_ne y 0 with rfl | hy
    · rfl
    · rw [isLarge_neg hy, if_neg (Bool.not_ne_self _), zero_sub_zero_sub]

/-- The sign can be chosen, unless the element is zero. -/
theorem isLarge_signed {large : Bool} (h : (if y.isLarge = large then y else 0 - y) ≠ 0) :
    isLarge (if y.isLarge = large then y else 0 - y) = large := by
  split at h
  · next hlarge => rw [if_pos hlarge, hlarge]
  · next hlarge =>
    have hy : y ≠ 0 := by
      rintro rfl
      exact h rfl
    rw [if_neg hlarge, isLarge_neg hy, Bool.not_eq.2 hlarge]

end Interchain.Fp
