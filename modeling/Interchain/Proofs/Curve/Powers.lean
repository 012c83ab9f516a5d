import Interchain.Curve.BaseField
import Mathlib.Algebra.Group.Basic

/-!
# Repeated squaring

What holds for a number step by step along its binary digits holds for the number. Powers by repeated squaring are
one use of this, as any map that respects products shows (`map_power`); multiples of a point and powers modulo a
number are two others.
-/

namespace Interchain

/-- Each digit doubles the number that was read before it, and a set digit adds one. -/
theorem foldl_binaryDigits {α : Type} {R : Nat → α → Prop} {f : α → Bool → α} {start : α} (hstart : R 0 start)
    (hstep : ∀ m a bit, R m a → R (2 * m + bit.toNat) (f a bit)) (k : Nat) :
    R k ((binaryDigits k).foldl f start) := by
  -- The digits from place `n` on have been read when the accumulator stands for `k / 2 ^ n`.
  have hrest : ∀ n a, R (k / 2 ^ n) a → R k (((List.range n).reverse.map k.testBit).foldl f a) := by
    intro n
    induction n with
    | zero =>
      intro a ha
      simpa using ha
    | succ n ih =>
      intro a ha
      have hdigit : k / 2 ^ n = 2 * (k / 2 ^ (n + 1)) + (k.testBit n).toNat := by
        rw [Nat.toNat_testBit, Nat.pow_succ, ← Nat.div_div_eq_div_mul]
        omega
      have hnext := hstep _ _ (k.testBit n) ha
      rw [← hdigit] at hnext
      simpa [List.range_succ] using ih _ hnext
  have hnone : k / 2 ^ (k.log2 + 1) = 0 := Nat.div_eq_of_lt Nat.lt_log2_self
  exact hrest (k.log2 + 1) start (by rw [hnone]; exact hstart)

/-- A map that respects products carries the power that is computed by squaring to the power itself. -/
theorem map_power {F K : Type} [Mul F] [One F] [Monoid K] {φ : F → K} (hone : φ 1 = 1)
    (hmul : ∀ a b, φ (a * b) = φ a * φ b) (x : F) (n : Nat) : φ (power x n) = φ x ^ n := by
  refine foldl_binaryDigits (R := fun m a => φ a = φ x ^ m) (by rw [hone, pow_zero]) (fun m a bit ha => ?_) n
  cases bit with
  | false =>
    rw [if_neg Bool.false_ne_true, hmul, ha, ← pow_add, Nat.two_mul, Bool.toNat_false, Nat.add_zero]
  | true =>
    rw [if_pos rfl, hmul, hmul, ha, ← pow_add, Nat.two_mul, Bool.toNat_true, pow_succ]

end Interchain
