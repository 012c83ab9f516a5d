import Interchain.Curve.Group
import Interchain.Proofs.Curve.Powers
import Mathlib.AlgebraicGeometry.EllipticCurve.Affine.Point

/-!
# Addition in fractions is addition on the curve

Points are added as fractions `(x / z², y / z³)`. Where coordinates are calculated with as in a field, the fractions
stand for points of the elliptic curve `y² = x³ + b`, and what is done with them is done with these points. The
group of the curve is that of the library; nothing like associativity is proved here.

* `Coordinates.Embedding`: coordinates as elements of a field.
* `Jacobian.IsAt.double`, `Jacobian.IsAt.chord`: the two lines that points are added with, as identities of fractions.
* `Jacobian.Denotes.add`: which line applies, and when the sum is infinity.
* `Jacobian.Denotes.scale`, `Point.Denotes.sum`: multiples, along the digits of the factor, and sums of lists.
* `Point.Denotes.inSubgroup_iff`: the test of membership.

Other formulas for the same sum would need new proofs of the two lines, and of `Jacobian.add_of_ne`; all else goes
by what the fractions stand for.
-/

namespace Interchain

open WeierstrassCurve.Affine

variable {F K : Type} [Coordinates F] [Field K]

/-- Coordinates that are calculated with as elements of a field. -/
structure Coordinates.Embedding (F K : Type) [Coordinates F] [Field K] where
  toFun : F → K
  injective : Function.Injective toFun
  map_zero : toFun 0 = 0
  map_one : toFun 1 = 1
  map_add : ∀ a b, toFun (a + b) = toFun a + toFun b
  map_sub : ∀ a b, toFun (a - b) = toFun a - toFun b
  map_mul : ∀ a b, toFun (a * b) = toFun a * toFun b
  map_neg : ∀ a, toFun (-a) = -toFun a
  map_inv : ∀ a, toFun (Coordinates.inv a) = (toFun a)⁻¹

namespace Coordinates.Embedding

attribute [simp] map_zero map_one map_add map_sub map_mul map_neg map_inv

instance : CoeFun (Coordinates.Embedding F K) fun _ => F → K := ⟨toFun⟩

variable (φ : Coordinates.Embedding F K)

theorem eq_zero_iff {a : F} : φ a = 0 ↔ a = 0 := by
  rw [← φ.map_zero]
  exact φ.injective.eq_iff

end Coordinates.Embedding

/-! ### The curve -/

/-- The curve `y² = x³ + b`. -/
def curve (b : K) : WeierstrassCurve.Affine K where
  a₁ := 0
  a₂ := 0
  a₃ := 0
  a₄ := 0
  a₆ := b

variable {b x y x' y' : K}

@[simp] theorem curve_negY : (curve b).negY x y = -y := by
  simp [negY, curve]

theorem curve_equation_iff : (curve b).Equation x y ↔ y ^ 2 = x ^ 3 + b := by
  simp [equation_iff, curve]

/-- Unless two or three is zero, every solution of the equation is a point. -/
theorem curve_nonsingular (h2 : (2 : K) ≠ 0) (h3 : (3 : K) ≠ 0) (hb : b ≠ 0) (h : y ^ 2 = x ^ 3 + b) :
    (curve b).Nonsingular x y := by
  refine (nonsingular_iff ..).2 ⟨curve_equation_iff.2 h, ?_⟩
  by_contra hsingular
  obtain ⟨hx, hy⟩ := not_or.1 hsingular
  have hxx : 3 * x ^ 2 = 0 := by simpa [curve] using (not_not.1 hx).symm
  have hyy : 2 * y = 0 := by
    rw [two_mul, ← eq_neg_iff_add_eq_zero]
    simpa [curve] using hy
  have hx0 : x = 0 := by simpa [h3] using hxx
  have hy0 : y = 0 := (mul_eq_zero.1 hyy).resolve_left h2
  rw [hx0, hy0, zero_pow two_ne_zero, zero_pow three_ne_zero, zero_add] at h
  exact hb h.symm

section Sums

variable [DecidableEq K]

/-- The tangent at a point that is not its own negative. -/
theorem curve_slope_self (hy : y ≠ -y) : (curve b).slope x x y y = 3 * x ^ 2 / (2 * y) := by
  rw [slope_of_Y_ne rfl (by rwa [curve_negY]), curve_negY, sub_neg_eq_add, ← two_mul]
  simp [curve]

theorem curve_slope_of_ne (hx : x ≠ x') : (curve b).slope x x' y y' = (y - y') / (x - x') :=
  slope_of_X_ne hx

end Sums

/-! ### Fractions -/

namespace Jacobian

variable {φ : Coordinates.Embedding F K} {p q : Jacobian F} {P Q : (curve b).Point}

/-- A fraction that has these coordinates. -/
structure IsAt (φ : Coordinates.Embedding F K) (p : Jacobian F) (x y : K) : Prop where
  z_ne : φ p.z ≠ 0
  x_eq : φ p.x = x * φ p.z ^ 2
  y_eq : φ p.y = y * φ p.z ^ 3

/-- The point of the curve that a fraction stands for. -/
inductive Denotes (φ : Coordinates.Embedding F K) (p : Jacobian F) : (curve b).Point → Prop where
  | zero (hz : φ p.z = 0) : Denotes φ p 0
  | some {x y : K} (h : (curve b).Nonsingular x y) (hp : IsAt φ p x y) : Denotes φ p (.some x y h)

theorem denotes_infinity : Denotes φ (infinity : Jacobian F) (0 : (curve b).Point) :=
  .zero φ.map_zero

/-! #### The tangent -/

theorem IsAt.map_double_z (hp : IsAt φ p x y) : φ p.double.z = 2 * y * φ p.z ^ 4 := by
  simp only [double, φ.map_add, φ.map_mul, hp.y_eq]
  ring

section Tangent

variable [DecidableEq K]

/-- The third intersection of the tangent, with the other sign. -/
theorem IsAt.double (hp : IsAt φ p x y) (hself : y ≠ -y) :
    IsAt φ p.double ((curve b).addX x x ((curve b).slope x x y y))
      ((curve b).addY x x y ((curve b).slope x x y y)) := by
  have hyy : 2 * y ≠ 0 := by rwa [Ne, two_mul, ← eq_neg_iff_add_eq_zero]
  obtain ⟨h2, hy⟩ := mul_ne_zero_iff.1 hyy
  have hz := hp.z_ne
  refine ⟨?_, ?_, ?_⟩
  · rw [hp.map_double_z]
    exact mul_ne_zero hyy (pow_ne_zero 4 hz)
  · rw [hp.map_double_z, curve_slope_self hself]
    simp only [Jacobian.double, φ.map_add, φ.map_mul, φ.map_sub, hp.x_eq, hp.y_eq, addX, curve]
    field_simp
    ring
  · rw [hp.map_double_z, curve_slope_self hself]
    simp only [Jacobian.double, φ.map_add, φ.map_mul, φ.map_sub, hp.x_eq, hp.y_eq, addY, curve_negY]
    simp only [negAddY, addX, curve]
    field_simp
    ring

/-- The tangent is vertical where a point is its own negative. -/
theorem Denotes.double (hp : Denotes φ p P) : Denotes φ p.double (P + P) := by
  cases hp with
  | zero hz =>
    rw [add_zero]
    exact .zero (by simp [Jacobian.double, hz])
  | @some x y h hp =>
    by_cases hself : y = -y
    · have hyy : 2 * y = 0 := by
        rw [two_mul, ← eq_neg_iff_add_eq_zero]
        exact hself
      rw [Point.add_self_of_Y_eq (by rwa [curve_negY])]
      exact .zero (by rw [hp.map_double_z, hyy, zero_mul])
    · rw [Point.add_self_of_Y_ne (by rwa [curve_negY])]
      exact .some _ (hp.double hself)

end Tangent

/-! #### The chord -/

/-- How far two fractions are apart in the first coordinate, over the common denominator. -/
def run (p q : Jacobian F) : F := q.x * (p.z * p.z) - p.x * (q.z * q.z)

/-- How far they are apart in the second coordinate. -/
def rise (p q : Jacobian F) : F := q.y * (p.z * p.z * p.z) - p.y * (q.z * q.z * q.z)

/-- The sum of two fractions that differ in the first coordinate. -/
def chord (p q : Jacobian F) : Jacobian F :=
  let hh := run p q * run p q
  let hhh := hh * run p q
  let v := p.x * (q.z * q.z) * hh
  let x := rise p q * rise p q - hhh - (v + v)
  ⟨x, rise p q * (v - x) - p.y * (q.z * q.z * q.z) * hhh, p.z * q.z * run p q⟩

theorem IsAt.map_run (hp : IsAt φ p x y) (hq : IsAt φ q x' y') :
    φ (run p q) = (x' - x) * (φ p.z * φ q.z) ^ 2 := by
  simp only [run, φ.map_sub, φ.map_mul, hp.x_eq, hq.x_eq]
  ring

theorem IsAt.map_rise (hp : IsAt φ p x y) (hq : IsAt φ q x' y') :
    φ (rise p q) = (y' - y) * (φ p.z * φ q.z) ^ 3 := by
  simp only [rise, φ.map_sub, φ.map_mul, hp.y_eq, hq.y_eq]
  ring

theorem IsAt.run_eq_zero_iff (hp : IsAt φ p x y) (hq : IsAt φ q x' y') : run p q = 0 ↔ x = x' := by
  rw [← φ.eq_zero_iff, hp.map_run hq, mul_eq_zero, sub_eq_zero, eq_comm]
  exact or_iff_left (pow_ne_zero 2 (mul_ne_zero hp.z_ne hq.z_ne))

theorem IsAt.rise_eq_zero_iff (hp : IsAt φ p x y) (hq : IsAt φ q x' y') : rise p q = 0 ↔ y = y' := by
  rw [← φ.eq_zero_iff, hp.map_rise hq, mul_eq_zero, sub_eq_zero, eq_comm]
  exact or_iff_left (pow_ne_zero 3 (mul_ne_zero hp.z_ne hq.z_ne))

variable [DecidableEq K]

/-- The third intersection of the chord, with the other sign. -/
theorem IsAt.chord (hp : IsAt φ p x y) (hq : IsAt φ q x' y') (hx : x ≠ x') :
    IsAt φ (chord p q) ((curve b).addX x x' ((curve b).slope x x' y y'))
      ((curve b).addY x x' y ((curve b).slope x x' y y')) := by
  have hxx : x - x' ≠ 0 := sub_ne_zero.2 hx
  have hrun : φ (run p q) ≠ 0 := mt φ.eq_zero_iff.1 (mt (hp.run_eq_zero_iff hq).1 hx)
  refine ⟨?_, ?_, ?_⟩
  · simp only [Jacobian.chord, φ.map_mul]
    exact mul_ne_zero (mul_ne_zero hp.z_ne hq.z_ne) hrun
  · rw [curve_slope_of_ne hx]
    simp only [Jacobian.chord, φ.map_add, φ.map_mul, φ.map_sub, hp.map_run hq, hp.map_rise hq, hp.x_eq, addX, curve]
    field_simp
    ring
  · rw [curve_slope_of_ne hx]
    simp only [Jacobian.chord, φ.map_add, φ.map_mul, φ.map_sub, hp.map_run hq, hp.map_rise hq, hp.x_eq, hp.y_eq, addY,
      curve_negY]
    simp only [negAddY, addX, curve]
    field_simp
    ring

/-! #### The group -/

variable [DecidableEq F]

theorem add_of_ne (hp : p.z ≠ 0) (hq : q.z ≠ 0) :
    p.add q = if run p q = 0 then if rise p q = 0 then p.double else infinity else chord p q := by
  rw [add, if_neg hp, if_neg hq]
  rfl

/-- Points with the same first coordinate are the same or negatives of each other; others lie on a chord. -/
theorem Denotes.add (hp : Denotes φ p P) (hq : Denotes φ q Q) : Denotes φ (p.add q) (P + Q) := by
  cases hp with
  | zero hpz =>
    rw [zero_add, Jacobian.add, if_pos (φ.eq_zero_iff.1 hpz)]
    exact hq
  | @some x y h hp =>
    have hpz : p.z ≠ 0 := mt φ.eq_zero_iff.2 hp.z_ne
    cases hq with
    | zero hqz =>
      rw [add_zero, Jacobian.add, if_neg hpz, if_pos (φ.eq_zero_iff.1 hqz)]
      exact .some h hp
    | @some x' y' h' hq =>
      rw [add_of_ne hpz (mt φ.eq_zero_iff.2 hq.z_ne)]
      by_cases hx : x = x'
      · rw [if_pos ((hp.run_eq_zero_iff hq).2 hx)]
        subst hx
        by_cases hy : y = y'
        · rw [if_pos ((hp.rise_eq_zero_iff hq).2 hy)]
          subst hy
          exact Denotes.double (.some h hp)
        · have hneg : y = (curve b).negY x y' := (Y_eq_of_X_eq h.1 h'.1 rfl).resolve_left hy
          rw [if_neg (mt (hp.rise_eq_zero_iff hq).1 hy), Point.add_of_Y_eq rfl hneg]
          exact denotes_infinity
      · rw [if_neg (mt (hp.run_eq_zero_iff hq).1 hx), Point.add_of_X_ne hx]
        exact .some _ (hp.chord hq hx)

theorem Denotes.scale (hp : Denotes φ p P) (k : Nat) : Denotes φ (p.scale k) (k • P) := by
  refine foldl_binaryDigits (R := fun n acc => Denotes φ acc (n • P)) ?_ (fun n acc bit hacc => ?_) k
  · rw [zero_nsmul]
    exact denotes_infinity
  · cases bit with
    | false =>
      rw [Bool.toNat_false, Nat.add_zero, Nat.two_mul, add_nsmul]
      exact hacc.double
    | true =>
      rw [Bool.toNat_true, succ_nsmul, Nat.two_mul, add_nsmul]
      exact hacc.double.add hp

end Jacobian

/-! ### Points with two coordinates -/

namespace Point

variable {φ : Coordinates.Embedding F K} {p q : Point F} {P Q : (curve b).Point}

/-- The point of the curve with these coordinates. -/
inductive Denotes (φ : Coordinates.Embedding F K) : Point F → (curve b).Point → Prop where
  | infinity : Denotes φ .infinity 0
  | affine {x y : F} (h : (curve b).Nonsingular (φ x) (φ y)) : Denotes φ (.affine x y) (.some (φ x) (φ y) h)

theorem Denotes.eq_infinity_iff (hp : Denotes φ p P) : p = .infinity ↔ P = 0 := by
  cases hp with
  | infinity => exact ⟨fun _ => rfl, fun _ => rfl⟩
  | affine h => exact ⟨fun hp => (by cases hp), fun hP => absurd hP (Point.some_ne_zero h)⟩

/-- Different coordinates are different points. -/
theorem Denotes.unique (hp : Denotes φ p P) (hq : Denotes φ q P) : p = q := by
  cases hp with
  | infinity =>
    cases hq with
    | infinity => rfl
  | @affine x y h =>
    generalize hP : (WeierstrassCurve.Affine.Point.some (φ x) (φ y) h : (curve b).Point) = P at hq
    cases hq with
    | infinity => exact absurd hP (Point.some_ne_zero h)
    | @affine x' y' h' =>
      injection hP with hx hy
      rw [φ.injective hx, φ.injective hy]

theorem Denotes.ofPoint (hp : Denotes φ p P) : Jacobian.Denotes φ (.ofPoint p) P := by
  cases hp with
  | infinity => exact Jacobian.denotes_infinity
  | affine h =>
    have hz : φ (1 : F) = 1 := φ.map_one
    exact .some h ⟨by simp [Jacobian.ofPoint, hz], by simp [Jacobian.ofPoint, hz], by simp [Jacobian.ofPoint, hz]⟩

variable [DecidableEq F]

theorem denotes_toPoint {j : Jacobian F} (hj : Jacobian.Denotes φ j P) : Denotes φ j.toPoint P := by
  cases hj with
  | zero hz =>
    rw [Jacobian.toPoint, if_pos (φ.eq_zero_iff.1 hz)]
    exact .infinity
  | @some x y h hj =>
    obtain ⟨hz, hx, hy⟩ := hj
    rw [Jacobian.toPoint, if_neg (mt φ.eq_zero_iff.2 hz)]
    dsimp only
    generalize hi : Coordinates.inv j.z = i
    have hinv : φ i = (φ j.z)⁻¹ := by rw [← hi, φ.map_inv]
    have hx' : φ (j.x * (i * i)) = x := by
      simp only [φ.map_mul, hinv, hx]
      field_simp
    have hy' : φ (j.y * (i * i * i)) = y := by
      simp only [φ.map_mul, hinv, hy]
      field_simp
    subst hx' hy'
    exact .affine h

variable [DecidableEq K]

theorem Denotes.scale (hp : Denotes φ p P) (k : Nat) : Denotes φ (p.scale k) (k • P) :=
  denotes_toPoint (hp.ofPoint.scale k)

/-- The sum of a list of points is the sum in the group. -/
theorem Denotes.sum {ps : List (Point F)} {Ps : List (curve b).Point} (h : List.Forall₂ (Denotes φ) ps Ps) :
    Denotes φ (Point.sum ps) Ps.sum := by
  have hfold : ∀ {j : Jacobian F} {P : (curve b).Point}, Jacobian.Denotes φ j P →
      Jacobian.Denotes φ (ps.foldl (fun acc p => acc.add (.ofPoint p)) j) (P + Ps.sum) := by
    induction h with
    | nil =>
      intro j P hj
      rw [List.sum_nil, add_zero]
      exact hj
    | cons hp _ ih =>
      intro j P hj
      rw [List.sum_cons, ← add_assoc]
      exact ih (hj.add hp.ofPoint)
  have hsum := hfold Jacobian.denotes_infinity
  rw [zero_add] at hsum
  exact denotes_toPoint hsum

/-- The points that are accepted are those that the order of the subgroup annihilates. -/
theorem Denotes.inSubgroup_iff (hp : Denotes φ p P) : p.inSubgroup = true ↔ groupOrder • P = 0 := by
  rw [inSubgroup, decide_eq_true_iff, (hp.scale groupOrder).eq_infinity_iff]

end Point

end Interchain
