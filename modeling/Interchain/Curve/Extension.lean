import Interchain.Curve.BaseField

/-!
# The extension fields

Each field adjoins a root to the one below it: `u² = -1`, `v³ = 1 + u`, `w² = v`. This gives the fields of degree 2,
6 and 12 over the base field. Products are formed from the parts with as few products below as is usual, and an
inverse is the conjugate over the norm. `Fp12.frobenius` is the `p`-th power map, through the powers of `w`.

The two upper fields carry only what a pairing needs. Nothing is proved about the extensions.
-/

namespace Interchain

/-! ### The quadratic field -/

structure Fp2 where
  c0 : Fp
  c1 : Fp
deriving DecidableEq

namespace Fp2

instance : Zero Fp2 := ⟨⟨0, 0⟩⟩
instance : One Fp2 := ⟨⟨1, 0⟩⟩
instance : Add Fp2 := ⟨fun a b => ⟨a.c0 + b.c0, a.c1 + b.c1⟩⟩
instance : Sub Fp2 := ⟨fun a b => ⟨a.c0 - b.c0, a.c1 - b.c1⟩⟩
instance : Neg Fp2 := ⟨fun a => ⟨0 - a.c0, 0 - a.c1⟩⟩

instance : Mul Fp2 where
  mul a b :=
    let s := a.c0 * b.c0
    let t := a.c1 * b.c1
    ⟨s - t, (a.c0 + a.c1) * (b.c0 + b.c1) - s - t⟩

/-- The root of `-1` that the field adjoins. -/
def u : Fp2 := ⟨0, 1⟩

def scale (k : Fp) (a : Fp2) : Fp2 := ⟨k * a.c0, k * a.c1⟩

def conj (a : Fp2) : Fp2 := ⟨a.c0, 0 - a.c1⟩

/-- Multiplies by `1 + u`, the cube of `v`. -/
def mulNonresidue (a : Fp2) : Fp2 := ⟨a.c0 - a.c1, a.c0 + a.c1⟩

def inv (a : Fp2) : Fp2 :=
  let n := Fp.inv (a.c0 * a.c0 + a.c1 * a.c1)
  ⟨a.c0 * n, 0 - a.c1 * n⟩

def sqrt? (a : Fp2) : Option Fp2 :=
  let s := power a ((fieldPrime - 3) / 4)
  let r := s * a
  let t := s * r
  let root := if t = -1 then u * r else power (1 + t) ((fieldPrime - 1) / 2) * r
  if root * root = a then some root else none

/-- The parity that distinguishes an element from its negative: of the first coordinate that is not zero. -/
def parity (a : Fp2) : Bool :=
  if a.c0 = 0 then a.c1.val % 2 = 1 else a.c0.val % 2 = 1

/-- Whether the element is the larger of itself and its negative, by the second coordinate first. -/
def isLarge (a : Fp2) : Bool :=
  if a.c1 = 0 then a.c0.isLarge else a.c1.isLarge

end Fp2

/-! ### The sextic field -/

structure Fp6 where
  c0 : Fp2
  c1 : Fp2
  c2 : Fp2
deriving DecidableEq

namespace Fp6

instance : Zero Fp6 := ⟨⟨0, 0, 0⟩⟩
instance : One Fp6 := ⟨⟨1, 0, 0⟩⟩
instance : Add Fp6 := ⟨fun a b => ⟨a.c0 + b.c0, a.c1 + b.c1, a.c2 + b.c2⟩⟩
instance : Sub Fp6 := ⟨fun a b => ⟨a.c0 - b.c0, a.c1 - b.c1, a.c2 - b.c2⟩⟩
instance : Neg Fp6 := ⟨fun a => ⟨-a.c0, -a.c1, -a.c2⟩⟩

instance : Mul Fp6 where
  mul a b :=
    let t0 := a.c0 * b.c0
    let t1 := a.c1 * b.c1
    let t2 := a.c2 * b.c2
    ⟨t0 + ((a.c1 + a.c2) * (b.c1 + b.c2) - t1 - t2).mulNonresidue,
      (a.c0 + a.c1) * (b.c0 + b.c1) - t0 - t1 + t2.mulNonresidue,
      (a.c0 + a.c2) * (b.c0 + b.c2) - t0 - t2 + t1⟩

/-- Multiplies by `v`. -/
def mulV (a : Fp6) : Fp6 := ⟨a.c2.mulNonresidue, a.c0, a.c1⟩

def inv (a : Fp6) : Fp6 :=
  let s0 := a.c0 * a.c0 - (a.c1 * a.c2).mulNonresidue
  let s1 := (a.c2 * a.c2).mulNonresidue - a.c0 * a.c1
  let s2 := a.c1 * a.c1 - a.c0 * a.c2
  let n := (a.c0 * s0 + (a.c2 * s1 + a.c1 * s2).mulNonresidue).inv
  ⟨s0 * n, s1 * n, s2 * n⟩

end Fp6

/-! ### The field of the pairing's values -/

structure Fp12 where
  c0 : Fp6
  c1 : Fp6
deriving DecidableEq

namespace Fp12

instance : One Fp12 := ⟨⟨1, 0⟩⟩

instance : Mul Fp12 where
  mul a b :=
    let t0 := a.c0 * b.c0
    let t1 := a.c1 * b.c1
    ⟨t0 + t1.mulV, (a.c0 + a.c1) * (b.c0 + b.c1) - t0 - t1⟩

/-- The power of order `p⁶`. On values that it inverts this is the inverse. -/
def conj (a : Fp12) : Fp12 := ⟨a.c0, -a.c1⟩

def inv (a : Fp12) : Fp12 :=
  let n := (a.c0 * a.c0 - (a.c1 * a.c1).mulV).inv
  ⟨a.c0 * n, -(a.c1 * n)⟩

/-- The factor by which the `p`-th power map turns `w`. -/
def frobeniusFactor : Fp2 := power ⟨1, 1⟩ ((fieldPrime - 1) / 6)

def frobenius (a : Fp12) : Fp12 :=
  let g1 := frobeniusFactor
  let g2 := g1 * g1
  let g3 := g2 * g1
  let g4 := g2 * g2
  let g5 := g4 * g1
  ⟨⟨a.c0.c0.conj, a.c0.c1.conj * g2, a.c0.c2.conj * g4⟩,
    ⟨a.c1.c0.conj * g1, a.c1.c1.conj * g3, a.c1.c2.conj * g5⟩⟩

end Fp12

end Interchain
