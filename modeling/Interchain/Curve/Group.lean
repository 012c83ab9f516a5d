import Interchain.Bytes.Fixed
import Interchain.Curve.Point

/-!
# The two groups and their encodings

Public keys are points of `y² = x³ + 4` over the base field, signatures points of `y² = x³ + 4(1 + u)` over the
quadratic field. A point is written as its first coordinate; the top three bits of the first byte say that the form
is compressed, whether the point is infinity, and whether the second coordinate is the larger root.

* `groupOrder`, `G1.generator`: order of the prime subgroups and the base point of the keys.
* `Point.inSubgroup`: membership by multiplication with the order.
* `G1.decode`, `G2.decode`: which encodings are refused, and why. They ask for a point of the curve, not of the
  subgroup.
-/

namespace Interchain

/-- Why a string is not accepted as a point of a group. -/
inductive PointError where
  | badEncoding
  | notOnCurve
  | notInSubgroup
  | isInfinity
deriving DecidableEq, Repr

def PointError.message : PointError → String
  | .badEncoding => "BLST_BAD_ENCODING"
  | .notOnCurve => "BLST_POINT_NOT_ON_CURVE"
  | .notInSubgroup => "BLST_POINT_NOT_IN_GROUP"
  | .isInfinity => "BLST_PK_IS_INFINITY"

/-- The prime order of both groups. -/
def groupOrder : Nat := 0x73eda753299d7d483339d80809a1d80553bda402fffe5bfeffffffff00000001

def Point.inSubgroup {F : Type} [Coordinates F] [DecidableEq F] (p : Point F) : Bool :=
  p.scale groupOrder = .infinity

/-! ### Header bits -/

/-- The encoding of infinity: two header bits and nothing else. -/
def infinityEncoding (n : Nat) : FixedBytes n :=
  .ofFit n [0xc0]

/-- Writes the header bits of an affine point over the first byte of its coordinate. -/
def withHeader (large : Bool) : Bytes → Bytes
  | [] => []
  | b :: rest => (b ||| (if large then 0xa0 else 0x80)) :: rest

/-- Splits a string into its header bits and the coordinate, and finds infinity. -/
def readHeader (bs : Bytes) : Except PointError (Option (Bool × Bytes)) :=
  match bs with
  | [] => .error .badEncoding
  | b :: rest =>
    if b &&& 0x80 = 0 then .error .badEncoding
    else if b &&& 0x40 ≠ 0 then
      if b &&& 0x3f = 0 ∧ rest.all (· == 0) then .ok none else .error .badEncoding
    else .ok (some (b &&& 0x20 ≠ 0, (b &&& 0x1f) :: rest))

/-! ### The group of the keys -/

abbrev G1 := Point Fp

namespace G1

def generator : G1 :=
  .affine
    (.ofNat 0x17f1d3a73197d7942695638c4fa9ac0fc3688c4f9774b905a14e3a3f171bac586c55e83ff97a1aeffb3af00adb22c6bb)
    (.ofNat 0x08b3f481e3aaa0f1a09e30ed741d8ae4fcf5e095d5d00af600db18cb2c04b3edd03cc744a2888ae40caa232946c5e7e1)

def encode : G1 → FixedBytes 48
  | .infinity => infinityEncoding 48
  | .affine x y => .ofFit 48 (withHeader y.isLarge x.toBytes)

def decode (encoding : FixedBytes 48) : Except PointError G1 := do
  match ← readHeader encoding.bytes with
  | none => return .infinity
  | some (large, coordinate) =>
    let some x := Fp.ofBytes? coordinate | throw .badEncoding
    let some y := Fp.sqrt? (x * x * x + 4) | throw .notOnCurve
    return .affine x (if y.isLarge = large then y else 0 - y)

end G1

/-! ### The group of the signatures -/

abbrev G2 := Point Fp2

namespace G2

def encode : G2 → FixedBytes 96
  | .infinity => infinityEncoding 96
  | .affine x y => .ofFit 96 (withHeader y.isLarge (x.c1.toBytes ++ x.c0.toBytes))

def decode (encoding : FixedBytes 96) : Except PointError G2 := do
  match ← readHeader encoding.bytes with
  | none => return .infinity
  | some (large, coordinates) =>
    let some c1 := Fp.ofBytes? (coordinates.take 48) | throw .badEncoding
    let some c0 := Fp.ofBytes? (coordinates.drop 48) | throw .badEncoding
    let x : Fp2 := ⟨c0, c1⟩
    let some y := Fp2.sqrt? (x * x * x + ⟨4, 4⟩) | throw .notOnCurve
    return .affine x (if y.isLarge = large then y else -y)

end G2

end Interchain
