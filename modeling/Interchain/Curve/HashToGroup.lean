import Interchain.Curve.Group
import Interchain.Hash.Sha256

/-!
# Hashing to the group of the signatures

A message is expanded to two elements of the quadratic field. The simplified map carries each of them to the curve
`y² = x³ + A x + B`, an isogeny of degree three from there to the curve of the signatures; the two images are added,
and the cofactor is cleared by one multiplication.

The coefficients of the isogeny and the cofactor are constants of the standard suite. They are taken as they are.
-/

namespace Interchain

def hashToField (message domain : Bytes) : List Fp2 :=
  match (FixedBytes.blocks 64 4 (expandMessage message domain 256)).map fun b => Fp.ofNat b.toNat with
  | [a, b, c, d] => [⟨a, b⟩, ⟨c, d⟩]
  | _ => []

namespace Isogeny

/-! ### The isogenous curve -/

def coeffA : Fp2 := ⟨0, 240⟩

def coeffB : Fp2 := ⟨1012, 1012⟩

/-- The fixed non-square of the map. -/
def nonSquare : Fp2 := -⟨2, 1⟩

/-- The right-hand side of the isogenous curve's equation. -/
def rightSide (x : Fp2) : Fp2 := (x * x + coeffA) * x + coeffB

/-- A point of the isogenous curve for every field element, with a root of the element's own parity. -/
def simpleMap (t : Fp2) : Fp2 × Fp2 :=
  let zt := nonSquare * (t * t)
  let d := zt * zt + zt
  let x1 :=
    if d = 0 then coeffB * (nonSquare * coeffA).inv
    else -(coeffB * coeffA.inv) * (1 + d.inv)
  let (x, y) :=
    match (rightSide x1).sqrt? with
    | some y => (x1, y)
    | none =>
      let x2 := zt * x1
      (x2, (rightSide x2).sqrt?.getD 0)
  (x, if t.parity = y.parity then y else -y)

/-! ### The map of degree three -/

/-- The value of a polynomial given by its coefficients, lowest first. -/
def evalPoly (coeffs : List Fp2) (x : Fp2) : Fp2 :=
  coeffs.foldr (fun c acc => c + x * acc) 0

def xNumerator : List Fp2 :=
  [⟨0x5c759507e8e333ebb5b7a9a47d7ed8532c52d39fd3a042a88b58423c50ae15d5c2638e343d9c71c6238aaaaaaaa97d6,
      0x5c759507e8e333ebb5b7a9a47d7ed8532c52d39fd3a042a88b58423c50ae15d5c2638e343d9c71c6238aaaaaaaa97d6⟩,
    ⟨0, 0x11560bf17baa99bc32126fced787c88f984f87adf7ae0c7f9a208c6b4f20a4181472aaa9cb8d555526a9ffffffffc71a⟩,
    ⟨0x11560bf17baa99bc32126fced787c88f984f87adf7ae0c7f9a208c6b4f20a4181472aaa9cb8d555526a9ffffffffc71e,
      0x8ab05f8bdd54cde190937e76bc3e447cc27c3d6fbd7063fcd104635a790520c0a395554e5c6aaaa9354ffffffffe38d⟩,
    ⟨0x171d6541fa38ccfaed6dea691f5fb614cb14b4e7f4e810aa22d6108f142b85757098e38d0f671c7188e2aaaaaaaa5ed1, 0⟩]

def xDenominator : List Fp2 :=
  [⟨0, -72⟩, ⟨12, -12⟩, 1]

def yNumerator : List Fp2 :=
  [⟨0x1530477c7ab4113b59a4c18b076d11930f7da5d4a07f649bf54439d87d27e500fc8c25ebf8c92f6812cfc71c71c6d706,
      0x1530477c7ab4113b59a4c18b076d11930f7da5d4a07f649bf54439d87d27e500fc8c25ebf8c92f6812cfc71c71c6d706⟩,
    ⟨0, 0x5c759507e8e333ebb5b7a9a47d7ed8532c52d39fd3a042a88b58423c50ae15d5c2638e343d9c71c6238aaaaaaaa97be⟩,
    ⟨0x11560bf17baa99bc32126fced787c88f984f87adf7ae0c7f9a208c6b4f20a4181472aaa9cb8d555526a9ffffffffc71c,
      0x8ab05f8bdd54cde190937e76bc3e447cc27c3d6fbd7063fcd104635a790520c0a395554e5c6aaaa9354ffffffffe38f⟩,
    ⟨0x124c9ad43b6cf79bfbf7043de3811ad0761b0f37a1e26286b0e977c69aa274524e79097a56dc4bd9e1b371c71c718b10, 0⟩]

def yDenominator : List Fp2 :=
  [⟨-432, -432⟩, ⟨0, -216⟩, ⟨18, -18⟩, 1]

/-- Carries a point of the isogenous curve to the target; the kernel goes to infinity. -/
def image (x y : Fp2) : G2 :=
  let dx := evalPoly xDenominator x
  let dy := evalPoly yDenominator x
  if dx = 0 ∨ dy = 0 then .infinity
  else .affine (evalPoly xNumerator x * dx.inv) (y * evalPoly yNumerator x * dy.inv)

end Isogeny

def mapToCurve (t : Fp2) : G2 :=
  let (x, y) := Isogeny.simpleMap t
  Isogeny.image x y

/-- The multiple of the cofactor that carries every point of the curve into the subgroup. -/
def clearingFactor : Nat :=
  0xbc69f08f2ee75b3584c6a0ea91b352888e2a8e9145ad7689986ff031508ffe1329c2f178731db956d82bf015d1212b02ec0ec69d7477c1ae954cbc06689f6a359894c0adebbf6b4e8020005aaa95551

def hashToGroup (message domain : Bytes) : G2 :=
  (Point.sum ((hashToField message domain).map mapToCurve)).scale clearingFactor

end Interchain
