import Interchain.Curve.Group

/-!
# The pairing

The ate pairing of a key with a point of the second group, up to the sign of the loop count, which does not matter
for a test against one. `millerLoop` is the product of the lines met while the second point is multiplied by the
loop count, and `finalPower` the power that makes the value independent of the choice of lines.

Only the test is of use: whether a product of pairings is one. It is here to be run. Bilinearity is not proved.
-/

namespace Interchain

namespace Pairing

/-- The absolute value of the curve's parameter. -/
def loopCount : Nat := 0xd201000000010000

/-- A line of slope `m` through `(x, y)`, evaluated at a point of the first group. -/
def lineAt (m x y : Fp2) (px py : Fp) : Fp12 :=
  ⟨⟨m * x - y, -(m.scale px), 0⟩, ⟨0, ⟨py, 0⟩, 0⟩⟩

/-- The point reached and the product of the lines so far. -/
structure Step where
  x : Fp2
  y : Fp2
  value : Fp12

/-- The third point on the line of slope `m` through the point reached, with `x'` on the same line. -/
def Step.follow (s : Step) (m x' : Fp2) (px py : Fp) : Step :=
  let x := m * m - s.x - x'
  ⟨x, m * (s.x - x) - s.y, s.value * lineAt m s.x s.y px py⟩

def Step.tangent (s : Step) (px py : Fp) : Step :=
  let xx := s.x * s.x
  { s with value := s.value * s.value }.follow ((xx + xx + xx) * (s.y + s.y).inv) s.x px py

def Step.chord (s : Step) (qx qy : Fp2) (px py : Fp) : Step :=
  s.follow ((s.y - qy) * (s.x - qx).inv) qx px py

def millerLoop : G1 → G2 → Fp12
  | .affine px py, .affine qx qy =>
    ((binaryDigits loopCount).drop 1).foldl
      (fun s bit => if bit then (s.tangent px py).chord qx qy px py else s.tangent px py)
      (⟨qx, qy, 1⟩ : Step) |>.value
  | _, _ => 1

/-- The power to the curve's parameter, which is negative, of a value that conjugation inverts. -/
def powParameter (f : Fp12) : Fp12 := (power f loopCount).conj

/-- Raises to three times the order of the multiplicative group over the order of the curve's subgroups. -/
def finalPower (f : Fp12) : Fp12 :=
  let f := f.conj * f.inv
  let f := f.frobenius.frobenius * f
  let a := powParameter f * f.conj
  let a := powParameter a * a.conj
  let b := powParameter a * a.frobenius
  let c := powParameter (powParameter b) * b.frobenius.frobenius * b.conj
  c * (f * f * f)

end Pairing

def pairingProductIsOne (pairs : List (G1 × G2)) : Bool :=
  Pairing.finalPower (pairs.foldl (fun f p => f * Pairing.millerLoop p.1 p.2) 1) = 1

end Interchain
