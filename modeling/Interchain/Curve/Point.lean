import Interchain.Curve.Extension

/-!
# Points of a curve `y² = x³ + b`

Points have two coordinates, or are infinity. They are added as fractions `(x / z², y / z³)`, on which addition
needs no division, so that a sum of many points costs one inverse.

The coordinates are any type with the operations of `Coordinates`, no laws required: the same definitions serve both
groups. The constant `b` of the curve `y² = x³ + b` does not occur in them, so a pair of coordinates need not lie on
any particular curve.
-/

namespace Interchain

inductive Point (F : Type) where
  | infinity
  | affine (x y : F)
deriving DecidableEq

/-- A point in fractions; the denominator of the point at infinity is zero. -/
structure Jacobian (F : Type) where
  x : F
  y : F
  z : F

/-- The operations on coordinates. -/
class Coordinates (F : Type) extends Add F, Sub F, Mul F, Neg F, Zero F, One F where
  inv : F → F

instance : Coordinates Fp where
  neg a := 0 - a
  zero := 0
  one := 1
  inv := Fp.inv

instance : Coordinates Fp2 where
  inv := Fp2.inv

namespace Jacobian

variable {F : Type} [Coordinates F] [DecidableEq F]

def infinity : Jacobian F := ⟨1, 1, 0⟩

@[specialize] def double (p : Jacobian F) : Jacobian F :=
  let a := p.x * p.x
  let b := p.y * p.y
  let c := b * b
  let t := p.x + b
  let d := t * t - a - c
  let d := d + d
  let e := a + a + a
  let x := e * e - (d + d)
  let c2 := c + c
  let c4 := c2 + c2
  let yz := p.y * p.z
  ⟨x, e * (d - x) - (c4 + c4), yz + yz⟩

@[specialize] def add (p q : Jacobian F) : Jacobian F :=
  if p.z = 0 then q
  else if q.z = 0 then p
  else
    let zp := p.z * p.z
    let zq := q.z * q.z
    let u := p.x * zq
    let s := p.y * (zq * q.z)
    let h := q.x * zp - u
    let r := q.y * (zp * p.z) - s
    if h = 0 then if r = 0 then p.double else infinity
    else
      let hh := h * h
      let hhh := hh * h
      let v := u * hh
      let x := r * r - hhh - (v + v)
      ⟨x, r * (v - x) - s * hhh, p.z * q.z * h⟩

@[specialize] def scale (k : Nat) (p : Jacobian F) : Jacobian F :=
  (binaryDigits k).foldl (fun acc bit => if bit then acc.double.add p else acc.double) infinity

def ofPoint : Point F → Jacobian F
  | .infinity => infinity
  | .affine x y => ⟨x, y, 1⟩

@[specialize] def toPoint (p : Jacobian F) : Point F :=
  if p.z = 0 then .infinity
  else
    let i := Coordinates.inv p.z
    let ii := i * i
    .affine (p.x * ii) (p.y * (ii * i))

end Jacobian

namespace Point

variable {F : Type} [Coordinates F] [DecidableEq F]

def neg : Point F → Point F
  | infinity => infinity
  | affine x y => affine x (-y)

@[specialize] def add (p q : Point F) : Point F :=
  ((Jacobian.ofPoint p).add (.ofPoint q)).toPoint

@[specialize] def sum (ps : List (Point F)) : Point F :=
  (ps.foldl (fun acc p => acc.add (.ofPoint p)) Jacobian.infinity).toPoint

@[specialize] def scale (k : Nat) (p : Point F) : Point F :=
  ((Jacobian.ofPoint p).scale k).toPoint

end Point

end Interchain
