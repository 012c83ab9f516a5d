import Interchain.Bytes.Basic

/-!
# The base field of the curve

The integers modulo a prime of 381 bits. Inverse and square root are one power each, as the prime is 3 modulo 4; a
square root is checked by squaring it. Powers go along the binary digits of the exponent, by a function for every
type with a product, so that the extension fields and the points share it.

That the number is prime, and that these operations make a field, is proved elsewhere. No step depends on it to be
defined.
-/

namespace Interchain

/-! ### Powers -/

/-- The binary digits of a positive number, most significant first. -/
def binaryDigits (n : Nat) : List Bool :=
  (List.range (n.log2 + 1)).reverse.map n.testBit

@[specialize] def power {M : Type} [Mul M] [One M] (x : M) (n : Nat) : M :=
  (binaryDigits n).foldl (fun acc bit => if bit then acc * acc * x else acc * acc) 1

/-! ### Field elements -/

def fieldPrime : Nat :=
  0x1a0111ea397fe69a4b1ba7b6434bacd764774b84f38512bf6730d2a0f6b0f6241eabfffeb153ffffb9feffffffffaaab

instance : @NeZero Nat Zero.ofOfNat0 fieldPrime := ⟨by decide⟩

/-- An element of the base field. -/
abbrev Fp := Fin fieldPrime

instance : One Fp := ⟨Fin.ofNat fieldPrime 1⟩

instance : Mul Fp := ⟨Fin.mul⟩

namespace Fp

def ofNat (n : Nat) : Fp := Fin.ofNat fieldPrime n

/-- The inverse; zero for zero. -/
def inv (a : Fp) : Fp := power a (fieldPrime - 2)

def sqrt? (a : Fp) : Option Fp :=
  let r := power a ((fieldPrime + 1) / 4)
  if r * r = a then some r else none

/-- Whether the element lies in the upper half, so that its negative lies in the lower. -/
def isLarge (a : Fp) : Bool := a.val > (fieldPrime - 1) / 2

def toBytes (a : Fp) : Bytes := Bytes.ofNat 48 a.val

/-- Reads 48 bytes; a number from the prime on names no element. -/
def ofBytes? (bs : Bytes) : Option Fp :=
  let n := Bytes.toNat bs
  if h : n < fieldPrime then some ⟨n, h⟩ else none

end Fp

end Interchain
