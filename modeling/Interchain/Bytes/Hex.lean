import Interchain.Bytes.Fixed
import Interchain.Text.Quoted

/-!
# Hexadecimal text

Bytes are written as two lower-case digits each, and read from digits of either case. Text is taken by its UTF-8
bytes, as positions in errors count these. An odd number of digits is reported before a bad digit, and of bad digits
the first.

The marker `0x` is not part of the digits: `Hex.encode0x` puts it in front, and `Hex.dropMarker` takes at most one
off.
-/

namespace Interchain.Hex

/-- The digit for a number below sixteen. -/
def digit (n : Nat) : Char :=
  if n < 10 then Char.ofNat (48 + n) else Char.ofNat (87 + n)

def encode (bs : Bytes) : String :=
  String.ofList (bs.flatMap fun b => [digit (b.toNat / 16), digit (b.toNat % 16)])

/-- The text with the marker that contracts and addresses carry. -/
def encode0x (bs : Bytes) : String :=
  "0x" ++ encode bs

/-- The value of an ASCII hexadecimal digit. -/
def digit? (b : UInt8) : Option Nat :=
  let n := b.toNat
  if 48 ≤ n ∧ n ≤ 57 then some (n - 48)
  else if 97 ≤ n ∧ n ≤ 102 then some (n - 87)
  else if 65 ≤ n ∧ n ≤ 70 then some (n - 55)
  else none

inductive Error where
  | oddLength
  | invalidDigit (byte : UInt8) (position : Nat)
deriving DecidableEq, Repr

/-- A byte that is no digit is shown as the character of the same number. -/
def Error.message : Error → String
  | .oddLength => "Odd number of digits"
  | .invalidDigit b i => s!"Invalid character {Quoted.character (Char.ofNat b.toNat)} at position {i}"

def digitAt (b : UInt8) (i : Nat) : Except Error Nat :=
  match digit? b with
  | some d => .ok d
  | none => .error (.invalidDigit b i)

/-- Reads pairs of digits from position `i` on, putting the bytes read before them in front. -/
def decodePairs (i : Nat) (acc : Bytes) : Bytes → Except Error Bytes
  | hi :: lo :: rest => do
    let h ← digitAt hi i
    let l ← digitAt lo (i + 1)
    decodePairs (i + 2) (UInt8.ofNat (16 * h + l) :: acc) rest
  | _ => .ok acc.reverse

/-- Reads the digits of a text given by its UTF-8 bytes. -/
def decode (text : Bytes) : Except Error Bytes :=
  if text.length % 2 ≠ 0 then .error .oddLength else decodePairs 0 [] text

/-- The text without one leading marker, if it carries one. -/
def dropMarker : Bytes → Bytes
  | 48 :: 120 :: rest => rest
  | text => text

example : decode (Bytes.ofString "0aFf") = .ok [10, 255] := by rfl

end Interchain.Hex
