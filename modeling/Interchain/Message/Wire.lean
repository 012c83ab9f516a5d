import Interchain.Bytes.Fixed
import Interchain.Message.Error

/-!
# The wire format of messages

A value is written as a version tag and then its fields: raw bytes where the length is known, 32-bit numbers, and
byte strings behind a 32-bit length that is capped. Reading is strict: it takes exactly what writing produces.

* `WireM`: steps that write or read. A step that fails keeps what was done before.
* `Wire.put`, `Wire.putWord`, `Wire.putField` and `Wire.get`, `Wire.getWord`, `Wire.getField`: single steps.
* `Wire.encode`, `Wire.decode`: a whole value, with the tag and the end of the input.
* `Wire.Item`, `Wire.Shape`: steps as data, so that scripts of any length can be written and read.
-/

namespace Interchain

/-- Steps that write at the end of a byte string or read from its front. A step that fails keeps what was done
before the failure. -/
abbrev WireM := ExceptT MessageError (StateM Bytes)

namespace Wire

/-- The one version that is understood. -/
def version : Nat := 0

def maxFieldSize : Nat := 256 * 1024

def versionTag : Bytes := Bytes.ofNat 2 version

/-! ### Writing -/

def put (bs : Bytes) : WireM Unit :=
  modify (· ++ bs)

def putWord (n : UInt32) : WireM Unit :=
  put (Bytes.ofNat 4 n.toNat)

/-- Writes the length of a string and the string. -/
def putField (bs : Bytes) : WireM Unit := do
  if bs.length > maxFieldSize then throw (.fieldTooLarge bs.length maxFieldSize)
  putWord (.ofNat bs.length)
  put bs

def encode (steps : WireM Unit) : Except MessageError Bytes :=
  let (result, written) := steps.run versionTag
  result.map fun _ => written

/-! ### Reading -/

def get (n : Nat) : WireM (FixedBytes n) := do
  let left ← getThe Bytes
  if h : left.length < n then throw (.truncated n left.length)
  else
    set (left.drop n)
    return ⟨left.take n, by simp only [List.length_take]; omega⟩

def getWord : WireM UInt32 := do
  return .ofNat (← get 4).toNat

/-- Reads a string behind its length. The length is consumed even if the string is refused. -/
def getField : WireM Bytes := do
  let n := (← getWord).toNat
  if n > maxFieldSize then throw (.fieldTooLarge n maxFieldSize)
  return (← get n).bytes

def getVersion : WireM Unit := do
  let found := (← get 2).toNat
  if found ≠ version then throw (.unsupportedVersion found)

/-- Succeeds at the end of the input. -/
def finish : WireM Unit := do
  let left ← getThe Bytes
  unless left.isEmpty do throw (.trailingBytes left.length)

def decode {α : Type} (steps : WireM α) (bs : Bytes) : Except MessageError α :=
  (StateT.run (ExceptT.run (do
    getVersion
    let value ← steps
    finish
    return value)) bs).1

/-! ### Scripts -/

/-- A value that one step writes. -/
inductive Item where
  | fixed (bs : Bytes)
  | word (n : UInt32)
  | field (bs : Bytes)
deriving DecidableEq

/-- What one step is to read. -/
inductive Shape where
  | fixed (n : Nat)
  | word
  | field
deriving DecidableEq

namespace Item

def shape : Item → Shape
  | fixed bs => .fixed bs.length
  | word _ => .word
  | field _ => .field

def write : Item → WireM Unit
  | fixed bs => put bs
  | word n => putWord n
  | field bs => putField bs

end Item

def Shape.read : Shape → WireM Item
  | fixed n => do return .fixed (← get n).bytes
  | word => return .word (← getWord)
  | field => return .field (← getField)

end Wire

end Interchain
