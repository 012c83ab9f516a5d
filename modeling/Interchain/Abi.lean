import Interchain.Bytes.Fixed

/-!
# Call data

Arguments of contract calls and their results are written in words of 32 bytes. A byte string stands at the end: its
own word holds the offset of its length, and the bytes follow the length, filled up to whole words.

The offsets in call data come from whoever makes the call. So a reader adds them with a check that the sum fits in
64 bits, and answers `none` where a place lies outside the data. The filling is written but not looked at when
reading. There are words, numbers, truth values and byte strings; arrays and tuples are not needed here.
-/

namespace Interchain.Abi

def wordSize : Nat := 32

/-! ### Reading -/

/-- A sum that fits in 64 bits. -/
def addOffset? (a b : UInt64) : Option UInt64 :=
  if a.toNat + b.toNat < UInt64.size then some (a + b) else none

theorem addOffset?_eq_some_iff {a b c : UInt64} :
    addOffset? a b = some c ↔ a.toNat + b.toNat = c.toNat := by
  unfold addOffset?
  have hc := c.toNat_lt
  split
  · next h =>
    rw [Option.some.injEq, ← UInt64.toNat_inj, UInt64.toNat_add, Nat.mod_eq_of_lt h]
  · next h => exact ⟨nofun, fun e => absurd (e ▸ hc) h⟩

/-- The bytes from `start` up to `stop`, where both lie within the data. -/
def slice? (data : Bytes) (start stop : UInt64) : Option Bytes :=
  if start ≤ stop ∧ stop.toNat ≤ data.length then some ((data.take stop.toNat).drop start.toNat) else none

def selector? (data : Bytes) : Option Selector :=
  FixedBytes.ofBytes? 4 (data.take 4)

def wordAt? (data : Bytes) (offset : UInt64) : Option Hash32 := do
  let stop ← addOffset? offset 32
  FixedBytes.ofBytes? 32 (← slice? data offset stop)

def numberAt? (data : Bytes) (offset : UInt64) : Option Word :=
  (wordAt? data offset).map Hash32.toWord

/-- A word that is small enough for an offset or a length. -/
def offsetAt? (data : Bytes) (offset : UInt64) : Option UInt64 := do
  let n := (← numberAt? data offset).toNat
  if n < UInt64.size then return .ofNat n else none

/-- The byte string whose own word stands at the offset. -/
def bytesAt? (data : Bytes) (offset : UInt64) : Option Bytes := do
  let head ← offsetAt? data offset
  let length ← offsetAt? data head
  let start ← addOffset? head 32
  slice? data start (← addOffset? start length)

/-! ### Writing -/

/-- The length of `n` bytes that are filled up to whole words. -/
def paddedLength (n : Nat) : Nat :=
  (n + 31) / wordSize * wordSize

def ofNat (n : Nat) : Bytes :=
  Bytes.ofNat wordSize n

def ofBool (b : Bool) : Bytes :=
  ofNat b.toNat

/-- A byte string at the end of the data: its length, its bytes and the filling. -/
def bytesTail (bs : Bytes) : Bytes :=
  ofNat bs.length ++ bs ++ List.replicate (paddedLength bs.length - bs.length) 0

end Interchain.Abi
