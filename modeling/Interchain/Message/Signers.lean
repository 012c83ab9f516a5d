import Interchain.Bytes.Basic

/-!
# Sets of signers

A set of validators is written as bits: bit `i % 8` of byte `i / 8` stands for the validator at index `i`. Two
strings may have the same bits, as zero bytes at the end say nothing, so strings with such bytes are not accepted as
sets (`SignerSet.isMinimal`).
-/

namespace Interchain

structure SignerSet where
  bytes : Bytes
deriving DecidableEq

namespace SignerSet

def empty : SignerSet := ⟨[]⟩

/-- Whether the validator at index `i` belongs to the set. -/
def contains (s : SignerSet) (i : Nat) : Bool :=
  (s.bytes.getD (i / 8) 0).toNat.testBit (i % 8)

/-- Sets the bit of an index, after as many zero bytes as are missing. -/
def insert (s : SignerSet) (i : Nat) : SignerSet :=
  let bytes := s.bytes ++ List.replicate (i / 8 + 1 - s.bytes.length) 0
  ⟨bytes.modify (i / 8) (· ||| 1 <<< UInt8.ofNat (i % 8))⟩

def ofIndices (indices : List Nat) : SignerSet :=
  indices.foldl insert empty

/-- The positions of the bits of a byte that are set, in increasing order. -/
def positions (b : UInt8) : List Nat :=
  (List.range 8).filter b.toNat.testBit

def indices (s : SignerSet) : List Nat :=
  s.bytes.zipIdx.flatMap fun (b, k) => (positions b).map (8 * k + ·)

def count (s : SignerSet) : Nat :=
  (s.bytes.flatMap positions).length

def isMinimal (s : SignerSet) : Bool :=
  s.bytes.getLast? != some 0

example : (ofIndices [9, 0, 9]).bytes = [1, 2] ∧ (ofIndices [9, 0, 9]).indices = [0, 9] := by decide

end SignerSet

end Interchain
