import Interchain.ChainConfig.Basic
import Interchain.Message.Error
import Interchain.Message.Signers

/-!
# Validators

A platform keeps nodes with their weights and, for some, a key. Those that can sign are put into a canonical set,
one entry for each key, in the order of the keys, so that everybody who looks at the same height numbers them alike.

* `CanonicalSet.ofValidators`: the canonical form of a list of validators in any order. It fails only where weights do
  not add up in 64 bits; nodes without a key count in the total.
* `CanonicalSet.indexOf?`: the place of a key in that order, found by halving.
* `CanonicalSet.members`: the entries that a set of signers names.
* `Quorum.checkWeight`: whether the weight of the signers reaches a quorum, in exact numbers.
-/

namespace Interchain

abbrev NodeId := FixedBytes 20

structure Validator where
  node : NodeId
  key : Option PublicKey
  weight : UInt64
deriving DecidableEq

/-- The validators at each height of the platform that keeps them. -/
abbrev ValidatorSource := UInt64 → Except MessageError (List Validator)

/-- A table of snapshots as a source; a later snapshot replaces an earlier one of the same height. -/
def ValidatorSource.ofSnapshots (snapshots : List (UInt64 × List Validator)) : ValidatorSource := fun height =>
  match snapshots.reverse.find? (·.1 = height) with
  | some s => .ok s.2
  | none => .error (.validatorsUnavailable height)

/-! ### Weights -/

/-- A sum of weights that has to fit in 64 bits. -/
def addWeight (a b : UInt64) : Except MessageError UInt64 :=
  if a.toNat + b.toNat < UInt64.size then .ok (a + b) else .error .weightOverflow

theorem addWeight_eq_ok_iff {a b c : UInt64} :
    addWeight a b = .ok c ↔ a.toNat + b.toNat = c.toNat := by
  unfold addWeight
  have hc := c.toNat_lt
  split
  · next h =>
    rw [Except.ok.injEq, ← UInt64.toNat_inj, UInt64.toNat_add, Nat.mod_eq_of_lt h]
  · next h => exact ⟨nofun, fun e => absurd (e ▸ hc) h⟩

namespace Quorum

/-- Checks that `signed / total` is at least the quorum, in exact arithmetic. -/
def checkWeight (q : Quorum) (signed total : UInt64) : Except MessageError Unit :=
  if total = 0 then .error .zeroTotalWeight
  else if signed.toNat * q.denominator.toNat < total.toNat * q.numerator.toNat then
    .error (.insufficientWeight signed total q.numerator q.denominator)
  else .ok ()

end Quorum

/-! ### Canonical sets -/

/-- All validators that share a key. -/
structure CanonicalValidator where
  key : PublicKey
  weight : UInt64
  nodes : List NodeId
deriving DecidableEq

structure CanonicalSet where
  /-- In the strict order of their keys. -/
  validators : List CanonicalValidator
  /-- The weight of all validators, also of those without a key. -/
  totalWeight : UInt64
deriving DecidableEq

namespace CanonicalSet

def empty : CanonicalSet := ⟨[], 0⟩

/-- Adds a node to the entry of its key, or makes an entry in the place of the key. -/
def enroll (node : NodeId) (key : PublicKey) (weight : UInt64) :
    List CanonicalValidator → Except MessageError (List CanonicalValidator)
  | [] => .ok [⟨key, weight, [node]⟩]
  | v :: vs =>
    if key < v.key then .ok (⟨key, weight, [node]⟩ :: v :: vs)
    else if key = v.key then do
      let sum ← addWeight v.weight weight
      return ⟨key, sum, v.nodes ++ [node]⟩ :: vs
    else do
      return v :: (← enroll node key weight vs)

def register (s : CanonicalSet) (v : Validator) : Except MessageError CanonicalSet := do
  let totalWeight ← addWeight s.totalWeight v.weight
  match v.key with
  | none => return { s with totalWeight }
  | some key => return { validators := ← enroll v.node key v.weight s.validators, totalWeight }

def ofValidators (vs : List Validator) : Except MessageError CanonicalSet :=
  vs.foldlM register empty

/-- The canonical set at a height. -/
def atHeight (source : ValidatorSource) (height : UInt64) : Except MessageError CanonicalSet := do
  ofValidators (← source height)

/-- Where a search for a key comes to an end that halves the `size` entries from `base` on until one is left. The half
behind the middle is dropped if the entry in the middle is beyond the key, else the half in front of it. -/
def search (vs : List CanonicalValidator) (key : PublicKey) (base size : Nat) : Nat :=
  if 1 < size then
    if vs[base + size / 2]?.any (key < ·.key) then search vs key base (size - size / 2)
    else search vs key (base + size / 2) (size - size / 2)
  else base
termination_by size

/-- The index of a key, if there is an entry of it. -/
def indexOf? (s : CanonicalSet) (key : PublicKey) : Option Nat :=
  let i := search s.validators key 0 s.validators.length
  if s.validators[i]?.any (·.key = key) then some i else none

/-- The entry at an index that a signer set names. -/
def member (s : CanonicalSet) (i : Nat) : Except MessageError CanonicalValidator :=
  match s.validators[i]? with
  | some v => .ok v
  | none => .error (.signerOutOfRange i s.validators.length)

/-- The entries that a signer set names, in canonical order. -/
def members (s : CanonicalSet) (signers : SignerSet) : Except MessageError (List CanonicalValidator) :=
  if signers.isMinimal then signers.indices.mapM s.member else .error .nonMinimalSigners

/-- The weight of some entries together. -/
def sumWeight (vs : List CanonicalValidator) : Except MessageError UInt64 :=
  vs.foldlM (fun sum v => addWeight sum v.weight) 0

end CanonicalSet

end Interchain
