import Interchain.AccessList.Basic
import Interchain.Precompile.Registry

/-!
# Predicates of a block

Before a block is accepted, the payload that a transaction attaches for a built-in contract must satisfy the
predicate of that contract. `BlockCheck.checkTransaction` goes through the access list of one transaction and
returns the payloads that hold, by contract; `BlockCheck.check` does so for all transactions of a block in their
order, and the first that fails decides.

An item counts only while a contract with a predicate is active at its address. All other items are passed over,
however malformed their keys are, and their addresses may be repeated.
-/

namespace Interchain

/-- Why the predicates of a transaction do not hold. -/
inductive PredicateFault where
  | duplicateAddress (address : Address)
  | invalidPacking (address : Address) (cause : EncodingError)
  | failed (address : Address) (cause : AdmissionError)
deriving DecidableEq

/-- A fault with the index of the transaction. -/
structure BlockCheckError where
  transaction : Nat
  fault : PredicateFault
deriving DecidableEq

def BlockCheckError.message (e : BlockCheckError) : String :=
  match e.fault with
  | .duplicateAddress a => s!"transaction {e.transaction} references predicate address {a.checksummed} more than once"
  | .invalidPacking a cause =>
    s!"transaction {e.transaction}: invalid predicate packing for {a.checksummed}: {cause.message}"
  | .failed a cause => s!"transaction {e.transaction}: predicate for {a.checksummed} failed: {cause.message}"

/-- The payloads of a transaction that satisfy their predicates, by the address of the contract. -/
abbrev VerifiedPayloads := Table Address Bytes

namespace BlockCheck

variable (registry : Registry) (config : ChainConfig) (ctx : PredicateContext) (timestamp : UInt64)

/-- The predicate of the contract that is active at an address. -/
def predicateAt? (a : Address) : Option (PredicateContext → Bytes → Except AdmissionError Unit) :=
  (registry.active? config a timestamp).bind (·.predicate)

/-- Adds the payload of an item to those that are verified. An item without a predicate is passed over, whatever its
keys. -/
def checkItem (verified : VerifiedPayloads) (item : AccessItem) : Except PredicateFault VerifiedPayloads :=
  match predicateAt? registry config timestamp item.address with
  | none => .ok verified
  | some predicate => do
    if verified.contains item.address then throw (.duplicateAddress item.address)
    let payload ← item.predicateBytes.mapError (.invalidPacking item.address)
    (predicate ctx payload).mapError (.failed item.address)
    return verified.insert item.address payload

def checkItems (items : AccessList) : Except PredicateFault VerifiedPayloads :=
  items.foldlM (checkItem registry config ctx timestamp) .empty

/-- Checks the transaction that has this index in its block. -/
def checkTransaction (index : Nat) (items : AccessList) : Except BlockCheckError VerifiedPayloads :=
  (checkItems registry config ctx timestamp items).mapError (⟨index, ·⟩)

def check (transactions : List AccessList) : Except BlockCheckError (List VerifiedPayloads) :=
  transactions.zipIdx.mapM fun (items, i) => checkTransaction registry config ctx timestamp i items

end BlockCheck

end Interchain
