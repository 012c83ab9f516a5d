import Interchain.Precompile.Call

/-!
# Built-in contracts

A built-in contract is part of the chain itself, at a fixed address. It has a function to run, and may have a
predicate for the transactions that name it in their access list, and something to configure when an upgrade enables
it.
-/

namespace Interchain

/-- Steps of a contract that is being configured. -/
abbrev ConfigureM := ExceptT PrecompileError (StateM Overlay)

structure Precompile where
  address : Address
  /-- The name of the contract in a schedule of upgrades. -/
  key : String
  run : Environment → Call → CallM CallOutput
  /-- The condition on the payload of a transaction that names the contract in its access list. -/
  predicate : Option (PredicateContext → Bytes → Except AdmissionError Unit) := none
  /-- Fills the state when an upgrade enables the contract. -/
  configure : ChainConfig → Upgrade → Block → ConfigureM Unit := fun _ _ _ => pure ()

end Interchain
