import Interchain.Precompile.Messenger

/-!
# Registered contracts

The built-in contracts of a chain by their addresses. A contract is registered for all times, and the schedule of
the configuration says when it is active; while it is not, a call to its address finds nothing to run.

When a new block takes up upgrades, `Registry.applyActivations` changes the state for them, one after the other and
up to the first that fails. What was done before the failure stays.
-/

namespace Interchain

abbrev Registry := Table Address Precompile

namespace Registry

def register (r : Registry) (p : Precompile) : Except PrecompileError Registry :=
  if r.contains p.address then .error (.alreadyRegistered p.address) else .ok (r.insert p.address p)

/-- A registry of these contracts, installed one after the other. -/
def ofList (ps : List Precompile) : Except PrecompileError Registry :=
  ps.foldlM register .empty

/-- The contracts that every chain has, for a valid configuration. -/
def ofConfig (scheme : SignatureScheme) (config : ChainConfig) : Except PrecompileError Registry := do
  config.validate.mapError .invalidConfig
  ofList [Messenger.precompile scheme .standard config.quorum]

/-- A short text of the registry with its addresses. -/
def describe (r : Registry) : String :=
  let addresses := ", ".intercalate (r.keys.map fun a => Hex.encode0x a.bytes)
  s!"PrecompileRegistry \x7b addresses: [{addresses}] \x7d"

/-! ### Active contracts -/

variable (r : Registry) (config : ChainConfig)

def isActive (a : Address) (t : UInt64) : Bool :=
  (r.get? a).any fun p => config.isEnabled p.key t

def active? (a : Address) (t : UInt64) : Option Precompile :=
  (r.get? a).filter fun p => config.isEnabled p.key t

/-- Runs the contract that is active at the called address; there is nothing to run otherwise. -/
def run (env : Environment) (c : Call) : Option (CallM CallOutput) :=
  (r.active? config c.address env.block.timestamp).map fun p => p.run env c

/-! ### Activations -/

/-- Applies one upgrade: a contract that is disabled loses its account, and one that is enabled gets the marker and
its configuration. -/
def applyUpgrade (block : Block) (u : Upgrade) : ConfigureM Unit := do
  match r.get? u.address with
  | none => throw (.notRegistered u.address)
  | some p =>
    if u.disabled then modify (·.clear u.address)
    else
      ExceptT.adapt .state (Overlay.markActive u.address)
      p.configure config u block

/-- Applies the upgrades that take effect after the parent block and not after this one, up to the first that
fails. -/
def applyActivations (parent : Option UInt64) (block : Block) : ConfigureM Unit :=
  (config.activations parent block.timestamp).forM (r.applyUpgrade config block)

end Registry

end Interchain
