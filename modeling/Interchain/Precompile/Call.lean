import Interchain.Message.Admission
import Interchain.Precompile.Error
import Interchain.State.Overlay

/-!
# Calls of built-in contracts

Where a call happens, what a contract is given and what it answers. `CallM` runs a contract on the state. Its
changes of the state stay even if it fails, so a contract has to leave the state alone before it is sure to succeed;
undoing a transaction is up to the caller.
-/

namespace Interchain

/-! ### Where a call happens -/

structure Block where
  number : UInt64
  timestamp : UInt64
deriving DecidableEq, Repr

structure Chain where
  chainId : Hash32
  networkId : UInt32
  validatorsAt : ValidatorSource

namespace Chain

/-- What predicates know in a block whose proposer has pinned a height. -/
def predicateContext (c : Chain) (proposerHeight : Option UInt64) : PredicateContext where
  proposerHeight := proposerHeight
  chainId := c.chainId
  networkId := c.networkId
  validatorsAt := c.validatorsAt

/-- A short text of the chain, without its validators. -/
def describe (c : Chain) : String :=
  s!"ChainContext \x7b chain_id: {Hex.encode0x c.chainId.bytes}, network_id: {c.networkId}, .. \x7d"

end Chain

structure Environment where
  block : Block
  chain : Chain

/-! ### Calls -/

structure Call where
  caller : Address
  /-- The address that is called. -/
  address : Address
  input : Bytes
  gas : UInt64
  /-- Whether the call may not change the state. -/
  readOnly : Bool
deriving DecidableEq

structure CallOutput where
  output : Bytes
  gas : UInt64
deriving DecidableEq

/-- Running a contract on the state. -/
abbrev CallM := ExceptT CallFailure (StateM Overlay)

namespace CallM

variable {α : Type}

/-- Fails with a cause and leaves gas to the caller. -/
def fail (error : PrecompileError) (gas : UInt64) : CallM α :=
  throw ⟨error, gas⟩

/-- A result, or the failure it stands for. -/
def ofExcept {ε : Type} (gas : UInt64) (cause : ε → PrecompileError) : Except ε α → CallM α
  | .ok a => pure a
  | .error e => fail (cause e) gas

/-- A value, or a failure. -/
def ofOption (failure : CallFailure) : Option α → CallM α
  | some a => pure a
  | none => throw failure

end CallM

end Interchain
