import Interchain.AccessList.Packing
import Interchain.ChainConfig.Schedule
import Interchain.Hash.Checksum
import Interchain.Message.Error
import Interchain.State.Basic

/-!
# Why a built-in contract fails

The causes for which a built-in contract fails, with the text of each, and the gas that the caller of a failed call
gets back.
-/

namespace Interchain

inductive PrecompileError where
  | outOfGas
  | writeProtection
  | inputTooShort (length : Nat)
  | unknownSelector (selector : Selector)
  | duplicateSelector (selector : Selector)
  | invalidInput (reason : String)
  | noVerifiedMessages
  | invalidMessageIndex (index : Word)
  | invalidPredicateData (cause : EncodingError)
  | message (cause : MessageError)
  | invalidConfig (cause : ConfigError)
  | alreadyRegistered (address : Address)
  | notRegistered (address : Address)
  | state (cause : DatabaseError)
deriving DecidableEq

/-- The bytes of a selector as numbers. -/
def Selector.describe (s : Selector) : String :=
  "[" ++ ", ".intercalate (s.bytes.map fun b => toString b.toNat) ++ "]"

def PrecompileError.text : PrecompileError → String
  | .outOfGas => "out of gas"
  | .writeProtection => "write protection"
  | .inputTooShort length => s!"input too short: {length} bytes"
  | .unknownSelector s => s!"unknown function selector: {Selector.describe s}"
  | .duplicateSelector s => s!"duplicate function selector: {Selector.describe s}"
  | .invalidInput reason => s!"invalid input data: {reason}"
  | .noVerifiedMessages => "no verified warp messages for this transaction"
  | .invalidMessageIndex index => s!"invalid message index: {index.toNat}"
  | .invalidPredicateData e => s!"invalid predicate data: {e.message}"
  | .message e => s!"warp message error: {e.message}"
  | .invalidConfig e => s!"invalid chain config: {e.message}"
  | .alreadyRegistered a => s!"precompile already registered at {a.checksummed}"
  | .notRegistered a => s!"no precompile registered at {a.checksummed}"
  | .state e => s!"state access error: {e.message}"

/-- A failed call. -/
structure CallFailure where
  error : PrecompileError
  gas : UInt64
deriving DecidableEq

namespace CallFailure

/-- Running out of gas costs all of it. -/
def outOfGas : CallFailure := ⟨.outOfGas, 0⟩

def message (f : CallFailure) : String :=
  s!"{f.error.text} (remaining gas {f.gas})"

end CallFailure

end Interchain
