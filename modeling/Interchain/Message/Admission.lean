import Interchain.AccessList.Packing
import Interchain.Message.Signed

/-!
# Admission of messages

A transaction that brings messages from other chains is admitted if every one of them is for this chain and signed
by a quorum of the validators at the height that the proposer of the block has pinned. `Admission.check` is this
check of the payload that a transaction attaches.

Only envelopes are looked at; the message inside may be anything. An empty payload brings no messages and is
admitted, except in a block without a proposer, where no payload is.
-/

namespace Interchain

structure PredicateContext where
  /-- The height that pins the validators; absent for a block without a proposer. -/
  proposerHeight : Option UInt64
  chainId : Hash32
  networkId : UInt32
  validatorsAt : ValidatorSource

/-- A short text of the context, without its validators. -/
def PredicateContext.describe (ctx : PredicateContext) : String :=
  let proposer :=
    match ctx.proposerHeight with
    | none => "None"
    | some h => s!"Some(ProposerContext \x7b p_chain_height: {h} \x7d)"
  s!"PredicateContext \x7b proposer: {proposer}, chain_id: {Hex.encode0x ctx.chainId.bytes}, " ++
    s!"network_id: {ctx.networkId}, .. \x7d"

/-- Why a transaction is not admitted. -/
inductive AdmissionError where
  | missingProposer
  | invalidSlots (cause : EncodingError)
  | wrongDestination (index : Nat) (expected actual : Hash32)
  | invalidMessage (index : Nat) (cause : MessageError)
  | validators (cause : MessageError)
deriving DecidableEq

def AdmissionError.message : AdmissionError → String
  | .missingProposer => "Missing proposer block context"
  | .invalidSlots e => s!"Invalid storage slots: {e.message}"
  | .wrongDestination i expected actual =>
    s!"Message {i} is for chain {Hex.encode0x actual.bytes}, expected {Hex.encode0x expected.bytes}"
  | .invalidMessage i e => s!"Message {i} failed verification: {e.message}"
  | .validators e => s!"Validator set error: {e.message}"

namespace Admission

variable (scheme : SignatureScheme) (quorum : Quorum) (ctx : PredicateContext)

/-- Checks the message at index `i` of the payload. -/
def checkMessage (validators : CanonicalSet) (i : Nat) (bs : Bytes) : Except AdmissionError Unit := do
  let signed ← (SignedEnvelope.decode bs).mapError (.invalidMessage i)
  let destination := signed.envelope.destinationChain
  if destination ≠ ctx.chainId then throw (.wrongDestination i ctx.chainId destination)
  (signed.verify scheme validators quorum).mapError (.invalidMessage i)

/-- Checks all messages of a payload, in their order. The validators are looked up only if there is a message. -/
def check (payload : Bytes) : Except AdmissionError Unit := do
  match ctx.proposerHeight with
  | none => throw .missingProposer
  | some height =>
    if payload.isEmpty then return
    let messages ← (Predicate.decodeList payload).mapError .invalidSlots
    if messages.isEmpty then return
    let validators ← (CanonicalSet.atHeight ctx.validatorsAt height).mapError .validators
    messages.zipIdx.forM fun (bs, i) => checkMessage scheme quorum ctx validators i bs

end Admission

end Interchain
