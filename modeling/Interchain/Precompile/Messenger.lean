import Interchain.Message.Admission
import Interchain.Precompile.Basic
import Interchain.Precompile.Dispatch

/-!
# The messenger

The built-in contract through which contracts send messages to other chains and read the messages that a transaction
has brought along.

Its three functions are at the front, then the contract with its table and its predicate. The last part is the view
of a caller: how call data is packed, and how results and logs are unpacked. No function of the contract depends on
it.
-/

namespace Interchain.Messenger

/-! ### Names -/

def getChainIdSignature : String := "getBlockchainId()"

def getMessageSignature : String := "getVerifiedWarpMessage(uint256)"

def sendMessageSignature : String := "sendWarpMessage(bytes32,bytes32,bytes)"

/-- The event of a message that is sent. -/
def sentSignature : String := "SendWarpMessage(bytes32,bytes32,bytes32,bytes)"

def sentTopic : Hash32 := keccak256 (Bytes.ofString sentSignature)

def address : Address := BuiltIn.warpMessenger.address

/-! ### Functions -/

/-- The identifier of this chain. -/
def getChainId (env : Environment) (c : Call) : CallM CallOutput :=
  if c.input.isEmpty then pure ⟨env.chain.chainId.bytes, c.gas⟩
  else .fail (.invalidInput "getBlockchainId takes no arguments") c.gas

/-- A message and whether it is verified, as a result of a call. -/
def encodeMessage (m : Message) (verified : Bool) : Bytes :=
  Abi.ofNat (2 * Abi.wordSize) ++ Abi.ofBool verified ++
    m.originChain.bytes ++ m.sender.bytes ++ m.destinationChain.bytes ++ m.recipient.bytes ++
    Abi.ofNat (5 * Abi.wordSize) ++ Abi.bytesTail m.payload

/-- The message at an index of those that the transaction has attached. The surcharge depends on how many have signed
it, and is charged before the message itself is read. -/
def getMessage (costs : GasCosts) (_ : Environment) (c : Call) : CallM CallOutput := do
  if c.input.length ≠ Abi.wordSize then
    .fail (.invalidInput s!"expected one uint256 argument, got {c.input.length} bytes") c.gas
  let index := Bytes.toNat c.input
  let attached ← CallM.ofOption ⟨.noVerifiedMessages, c.gas⟩ ((← get).attached.get? address)
  let messages ← CallM.ofExcept c.gas .invalidPredicateData (Predicate.decodeList attached)
  let encoded ← CallM.ofOption ⟨.invalidMessageIndex (.ofNat 256 index), c.gas⟩ messages[index]?
  let signed ← CallM.ofExcept c.gas .message (SignedEnvelope.decode encoded)
  let surcharge ← CallM.ofOption .outOfGas (costs.surcharge signed.signature.signers.count)
  let gas ← CallM.ofOption .outOfGas (Gas.charge c.gas surcharge)
  let m ← CallM.ofExcept gas .message (Message.decode signed.envelope.payload)
  return ⟨encodeMessage m true, gas⟩

/-- Sends a message from the caller: the state records it as a log. A payload must be short enough for the signed
envelope in which the message travels. -/
def sendMessage (env : Environment) (c : Call) : CallM CallOutput := do
  let malformed : CallFailure := ⟨.invalidInput "malformed sendWarpMessage arguments", c.gas⟩
  let destinationChain ← CallM.ofOption malformed (Abi.wordAt? c.input 0)
  let recipient ← CallM.ofOption malformed (Abi.wordAt? c.input 32)
  let payload ← CallM.ofOption malformed (Abi.bytesAt? c.input 64)
  if payload.length > Message.maxPayload then
    .fail (.message (.fieldTooLarge payload.length Message.maxPayload)) c.gas
  let m : Message :=
    { originChain := env.chain.chainId, sender := c.caller.leftPad, destinationChain, recipient, payload }
  let data ← CallM.ofExcept c.gas .message m.encode
  modify (·.addLog { address, topics := [sentTopic, m.originChain, m.destinationChain], data })
  return ⟨[], c.gas⟩

/-! ### The contract -/

def functions (costs : GasCosts) : List ContractFunction :=
  [.ofSignature getChainIdSignature costs.getChainId .view getChainId,
    .ofSignature getMessageSignature costs.getMessage .nonPayable (getMessage costs),
    .ofSignature sendMessageSignature costs.sendMessage .nonPayable sendMessage]

/-- The table of the functions, whose selectors differ. -/
def table (costs : GasCosts) : DispatchTable where
  functions := functions costs

theorem ofFunctions_functions (costs : GasCosts) :
    DispatchTable.ofFunctions (functions costs) = .ok (table costs) := by
  have h : DispatchTable.firstRepeat [] ((functions costs).map (·.selector)) = none := by
    simp only [functions, List.map_cons, List.map_nil, ContractFunction.ofSignature]
    decide +kernel
  simp only [DispatchTable.ofFunctions, h, table]

def precompile (scheme : SignatureScheme) (costs : GasCosts) (quorum : Quorum) : Precompile where
  address := address
  key := BuiltIn.warpMessenger.key
  run := (table costs).dispatch
  predicate := some (Admission.check scheme quorum)

/-! ### The view of a caller -/

def packGetChainId : Bytes := (Selector.ofSignature getChainIdSignature).bytes

def packGetMessage (index : Word) : Bytes :=
  (Selector.ofSignature getMessageSignature).bytes ++ index.toBytes

def packSendMessage (destinationChain recipient : Hash32) (payload : Bytes) : Bytes :=
  (Selector.ofSignature sendMessageSignature).bytes ++ destinationChain.bytes ++ recipient.bytes ++
    Abi.ofNat (3 * Abi.wordSize) ++ Abi.bytesTail payload

def unpackChainId (output : Bytes) : Option Hash32 :=
  FixedBytes.ofBytes? 32 output

/-- The message and the mark that it is verified, from the result of a call. -/
def unpackMessage (output : Bytes) : Option (Message × Bool) := do
  let offset ← Abi.offsetAt? output 0
  let verified := (← Abi.numberAt? output 32) = 1
  if offset.toNat > output.length then none
  let tuple := output.drop offset.toNat
  let originChain ← Abi.wordAt? tuple 0
  let sender ← Abi.wordAt? tuple 32
  let destinationChain ← Abi.wordAt? tuple 64
  let recipient ← Abi.wordAt? tuple 96
  let payload ← Abi.bytesAt? tuple 128
  return ({ originChain, sender, destinationChain, recipient, payload }, verified)

/-- The message that a log of the messenger records. -/
def unpackLog (log : Log) : Option Message :=
  if log.address = address && log.topics.head? = some sentTopic then (Message.decode log.data).toOption else none

end Interchain.Messenger
