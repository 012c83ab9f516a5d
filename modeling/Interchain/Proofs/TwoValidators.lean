import Interchain.Block.Workers

/-!
# A network of two validators

A small chain with a quorum of one third. The second of its validators has signed a message that another chain has
sent to it, and a transaction brings the message along in its access list. There are schedules for the chain, a
message between two other chains in an envelope for this one, and a call that sends a greeting.

The schemes of signatures in it know the few signatures by heart, each for its message and its keys, and accept
nothing else. So the network can be run through in the kernel, where a pairing would take too long.
-/

namespace Interchain.TwoValidators

/-! ### The network -/

def firstKey : PublicKey :=
  ⟨.ofNat 48
    0x95a254501b7733239ed3cec4d56737977bd09ede881d8a234560e83e5525017add3b1dcc3eabfb85e12a4131b19c253b⟩

def secondKey : PublicKey :=
  ⟨.ofNat 48
    0xac80a5e08c712d5f08f0306ad743f7d8c215d982489b84a1d6ba805733d94c006e8938f9089a75db3ffa135af33bc69a⟩

def validators : List Validator :=
  [⟨.replicate 20 0, some firstKey, 67⟩, ⟨.replicate 20 1, some secondKey, 33⟩]

def canonical : CanonicalSet :=
  ⟨[⟨firstKey, 67, [.replicate 20 0]⟩, ⟨secondKey, 33, [.replicate 20 1]⟩], 100⟩

/-- A node under a key of the network, or under none. -/
def nodeOf (key : Option PublicKey) (node : UInt8) (weight : UInt64) : Validator :=
  ⟨.replicate 20 node, key, weight⟩

/-- The network with a third node that has weight but no key. -/
def observed : List Validator :=
  [nodeOf (some firstKey) 0 67, nodeOf (some secondKey) 1 33, nodeOf none 2 10]

/-- The same network as another platform reports it: in another order, in smaller parts and from other nodes. -/
def rearranged : List Validator :=
  [nodeOf (some secondKey) 1 33, nodeOf none 3 4, nodeOf (some firstKey) 4 60, nodeOf none 3 6,
    nodeOf (some firstKey) 5 7]

def chain : Chain where
  chainId := .replicate 32 0xcc
  networkId := 5
  validatorsAt := ValidatorSource.ofSnapshots [(42, validators)]

def quorum : Quorum := ⟨33, 100⟩

def config : ChainConfig where
  chainId := chain.chainId
  networkId := 5
  quorum := quorum
  upgrades := [{ timestamp := 0 }]

/-- A schedule that enables the messenger, disables it and enables it again. -/
def alternating : ChainConfig :=
  { config with
    upgrades := [{ timestamp := 5 }, { timestamp := 8, disabled := true }, { timestamp := 12 }] }

/-- The same schedule with its last upgrade put off. -/
def postponed : ChainConfig :=
  { alternating with
    upgrades := [{ timestamp := 5 }, { timestamp := 8, disabled := true }, { timestamp := 20 }] }

/-- Has the same past up to 10 and another future, in no order. -/
def rescheduled : ChainConfig :=
  { alternating with
    quorum := ⟨1, 2⟩
    upgrades := [{ timestamp := 30, disabled := true }, { timestamp := 5 }, { timestamp := 11 },
      { timestamp := 8, disabled := true }] }

/-! ### The message -/

def message : Message where
  originChain := .replicate 32 0xee
  sender := .replicate 32 1
  destinationChain := chain.chainId
  recipient := .replicate 32 2
  payload := Bytes.ofString "cross-chain"

def envelope : Envelope where
  sourceChain := .replicate 32 0xee
  destinationChain := chain.chainId
  payload := message.encode.toOption.getD []

def signed : SignedEnvelope where
  envelope := envelope
  signature :=
    { signers := ⟨[2]⟩
      signature := .ofNat 96
        0x8d73c06f20be8058c372f720d42a6aac307ee9d55f8738d2cca858731171ff429f17111a54f2db9ae47936dc3b8483a517ef5f50abf75431a41544c751644235e6ad26392be0ede6cf4993cb535d9cc79c89f81f6fd58ed3481db3fd151a533a }

def wire : Bytes := signed.encode.toOption.getD []

/-- Knows the one signature that the network has made. -/
def scheme : SignatureScheme where
  read e := .ok ⟨e⟩
  verifyAggregate s m keys :=
    s.encoding = signed.signature.signature && envelope.encode.toOption = some m && keys = [secondKey]

/-! ### A message between two other chains -/

/-- Comes from another chain than its envelope, and is for another chain. -/
def foreignMessage : Message :=
  { message with originChain := .replicate 32 0xab, destinationChain := .replicate 32 0xdd }

def foreignEnvelope : Envelope :=
  { envelope with payload := foreignMessage.encode.toOption.getD [] }

/-- The envelope is for the chain of the two validators, and the second of them has signed it. -/
def foreignSigned : SignedEnvelope where
  envelope := foreignEnvelope
  signature :=
    { signers := ⟨[2]⟩
      signature := .ofNat 96
        0x88d1c07eb101123c997eabc5713a030b1c3a42f2ec57242f233b343e37f19e4e95492ea32f47ec8a88e9324ccc3593cc15be867104816020d977507ce77aad1e64638f9fcaae30100b3218f290f684cf22f92c0510ef7780a031cedd588566d9 }

def foreignWire : Bytes := foreignSigned.encode.toOption.getD []

def foreignAttachment : Bytes := Predicate.encodeList [foreignWire]

/-- Knows the one signature over this envelope. -/
def foreignScheme : SignatureScheme where
  read e := .ok ⟨e⟩
  verifyAggregate s m keys :=
    s.encoding = foreignSigned.signature.signature && foreignEnvelope.encode.toOption = some m &&
      keys = [secondKey]

/-! ### Two messages under a quorum of two thirds -/

def twoThirds : Quorum := ⟨67, 100⟩

/-- The first validator alone has signed the envelope. -/
def firstSigned : SignedEnvelope where
  envelope := envelope
  signature :=
    { signers := ⟨[1]⟩
      signature := .ofNat 96
        0x9706de74096f7346d7ddefe2af2dae567e06fd4be087c3c5b8f62da743efe6bd3d42a7e7c62d1ebafcccf145a247fc8a0bf62614e4643109c1e2e63489e52c0e98eab7741ecbbddec1d4fb5d22bbdd22606cbd1003bc487093dd0ecec3f2576b }

/-- Both validators have signed the other envelope. -/
def bothSigned : SignedEnvelope where
  envelope := foreignEnvelope
  signature :=
    { signers := ⟨[3]⟩
      signature := .ofNat 96
        0x87784d6e2c1c4874a76a2a006e31be65b78f4b0c645e7774a5317f32982db743dc6b3e70683a176936c1432e4ac8c52b05ceb7e95247e7297f58e38637b047cd24d54e372e5673e018b80dddb791ba91be638931c849422dc68d996da6633a43 }

/-- Knows these two signatures. -/
def twoThirdsScheme : SignatureScheme where
  read e := .ok ⟨e⟩
  verifyAggregate s m keys :=
    (s.encoding = firstSigned.signature.signature && envelope.encode.toOption = some m && keys = [firstKey]) ||
      (s.encoding = bothSigned.signature.signature && foreignEnvelope.encode.toOption = some m &&
        keys = [firstKey, secondKey])

/-! ### A transaction -/

def attachment : Bytes := Predicate.encodeList [wire]

def accessList : AccessList := [AccessItem.withPredicate Messenger.address attachment]

/-- An item of the messenger whose keys are no packing of a payload. -/
def malformed : AccessList := [⟨Messenger.address, [.zero]⟩]

def transactions : List AccessList := [[], malformed, accessList]

def registry : Registry :=
  Table.empty.insert Messenger.address (Messenger.precompile scheme .standard quorum)

/-- What the transaction has verified. -/
def payloads : VerifiedPayloads := Table.empty.insert Messenger.address attachment

def context : PredicateContext := chain.predicateContext (some 42)

/-! ### A call -/

def environment : Environment := ⟨⟨1, 10⟩, chain⟩

/-- Asks for the message at an index. -/
def call (i : Word) : Call where
  caller := .replicate 20 0x11
  address := Messenger.address
  input := Messenger.packGetMessage i
  gas := 200000
  readOnly := false

/-! ### A message on its way -/

/-- The chain from which messages come. -/
def origin : Environment := ⟨⟨1, 10⟩, { chain with chainId := .replicate 32 0xee }⟩

/-- Sends a greeting to the chain of the two validators. -/
def sendCall : Call where
  caller := .replicate 20 0x11
  address := Messenger.address
  input := Messenger.packSendMessage chain.chainId (.replicate 32 2) (Bytes.ofString "hello")
  gas := 200000
  readOnly := false

/-- The message that this call sends. -/
def greeting : Message where
  originChain := origin.chain.chainId
  sender := sendCall.caller.leftPad
  destinationChain := chain.chainId
  recipient := .replicate 32 2
  payload := Bytes.ofString "hello"

/-! ### States -/

/-- A state that shows nothing but what a transaction has attached for the messenger. -/
def stateWith (payload : Bytes) : Overlay where
  database := Tables.toDatabase {}
  attached := Table.empty.insert Messenger.address payload

theorem get?_attached_stateWith (payload : Bytes) :
    (stateWith payload).attached.get? Messenger.address = some payload := by
  show (Table.empty.insert Messenger.address payload).get? Messenger.address = some payload
  rw [Table.get?_insert, if_pos rfl]

end Interchain.TwoValidators
