import Interchain.Hash.Keccak
import Interchain.Message.Wire

/-!
# Messages and envelopes

A `Message` is what a contract of one chain says to a contract of another. It travels as the payload of an
`Envelope`, which is what validators sign, and which is known by the hash of its written form.

Both are written by the steps of the wire format, and both name a source and a destination. Nothing here asks the
two pairs to be the same. `Message.maxPayload` is the longest payload that fits into an envelope that fits into a
signed one.
-/

namespace Interchain

/-! ### Messages -/

structure Message where
  originChain : Hash32
  /-- The sending account, in its 32-byte form. -/
  sender : Hash32
  destinationChain : Hash32
  recipient : Hash32
  payload : Bytes
deriving DecidableEq

namespace Message

def encode (m : Message) : Except MessageError Bytes :=
  Wire.encode do
    Wire.put m.originChain.bytes
    Wire.put m.sender.bytes
    Wire.put m.destinationChain.bytes
    Wire.put m.recipient.bytes
    Wire.putField m.payload

def decode (bs : Bytes) : Except MessageError Message :=
  bs |> Wire.decode do
    let originChain ← Wire.get 32
    let sender ← Wire.get 32
    let destinationChain ← Wire.get 32
    let recipient ← Wire.get 32
    let payload ← Wire.getField
    return { originChain, sender, destinationChain, recipient, payload }

/-- The bytes of an encoded message that are not payload. -/
def overhead : Nat := 2 + 4 * 32 + 4

end Message

/-! ### Envelopes -/

structure Envelope where
  sourceChain : Hash32
  destinationChain : Hash32
  /-- The encoded message. -/
  payload : Bytes
deriving DecidableEq

namespace Envelope

def encode (e : Envelope) : Except MessageError Bytes :=
  Wire.encode do
    Wire.put e.sourceChain.bytes
    Wire.put e.destinationChain.bytes
    Wire.putField e.payload

def decode (bs : Bytes) : Except MessageError Envelope :=
  bs |> Wire.decode do
    let sourceChain ← Wire.get 32
    let destinationChain ← Wire.get 32
    let payload ← Wire.getField
    return { sourceChain, destinationChain, payload }

/-- The hash of the signed bytes. -/
def id (e : Envelope) : Except MessageError Hash32 :=
  e.encode.map keccak256

/-- The bytes of an encoded envelope that are not payload. -/
def overhead : Nat := 2 + 2 * 32 + 4

end Envelope

def Message.maxPayload : Nat :=
  Wire.maxFieldSize - Envelope.overhead - Message.overhead

end Interchain
