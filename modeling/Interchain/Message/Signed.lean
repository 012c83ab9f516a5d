import Interchain.Message.Basic
import Interchain.Signing.Signature
import Interchain.Validator.Basic

/-!
# Signed envelopes

A `MultiSignature` is a set of validators and their aggregate signature. It is verified in steps, and the first that
fails gives the error: its signers are known, there is at least one, they carry a quorum, and they have signed this
very message.

The scheme of signatures is a parameter. A `SignedEnvelope` is verified over the encoding of the envelope that was
read, not over the bytes it was read from.
-/

namespace Interchain

/-! ### Signatures of several validators -/

structure MultiSignature where
  signers : SignerSet
  signature : FixedBytes 96
deriving DecidableEq

namespace MultiSignature

/-- The tag of this kind of signature on the wire. -/
def typeTag : UInt32 := 0

def verify (scheme : SignatureScheme) (s : MultiSignature) (message : Bytes) (validators : CanonicalSet)
    (quorum : Quorum) : Except MessageError Unit := do
  let signers ← validators.members s.signers
  if signers.isEmpty then throw .noSigners
  let weight ← CanonicalSet.sumWeight signers
  quorum.checkWeight weight validators.totalWeight
  let signature ← (scheme.read s.signature).mapError .signing
  unless scheme.verifyAggregate signature message (signers.map (·.key)) do throw .invalidSignature

end MultiSignature

/-! ### Envelopes with a signature -/

structure SignedEnvelope where
  envelope : Envelope
  signature : MultiSignature
deriving DecidableEq

namespace SignedEnvelope

def encode (s : SignedEnvelope) : Except MessageError Bytes := do
  let envelope ← s.envelope.encode
  Wire.encode do
    Wire.putField envelope
    Wire.putWord MultiSignature.typeTag
    Wire.putField s.signature.signers.bytes
    Wire.put s.signature.signature.bytes

def decode (bs : Bytes) : Except MessageError SignedEnvelope :=
  bs |> Wire.decode do
    let envelope ← ExceptT.mk (pure (Envelope.decode (← Wire.getField)))
    let type ← Wire.getWord
    if type ≠ MultiSignature.typeTag then throw (.unknownSignatureType type)
    let signers ← Wire.getField
    let signature ← Wire.get 96
    return ⟨envelope, ⟨⟨signers⟩, signature⟩⟩

/-- Checks the signature over the encoded envelope. -/
def verify (scheme : SignatureScheme) (s : SignedEnvelope) (validators : CanonicalSet) (quorum : Quorum) :
    Except MessageError Unit := do
  s.signature.verify scheme (← s.envelope.encode) validators quorum

end SignedEnvelope

end Interchain
