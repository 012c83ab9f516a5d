import Interchain.Signing.Keys

/-!
# Why a message is refused

The causes for which a message is refused, from reading it to checking the weight and the signature behind it, with
the text of each.
-/

namespace Interchain

inductive MessageError where
  | truncated (needed remaining : Nat)
  | trailingBytes (count : Nat)
  | unsupportedVersion (version : Nat)
  | unknownSignatureType (type : UInt32)
  | fieldTooLarge (size max : Nat)
  | signerOutOfRange (index len : Nat)
  | nonMinimalSigners
  | noSigners
  | weightOverflow
  | zeroTotalWeight
  | insufficientWeight (signed total : UInt64) (numerator denominator : UInt64)
  | invalidSignature
  | signing (cause : SigningError)
  | validatorsUnavailable (height : UInt64)
deriving DecidableEq, Repr

def MessageError.message : MessageError → String
  | .truncated needed remaining => s!"Truncated input: needed {needed} bytes, {remaining} remaining"
  | .trailingBytes count => s!"Trailing bytes after message: {count}"
  | .unsupportedVersion version => s!"Unsupported codec version: {version}"
  | .unknownSignatureType type => s!"Unknown signature type: {type}"
  | .fieldTooLarge size max => s!"Field of {size} bytes exceeds maximum of {max}"
  | .signerOutOfRange index len => s!"Signer index {index} out of range for {len} canonical validators"
  | .nonMinimalSigners => "Signer bit set has a trailing zero byte"
  | .noSigners => "Aggregate signature has no signers"
  | .weightOverflow => "Validator weight overflow"
  | .zeroTotalWeight => "Validator set has zero total weight"
  | .insufficientWeight signed total numerator denominator =>
    s!"Insufficient weight: {signed}/{total} below quorum {numerator}/{denominator}"
  | .invalidSignature => "Invalid aggregate signature"
  | .signing cause => s!"Crypto error: {cause.message}"
  | .validatorsUnavailable height => s!"Validator set unavailable at height {height}"

end Interchain
