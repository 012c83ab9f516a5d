import Interchain.Curve.HashToGroup
import Interchain.Curve.Pairing
import Interchain.Signing.Keys

/-!
# Signatures

A signature is known by its 96-byte encoding. Reading one checks that it encodes a point of the curve; membership in
the subgroup is checked when it is verified or aggregated.

A signature is verified against one key, which is examined again, or against the sum of several, which is not. The
rest of the library needs only reading and verifying for several keys, and takes them as a `SignatureScheme`;
`SignatureScheme.bls` is the scheme in use. Nothing is assumed or stated about how hard it is to forge.
-/

namespace Interchain

/-- The tag that separates these signatures from other uses of the same keys. -/
def signatureDomain : Bytes :=
  Bytes.ofString "BLS_SIG_BLS12381G2_XMD:SHA-256_SSWU_RO_POP_"

structure Signature where
  encoding : FixedBytes 96
deriving DecidableEq

def SecretKey.sign (k : SecretKey) (message : Bytes) : Signature :=
  ⟨G2.encode ((hashToGroup message signatureDomain).scale k.scalar)⟩

namespace Signature

def point (s : Signature) : Except PointError G2 :=
  G2.decode s.encoding

def ofBytes (encoding : FixedBytes 96) : Except SigningError Signature :=
  match point ⟨encoding⟩ with
  | .ok _ => .ok ⟨encoding⟩
  | .error e => .error (.invalidSignature e)

theorem encoding_of_ofBytes {e : FixedBytes 96} {s : Signature} (h : ofBytes e = .ok s) :
    s.encoding = e := by
  unfold ofBytes at h
  split at h <;> cases h
  rfl

def toHex (s : Signature) : String :=
  Hex.encode s.encoding.bytes

/-- The point of a signature that may be added to others. -/
def memberPoint (s : Signature) : Except SigningError G2 := do
  let p ← s.point.mapError .aggregation
  unless p.inSubgroup do throw (.aggregation .notInSubgroup)
  return p

def aggregate : List Signature → Except SigningError Signature
  | [] => .error .emptyAggregate
  | signatures => do
    let points ← signatures.mapM memberPoint
    return ⟨G2.encode (Point.sum points)⟩

/-- Whether the signature is the message's point multiplied by the secret behind the key's point. -/
def matchesPoint (s : Signature) (message : Bytes) (key : G1) : Bool :=
  match s.point with
  | .error _ => false
  | .ok p =>
    p.inSubgroup && key ≠ .infinity &&
      pairingProductIsOne [(G1.generator.neg, p), (key, hashToGroup message signatureDomain)]

/-- Verifies against a single key, which is checked again. -/
def verify (s : Signature) (message : Bytes) (key : PublicKey) : Bool :=
  match key.validPoint with
  | .ok p => s.matchesPoint message p
  | .error _ => false

/-- Verifies against the sum of the keys; false for no keys. -/
def verifyAggregate (s : Signature) (message : Bytes) (keys : List PublicKey) : Bool :=
  match PublicKey.aggregate keys with
  | .error _ => false
  | .ok k =>
    match k.point with
    | .ok p => s.matchesPoint message p
    | .error _ => false

theorem verifyAggregate_nil (s : Signature) (message : Bytes) : s.verifyAggregate message [] = false := rfl

def describe (s : Signature) : String :=
  s!"BlsSignature \x7b bytes: \"{s.toHex}\" \x7d"

end Signature

/-! ### Schemes -/

/-- Reading signatures, and verifying one for a message against the keys of all who signed. -/
structure SignatureScheme where
  read : FixedBytes 96 → Except SigningError Signature
  verifyAggregate : Signature → Bytes → List PublicKey → Bool

def SignatureScheme.bls : SignatureScheme where
  read := Signature.ofBytes
  verifyAggregate := Signature.verifyAggregate

end Interchain
