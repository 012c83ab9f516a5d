import Interchain.Bytes.Hex
import Interchain.Curve.Group
import Interchain.Hash.Sha256

/-!
# Secret and public keys

A public key is known by its 48-byte encoding: keys are compared and ordered by it, and the point it stands for is
decoded when needed. An aggregate of keys may be infinity, which a single key may not.

* `SecretKey`: a scalar between zero and the order of the group; the type leaves out all others.
* `SecretKey.ofSeed`, `SecretKey.ofBytes`: the two ways to a secret scalar. The first tries salt after salt, 256 at
  most.
* `PublicKey.ofBytes`, `PublicKey.ofHex`: reading a key with all checks.
* `PublicKey.aggregate`: the sum of keys, which are taken to have been checked.
-/

namespace Interchain

inductive SigningError where
  | keyGeneration
  | invalidSecretKey (cause : PointError)
  | invalidPublicKey (cause : PointError)
  | invalidSignature (cause : PointError)
  | emptyAggregate
  | aggregation (cause : PointError)
  | invalidLength (expected actual : Nat)
  | invalidHex (cause : Hex.Error)
deriving DecidableEq, Repr

def SigningError.message : SigningError → String
  | .keyGeneration => "invalid private key: key generation failed"
  | .invalidSecretKey e => s!"invalid private key: {e.message}"
  | .invalidPublicKey e => s!"invalid public key: {e.message}"
  | .invalidSignature e => s!"invalid signature: {e.message}"
  | .emptyAggregate => "BLS operation failed: cannot aggregate empty list"
  | .aggregation e => s!"BLS operation failed: aggregation failed: {e.message}"
  | .invalidLength expected actual => s!"invalid input length: expected {expected}, got {actual}"
  | .invalidHex e => s!"hex decoding error: {e.message}"

/-! ### Public keys -/

structure PublicKey where
  encoding : FixedBytes 48
deriving DecidableEq

namespace PublicKey

instance : LT PublicKey where
  lt k l := k.encoding < l.encoding

instance (k l : PublicKey) : Decidable (k < l) :=
  inferInstanceAs (Decidable (k.encoding < l.encoding))

def point (k : PublicKey) : Except PointError G1 :=
  G1.decode k.encoding

/-- The point of a key that may stand alone: in the subgroup and not infinity. -/
def validPoint (k : PublicKey) : Except PointError G1 := do
  let p ← k.point
  if p = .infinity then throw .isInfinity
  unless p.inSubgroup do throw .notInSubgroup
  return p

def ofBytes (encoding : FixedBytes 48) : Except SigningError PublicKey :=
  match validPoint ⟨encoding⟩ with
  | .ok _ => .ok ⟨encoding⟩
  | .error e => .error (.invalidPublicKey e)

theorem ofBytes_eq_ok_iff {e : FixedBytes 48} {k : PublicKey} :
    ofBytes e = .ok k ↔ k.encoding = e ∧ ∃ p, k.validPoint = .ok p := by
  obtain ⟨d⟩ := k
  unfold ofBytes
  constructor
  · intro h
    split at h
    · next p hp => cases h; exact ⟨rfl, p, hp⟩
    · cases h
  · rintro ⟨rfl, p, hp⟩
    simp only [hp]

def ofSlice (bs : Bytes) : Except SigningError PublicKey :=
  match FixedBytes.ofBytes? 48 bs with
  | some e => ofBytes e
  | none => .error (.invalidLength 48 bs.length)

def ofHex (text : String) : Except SigningError PublicKey :=
  match Hex.decode (Hex.dropMarker (Bytes.ofString text)) with
  | .ok bs => ofSlice bs
  | .error e => .error (.invalidHex e)

def toHex (k : PublicKey) : String :=
  Hex.encode k.encoding.bytes

/-- The sum of the points of the keys; the members are not checked again. -/
def aggregate : List PublicKey → Except SigningError PublicKey
  | [] => .error .emptyAggregate
  | keys => .ok ⟨G1.encode (Point.sum (keys.filterMap fun k => k.point.toOption))⟩

theorem aggregate_nil : aggregate [] = .error .emptyAggregate := rfl

theorem aggregate_isOk {keys : List PublicKey} (h : keys ≠ []) : ∃ k, aggregate keys = .ok k := by
  cases keys with
  | nil => contradiction
  | cons k ks => exact ⟨_, rfl⟩

def describe (k : PublicKey) : String :=
  s!"BlsPublicKey \x7b bytes: \"{k.toHex}\" \x7d"

end PublicKey

/-! ### Secret keys -/

structure SecretKey where
  scalar : Nat
  pos : 0 < scalar
  lt_order : scalar < groupOrder
deriving DecidableEq

namespace SecretKey

def ofScalar? (n : Nat) : Option SecretKey :=
  if h : 0 < n ∧ n < groupOrder then some ⟨n, h.1, h.2⟩ else none

theorem ofScalar?_eq_some_iff {n : Nat} {k : SecretKey} : ofScalar? n = some k ↔ k.scalar = n := by
  obtain ⟨s, hs, ho⟩ := k
  unfold ofScalar?
  split
  · next h => simp only [Option.some.injEq, mk.injEq, eq_comm]
  · next h => exact ⟨nofun, fun e => absurd ⟨e ▸ hs, e ▸ ho⟩ h⟩

/-- Derives a scalar from the material under a salt, with the hash of the salt as the next salt while the scalar
is zero. -/
def derive (material : Bytes) : Nat → Bytes → Except SigningError SecretKey
  | 0, _ => .error .keyGeneration
  | tries + 1, salt =>
    let okm := Hkdf.expand (Hkdf.extract salt (material ++ [0])) [0, 48] 48
    match ofScalar? (Bytes.toNat okm % groupOrder) with
    | some k => .ok k
    | none => derive material tries (sha256 salt)

/-- The key of at least 32 bytes of secret material. -/
def ofSeed (material : Bytes) : Except SigningError SecretKey :=
  if material.length < 32 then .error (.invalidLength 32 material.length)
  else derive material 256 (sha256 (Bytes.ofString "BLS-SIG-KEYGEN-SALT-"))

def ofBytes (bs : FixedBytes 32) : Except SigningError SecretKey :=
  match ofScalar? bs.toNat with
  | some k => .ok k
  | none => .error (.invalidSecretKey .badEncoding)

def toBytes (k : SecretKey) : FixedBytes 32 :=
  .ofNat 32 k.scalar

theorem ofBytes_toBytes (k : SecretKey) : ofBytes k.toBytes = .ok k := by
  have h : k.scalar < 256 ^ 32 := Nat.lt_trans k.lt_order (by decide)
  rw [ofBytes, toBytes, FixedBytes.toNat_ofNat h, ofScalar?_eq_some_iff.2 rfl]

def publicKey (k : SecretKey) : PublicKey :=
  ⟨G1.encode (G1.generator.scale k.scalar)⟩

def describe (k : SecretKey) : String :=
  s!"BlsPrivateKey \x7b public_key: \"{k.publicKey.toHex}\" \x7d"

end SecretKey

end Interchain
