import Interchain.Message.Signed
import Interchain.Proofs.Message.Wire
import Interchain.Proofs.TwoValidators
import Mathlib.Control.Monad.Basic

/-!
# The written form of messages

A message, an envelope and a signed envelope have one written form each (`Message.wire`, `Envelope.wire`,
`SignedEnvelope.wire`), and writing and reading go by it: what is read is exactly what is written, and a value is
not written only if one of its fields is too large, in which case the first such field is named.

So the bytes over which a signature is verified, though they are written anew, are the field that was read
(`SignedEnvelope.signed_bytes_of_decode`). In a signed envelope the sizes are those of the payload, of the envelope
around it and of the bits of the signers, in the order in which they are checked.
-/

namespace Interchain

variable {bs : Bytes}

/-! ### Messages -/

namespace Message

variable {m : Message}

def wire (m : Message) : Bytes :=
  Wire.versionTag ++ m.originChain.bytes ++ m.sender.bytes ++ m.destinationChain.bytes ++
    m.recipient.bytes ++ Wire.field m.payload

def fieldSizes (m : Message) : List Nat := [m.payload.length]

theorem length_wire (m : Message) : m.wire.length = overhead + m.payload.length := by
  simp only [wire, List.length_append, FixedBytes.length_bytes, Wire.length_field, Wire.versionTag,
    Bytes.length_ofNat, overhead]
  omega

theorem encode_eq_checked (m : Message) : m.encode = Wire.checked m.fieldSizes m.wire := by
  rw [fieldSizes, Wire.checked_cons, Wire.checked_nil]
  unfold encode Wire.encode
  simp only [Steps.run_bind, Wire.run_put, Wire.run_putField]
  by_cases h : Wire.maxFieldSize < m.payload.length
  · simp only [h, if_true]
    rfl
  · simp only [h, if_false]
    rfl

theorem decode_eq_ok_iff :
    decode bs = .ok m ↔ (∀ n ∈ m.fieldSizes, n ≤ Wire.maxFieldSize) ∧ bs = m.wire := by
  unfold decode
  rw [Wire.decode_eq_ok_iff, fieldSizes, List.forall_mem_singleton]
  simp only [Steps.run_bind_eq_ok_iff, Wire.run_get_eq_ok_iff, Wire.run_getField_eq_ok_iff,
    Steps.run_pure_eq_ok_iff]
  constructor
  · intro ⟨_, hbs, a, _, ha, b, _, hb, c, _, hc, d, _, hd, p, _, ⟨hle, hp⟩, hm, hend⟩
    subst hbs ha hb hc hd hp hm hend
    refine ⟨hle, ?_⟩
    simp only [wire, List.append_assoc, List.append_nil]
  · intro ⟨hle, hbs⟩
    refine ⟨_, ?_, m.originChain, _, rfl, m.sender, _, rfl, m.destinationChain, _, rfl, m.recipient, _, rfl,
      m.payload, [], ⟨hle, rfl⟩, rfl, rfl⟩
    rw [hbs]
    simp only [wire, List.append_assoc, List.append_nil]

theorem lawful : Wire.Lawful encode decode fieldSizes :=
  .of_form encode_eq_checked fun _ _ => decode_eq_ok_iff

end Message

/-! ### Envelopes -/

namespace Envelope

variable {e : Envelope}

def wire (e : Envelope) : Bytes :=
  Wire.versionTag ++ e.sourceChain.bytes ++ e.destinationChain.bytes ++ Wire.field e.payload

def fieldSizes (e : Envelope) : List Nat := [e.payload.length]

theorem length_wire (e : Envelope) : e.wire.length = overhead + e.payload.length := by
  simp only [wire, List.length_append, FixedBytes.length_bytes, Wire.length_field, Wire.versionTag,
    Bytes.length_ofNat, overhead]
  omega

theorem encode_eq_checked (e : Envelope) : e.encode = Wire.checked e.fieldSizes e.wire := by
  rw [fieldSizes, Wire.checked_cons, Wire.checked_nil]
  unfold encode Wire.encode
  simp only [Steps.run_bind, Wire.run_put, Wire.run_putField]
  by_cases h : Wire.maxFieldSize < e.payload.length
  · simp only [h, if_true]
    rfl
  · simp only [h, if_false]
    rfl

theorem decode_eq_ok_iff :
    decode bs = .ok e ↔ (∀ n ∈ e.fieldSizes, n ≤ Wire.maxFieldSize) ∧ bs = e.wire := by
  unfold decode
  rw [Wire.decode_eq_ok_iff, fieldSizes, List.forall_mem_singleton]
  simp only [Steps.run_bind_eq_ok_iff, Wire.run_get_eq_ok_iff, Wire.run_getField_eq_ok_iff,
    Steps.run_pure_eq_ok_iff]
  constructor
  · intro ⟨_, hbs, a, _, ha, b, _, hb, p, _, ⟨hle, hp⟩, he, hend⟩
    subst hbs ha hb hp he hend
    refine ⟨hle, ?_⟩
    simp only [wire, List.append_assoc, List.append_nil]
  · intro ⟨hle, hbs⟩
    refine ⟨_, ?_, e.sourceChain, _, rfl, e.destinationChain, _, rfl, e.payload, [], ⟨hle, rfl⟩, rfl, rfl⟩
    rw [hbs]
    simp only [wire, List.append_assoc, List.append_nil]

theorem lawful : Wire.Lawful encode decode fieldSizes :=
  .of_form encode_eq_checked fun _ _ => decode_eq_ok_iff

end Envelope

/-! ### Signed envelopes -/

namespace SignedEnvelope

variable {s : SignedEnvelope}

def wire (s : SignedEnvelope) : Bytes :=
  Wire.versionTag ++ Wire.field s.envelope.wire ++ Bytes.ofNat 4 MultiSignature.typeTag.toNat ++
    Wire.field s.signature.signers.bytes ++ s.signature.signature.bytes

/-- The sizes of the payload, of the encoded envelope around it, and of the signers. -/
def fieldSizes (s : SignedEnvelope) : List Nat :=
  [s.envelope.payload.length, Envelope.overhead + s.envelope.payload.length,
    s.signature.signers.bytes.length]

theorem encode_eq_checked (s : SignedEnvelope) : s.encode = Wire.checked s.fieldSizes s.wire := by
  unfold encode
  rw [s.envelope.encode_eq_checked, Envelope.fieldSizes, fieldSizes, ← s.envelope.length_wire]
  simp only [Wire.checked_cons, Wire.checked_nil]
  by_cases hp : Wire.maxFieldSize < s.envelope.payload.length
  · rw [if_pos hp, if_pos hp]
    rfl
  · rw [if_neg hp, if_neg hp, Steps.ok_bind]
    unfold Wire.encode
    simp only [Steps.run_bind, Wire.run_put, Wire.run_putWord, Wire.run_putField]
    by_cases he : Wire.maxFieldSize < s.envelope.wire.length
    · simp only [he, if_true]
      rfl
    · by_cases hs : Wire.maxFieldSize < s.signature.signers.bytes.length
      · simp only [he, hs, if_true, if_false]
        rfl
      · simp only [he, hs, if_false]
        rfl

/-- The encoded envelope and the signers must fit into their fields. A payload that is too large on its own makes the
envelope too large. -/
theorem encode_eq_ok_iff :
    s.encode = .ok bs ↔ (Envelope.overhead + s.envelope.payload.length ≤ Wire.maxFieldSize ∧
      s.signature.signers.bytes.length ≤ Wire.maxFieldSize) ∧ s.wire = bs := by
  rw [encode_eq_checked, Wire.checked_eq_ok_iff, fieldSizes, List.forall_mem_cons, List.forall_mem_cons,
    List.forall_mem_singleton]
  refine and_congr_left fun _ => ⟨And.right, fun h => ⟨?_, h⟩⟩
  exact Nat.le_trans (Nat.le_add_left _ _) h.1

/-- A result in the midst of the steps, which takes nothing from the input. -/
theorem run_mk_eq_ok_iff {α : Type} {r : Except MessageError α} {a : α} {rest : Bytes} :
    (ExceptT.mk (pure r) : WireM α).run bs = (.ok a, rest) ↔ r = .ok a ∧ bs = rest := by
  show ((r, bs) : Except MessageError α × Bytes) = (.ok a, rest) ↔ _
  rw [Prod.mk.injEq]

theorem decode_eq_ok_iff :
    decode bs = .ok s ↔ (∀ n ∈ s.fieldSizes, n ≤ Wire.maxFieldSize) ∧ bs = s.wire := by
  have hsizes : (∀ n ∈ s.fieldSizes, n ≤ Wire.maxFieldSize) ↔
      s.envelope.payload.length ≤ Wire.maxFieldSize ∧ s.envelope.wire.length ≤ Wire.maxFieldSize ∧
        s.signature.signers.bytes.length ≤ Wire.maxFieldSize := by
    rw [fieldSizes, ← s.envelope.length_wire, List.forall_mem_cons, List.forall_mem_cons,
      List.forall_mem_singleton]
  rw [hsizes]
  unfold decode
  rw [Wire.decode_eq_ok_iff]
  constructor
  · intro ⟨body, hbs, h⟩
    obtain ⟨encoded, rest, hfield, h⟩ := Steps.run_bind_eq_ok_iff.1 h
    obtain ⟨hencoded, hrest⟩ := Wire.run_getField_eq_ok_iff.1 hfield
    obtain ⟨envelope, rest', henvelope, h⟩ := Steps.run_bind_eq_ok_iff.1 h
    obtain ⟨hdecode, rfl⟩ := run_mk_eq_ok_iff.1 henvelope
    obtain ⟨hpayload, hform⟩ := Envelope.decode_eq_ok_iff.1 hdecode
    obtain ⟨type, tail, htype, h⟩ := Steps.run_bind_eq_ok_iff.1 h
    have hword := Wire.run_getWord_eq_ok_iff.1 htype
    obtain ⟨htag, h⟩ := Steps.run_guard_eq_ok_iff.1 h
    obtain ⟨signers, tail', hfield', h⟩ := Steps.run_bind_eq_ok_iff.1 h
    obtain ⟨hsigners, htail⟩ := Wire.run_getField_eq_ok_iff.1 hfield'
    obtain ⟨signature, left, hsignature, h⟩ := Steps.run_bind_eq_ok_iff.1 h
    obtain ⟨rfl, rfl⟩ := Steps.run_pure_eq_ok_iff.1 h
    refine ⟨⟨hpayload _ (List.mem_singleton_self _), hform ▸ hencoded, hsigners⟩, ?_⟩
    rw [hbs, hrest, hform, hword, Decidable.not_not.1 htag, htail,
      Wire.run_get_eq_ok_iff.1 hsignature]
    simp only [wire, List.append_assoc, List.append_nil]
  · intro ⟨⟨hpayload, hencoded, hsigners⟩, hbs⟩
    have hdecode : Envelope.decode s.envelope.wire = .ok s.envelope :=
      Envelope.decode_eq_ok_iff.2 ⟨List.forall_mem_singleton.2 hpayload, rfl⟩
    refine ⟨Wire.field s.envelope.wire ++ (Bytes.ofNat 4 MultiSignature.typeTag.toNat ++
      (Wire.field s.signature.signers.bytes ++ (s.signature.signature.bytes ++ []))), ?_, ?_⟩
    · rw [hbs]
      simp only [wire, List.append_assoc, List.append_nil]
    · refine Steps.run_bind_eq_ok_iff.2 ⟨_, _, Wire.run_getField_eq_ok_iff.2 ⟨hencoded, rfl⟩, ?_⟩
      refine Steps.run_bind_eq_ok_iff.2 ⟨_, _, run_mk_eq_ok_iff.2 ⟨hdecode, rfl⟩, ?_⟩
      refine Steps.run_bind_eq_ok_iff.2 ⟨_, _, Wire.run_getWord_eq_ok_iff.2 rfl, ?_⟩
      refine Steps.run_guard_eq_ok_iff.2 ⟨not_not_intro rfl, ?_⟩
      refine Steps.run_bind_eq_ok_iff.2 ⟨_, _, Wire.run_getField_eq_ok_iff.2 ⟨hsigners, rfl⟩, ?_⟩
      exact Steps.run_bind_eq_ok_iff.2 ⟨_, _, Wire.run_get_eq_ok_iff.2 rfl, rfl⟩

theorem lawful : Wire.Lawful encode decode fieldSizes :=
  .of_form encode_eq_checked fun _ _ => decode_eq_ok_iff

/-- The bytes that the validators sign are the first field of the signed envelope, and they are what is verified. -/
theorem signed_bytes_of_decode (h : decode bs = .ok s) :
    s.envelope.encode = .ok s.envelope.wire ∧
      (∃ rest, bs = Wire.versionTag ++ Wire.field s.envelope.wire ++ rest) ∧
      ∀ scheme validators quorum, s.verify scheme validators quorum =
        s.signature.verify scheme s.envelope.wire validators quorum := by
  obtain ⟨hsizes, hbs⟩ := decode_eq_ok_iff.1 h
  have hencode : s.envelope.encode = .ok s.envelope.wire := by
    rw [Envelope.encode_eq_checked, Wire.checked_eq_ok_iff]
    exact ⟨List.forall_mem_singleton.2 (hsizes _ List.mem_cons_self), rfl⟩
  refine ⟨hencode, ⟨Bytes.ofNat 4 MultiSignature.typeTag.toNat ++
    Wire.field s.signature.signers.bytes ++ s.signature.signature.bytes, ?_⟩, ?_⟩
  · rw [hbs]
    simp only [wire, List.append_assoc]
  · intro scheme validators quorum
    rw [verify, hencode, Steps.ok_bind]

end SignedEnvelope

/-! ### All three -/

/-- Messages, envelopes and signed envelopes are read exactly from what is written for them, and are written unless a
field is too large. So the bytes over which a signature is verified are the very field that has been read. -/
theorem wireFormats_lawful :
    Wire.Lawful Message.encode Message.decode Message.fieldSizes ∧
    Wire.Lawful Envelope.encode Envelope.decode Envelope.fieldSizes ∧
    Wire.Lawful SignedEnvelope.encode SignedEnvelope.decode SignedEnvelope.fieldSizes ∧
    (∀ (e : Envelope) signed, e.encode = .ok signed →
      signed.length = Envelope.overhead + e.payload.length) ∧
    ∀ bs (s : SignedEnvelope), SignedEnvelope.decode bs = .ok s → ∃ signed rest,
      s.envelope.encode = .ok signed ∧ bs = Wire.versionTag ++ Wire.field signed ++ rest ∧
      ∀ scheme validators quorum, s.verify scheme validators quorum =
        s.signature.verify scheme signed validators quorum := by
  refine ⟨Message.lawful, Envelope.lawful, SignedEnvelope.lawful, ?_, ?_⟩
  · intro e signed h
    rw [Envelope.encode_eq_checked, Wire.checked_eq_ok_iff] at h
    rw [← h.2, Envelope.length_wire]
  · intro bs s h
    obtain ⟨hencode, ⟨rest, hbs⟩, hverify⟩ := SignedEnvelope.signed_bytes_of_decode h
    exact ⟨s.envelope.wire, rest, hencode, hbs, hverify⟩

/-- The message that the second of two validators has signed. -/
theorem wireFormats_lawful_secondValidator :
    SignedEnvelope.decode TwoValidators.wire = .ok TwoValidators.signed ∧
    ∃ signed rest, TwoValidators.envelope.encode = .ok signed ∧
      signed.length = Envelope.overhead + TwoValidators.envelope.payload.length ∧
      TwoValidators.wire = Wire.versionTag ++ Wire.field signed ++ rest := by
  have hdecode : SignedEnvelope.decode TwoValidators.wire = .ok TwoValidators.signed := by
    decide +kernel
  obtain ⟨-, -, -, hlength, hbytes⟩ := wireFormats_lawful
  obtain ⟨signed, rest, hencode, hwire, -⟩ := hbytes _ _ hdecode
  exact ⟨hdecode, signed, rest, hencode, hlength _ _ hencode, hwire⟩

end Interchain
