import Interchain.Proofs.Message.Admission
import Interchain.Proofs.Message.Codec
import Interchain.Proofs.Message.SignerIndices
import Interchain.Proofs.Precompile.Metering

/-!
# Signers that are paid for

A call pays for the bits that are set in a set of signers, before anybody looks at validators. A signature is
verified with the weight of the entries that the bits name. Both count the same.

`signerSets_roundTrip` puts together what is known of lists of indices, bits and entries: they are the same sets
everywhere, also in the price of a call. The call and the verification need not go by the same quorum.
-/

namespace Interchain

variable {scheme : SignatureScheme} {quorum : Quorum} {signed : SignedEnvelope}

namespace SignedEnvelope

/-- The entries whose weight has been verified. -/
theorem members_of_verify {set : CanonicalSet} (h : signed.verify scheme set quorum = .ok ()) :
    ∃ us w, set.members signed.signature.signers = .ok us ∧ CanonicalSet.sumWeight us = .ok w ∧
      quorum.checkWeight w set.totalWeight = .ok () := by
  obtain ⟨encoded, -, hverify⟩ := verify_eq_ok_iff.1 h
  obtain ⟨us, w, -, hus, -, hw, hq, -⟩ := MultiSignature.verify_eq_ok_iff_steps.1 hverify
  exact ⟨us, w, hus, hw, hq⟩

/-- The signers of an envelope that is read fit into a field, so they are not many. -/
theorem count_lt_of_decode {bs : Bytes} (h : decode bs = .ok signed) :
    signed.signature.signers.count < 2 ^ 32 := by
  have hsizes := (decode_eq_ok_iff.1 h).1
  have hfit : signed.signature.signers.bytes.length ≤ Wire.maxFieldSize :=
    hsizes _ (by simp [fieldSizes])
  calc signed.signature.signers.count
      ≤ 8 * signed.signature.signers.bytes.length := SignerSet.count_le _
    _ ≤ 8 * Wire.maxFieldSize := Nat.mul_le_mul_left 8 hfit
    _ < 2 ^ 32 := by decide

end SignedEnvelope

namespace Messenger

variable {attached : Option Bytes} {args : Bytes} {c : Call} {s : Overlay}

theorem exists_decode_of_envelopeAt (h : envelopeAt attached args = .ok signed) :
    ∃ bs, SignedEnvelope.decode bs = .ok signed := by
  unfold envelopeAt at h
  simp only [Steps.guard_eq_ok_iff, Steps.bind_eq_ok_iff, Steps.mapError_eq_ok_iff] at h
  obtain ⟨-, payload, -, messages, -, bs, -, hdecode⟩ := h
  exact ⟨bs, hdecode⟩

/-- A call that may change the state pays the base cost and for each bit of the signed envelope that it comes to. -/
theorem metered_of_envelopeAt (scheme : SignatureScheme) (costs : GasCosts) (quorum : Quorum) (env : Environment)
    (hinput : c.input = (Selector.ofSignature getMessageSignature).bytes ++ args)
    (hwritable : c.readOnly = false) (h : envelopeAt (s.attached.get? address) args = .ok signed) :
    Metered (costs.getMessage.toNat + costs.perSigner.toNat * signed.signature.signers.count) s
      fun gas => (precompile scheme costs quorum).run env { c with gas } := by
  have hhandler := metered_getMessage costs env { c with input := args } s
  rw [h] at hhandler
  have hcall : Metered _ s fun gas => (table costs).dispatch env { c with gas } :=
    DispatchTable.metered_dispatch (route_getMessage costs hinput) hhandler
  rw [if_neg (by simp [hwritable])] at hcall
  exact hcall

end Messenger

/-! ### One set everywhere -/

/-- A list of indices, in any order and with any repeats, makes the one minimal set of bits that stands for it, with as
many bits as there are different indices. For some validators it comes to their entries at these indices in increasing
order, or is refused for the least index without an entry. A set that is not refused is the one that its own bits make,
and has as many bits as it names entries. So the surcharge of a call is for exactly the entries whose weight has been
verified. -/
theorem signerSets_roundTrip :
    (∀ is : List Nat, (SignerSet.ofIndices is).Represents is ∧
      (∀ js, (∀ i, i ∈ js ↔ i ∈ is) → SignerSet.ofIndices js = SignerSet.ofIndices is) ∧
      (SignerSet.ofIndices is).count = is.toFinset.card) ∧
    (∀ (set : CanonicalSet) (is : List Nat), set.Names is (set.members (.ofIndices is))) ∧
    (∀ (set : CanonicalSet) (signers : SignerSet) us, set.members signers = .ok us →
      signers.Represents signers.indices ∧ SignerSet.ofIndices signers.indices = signers ∧
      signers.count = us.length) ∧
    ∀ (scheme : SignatureScheme) (costs : GasCosts) (quorum quorum' : Quorum) (env : Environment) (c : Call)
      (s : Overlay) (args : Bytes) (signed : SignedEnvelope) (set : CanonicalSet),
      c.input = (Selector.ofSignature Messenger.getMessageSignature).bytes ++ args → c.readOnly = false →
      Messenger.envelopeAt (s.attached.get? Messenger.address) args = .ok signed →
      signed.verify scheme set quorum' = .ok () →
      ∃ us w, set.members signed.signature.signers = .ok us ∧ CanonicalSet.sumWeight us = .ok w ∧
        quorum'.checkWeight w set.totalWeight = .ok () ∧ us.length < 2 ^ 32 ∧
        Metered (costs.getMessage.toNat + costs.perSigner.toNat * us.length) s
          fun gas => (Messenger.precompile scheme costs quorum).run env { c with gas } := by
  refine ⟨fun is => ⟨?_, ?_, ?_⟩, fun set is => ?_, fun set signers us h => ⟨?_, ?_, ?_⟩, ?_⟩
  · exact SignerSet.represents_ofIndices is
  · intro js hmem
    exact SignerSet.represents_iff.1 ((SignerSet.represents_ofIndices is).congr fun i => (hmem i).symm)
  · exact (SignerSet.represents_ofIndices is).count_eq
  · exact CanonicalSet.names_members set (SignerSet.represents_ofIndices is)
  · exact SignerSet.represents_indices (CanonicalSet.members_eq_ok_iff.1 h).1
  · exact SignerSet.represents_iff.1 (SignerSet.represents_indices (CanonicalSet.members_eq_ok_iff.1 h).1)
  · exact CanonicalSet.count_of_members h
  · intro scheme costs quorum quorum' env c s args signed set hinput hwritable hat hverify
    obtain ⟨us, w, hus, hw, hq⟩ := SignedEnvelope.members_of_verify hverify
    obtain ⟨bs, hdecode⟩ := Messenger.exists_decode_of_envelopeAt hat
    have hcount := CanonicalSet.count_of_members hus
    have hlt := SignedEnvelope.count_lt_of_decode hdecode
    have hmetered := Messenger.metered_of_envelopeAt scheme costs quorum env hinput hwritable hat
    rw [hcount] at hlt hmetered
    exact ⟨us, w, hus, hw, hq, hlt, hmetered⟩

/-- The second of two validators has signed the message that a call asks for. -/
theorem signerSets_roundTrip_secondValidator :
    SignerSet.ofIndices [1, 1] = SignerSet.ofIndices [1] ∧
    TwoValidators.canonical.members (.ofIndices [7, 1, 5]) = .error (.signerOutOfRange 5 2) ∧
    SignerSet.ofIndices (SignerSet.indices ⟨[2]⟩) = ⟨[2]⟩ ∧
    ∃ us w, TwoValidators.canonical.members TwoValidators.signed.signature.signers = .ok us ∧
      CanonicalSet.sumWeight us = .ok w ∧
      TwoValidators.quorum.checkWeight w TwoValidators.canonical.totalWeight = .ok () ∧
      us.length < 2 ^ 32 ∧
      Metered (100000 + 1000 * us.length) (TwoValidators.stateWith TwoValidators.attachment)
        fun gas => (Messenger.precompile TwoValidators.scheme .standard TwoValidators.quorum).run
          TwoValidators.environment { TwoValidators.call 0 with gas } := by
  obtain ⟨hlists, hnames, hsets, hcalls⟩ := signerSets_roundTrip
  have hleast : IsLeast {i | i ∈ [7, 1, 5] ∧ 2 ≤ i} 5 := by
    refine ⟨by decide, fun i hi => ?_⟩
    have hcases : ∀ j ∈ [7, 1, 5], 2 ≤ j → 5 ≤ j := by decide
    exact hcases i hi.1 hi.2
  have hat : Messenger.envelopeAt
      ((TwoValidators.stateWith TwoValidators.attachment).attached.get? Messenger.address)
      (0 : Word).toBytes = .ok TwoValidators.signed := by
    rw [TwoValidators.get?_attached_stateWith]
    decide +kernel
  have hverify : TwoValidators.signed.verify TwoValidators.scheme TwoValidators.canonical
      TwoValidators.quorum = .ok () := by
    decide +kernel
  refine ⟨(hlists [1]).2.1 [1, 1] (by simp), (hnames _ [7, 1, 5]).refusal 5 hleast, ?_, ?_⟩
  · exact (hsets TwoValidators.canonical ⟨[2]⟩ _ rfl).2.1
  · exact hcalls TwoValidators.scheme .standard TwoValidators.quorum TwoValidators.quorum
      TwoValidators.environment (TwoValidators.call 0) _ _ _ _ rfl rfl hat hverify

end Interchain
