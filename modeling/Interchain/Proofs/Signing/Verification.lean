import Interchain.Proofs.Signing.Keys
import Interchain.Signing.Signature

/-!
# Two ways to check a signature of several keys

A signature of several keys can be checked in two ways: against the sum of the keys as it is, or after the sum has
been examined like a key of its own. A sum of points of the subgroup lies in the subgroup, and infinity is refused
on both ways, so there is one verdict.

Of several keys nothing but the sum of their points matters: a key may occur twice, or cancel out. The test by a
pairing is taken as it stands. What it accepts, and that a signature made with the secret keys passes it, is not
shown.
-/

namespace Interchain

theorem PublicKey.exists_standsFor_of_produced {ks : List PublicKey} (h : ∀ k ∈ ks, k.Produced) :
    ∃ Ps, List.Forall₂ StandsFor ks Ps :=
  exists_standsFor fun k hk => (h k hk).exists_standsFor.imp fun _ hP => hP.1

namespace Signature

open PublicKey (StandsFor negativeKey)
open TwoValidators (envelope firstKey firstSigned)

variable {k : PublicKey} {ks : List PublicKey} {P : G1.Group} {Ps : List G1.Group} {p : G1} (s : Signature)
  (message : Bytes)

/-! ### One key -/

/-- No signature matches infinity. -/
theorem matchesPoint_zero (hp : G1.Denotes p 0) : s.matchesPoint message p = false := by
  rw [hp.eq_infinity_iff.2 rfl]
  unfold matchesPoint
  cases s.point with
  | error cause => rfl
  | ok q => simp

/-- The one point of the subgroup that is refused as a key is never matched either. -/
theorem verify_of_standsFor (h : k.StandsFor P) (hp : k.point = .ok p) :
    s.verify message k = s.matchesPoint message p := by
  obtain ⟨⟨q, hq, hqP⟩, hannihilated⟩ := h
  obtain rfl : p = q := Except.ok.inj (hp.symm.trans hq)
  have hvalid := PublicKey.validPoint_of_point hp
  rw [if_pos (hqP.inSubgroup_iff.2 hannihilated)] at hvalid
  unfold verify
  by_cases hinfinity : p = .infinity
  · rw [hvalid, if_pos hinfinity, s.matchesPoint_zero message (hqP.eq_infinity_iff.1 hinfinity ▸ hqP)]
  · rw [hvalid, if_neg hinfinity]

/-! ### Several keys -/

theorem verifyAggregate_of_aggregate (hk : PublicKey.aggregate ks = .ok k) (hp : k.point = .ok p) :
    s.verifyAggregate message ks = s.matchesPoint message p := by
  simp only [verifyAggregate, hk, hp]

/-- Of several keys nothing but the sum of their points matters. -/
theorem verifyAggregate_iff_matches_sum (h : List.Forall₂ StandsFor ks Ps) :
    s.verifyAggregate message ks = true ↔
      ∃ p, G1.Denotes p Ps.sum ∧ s.matchesPoint message p = true := by
  cases h with
  | nil =>
    constructor
    · intro hnone
      rw [verifyAggregate_nil] at hnone
      cases hnone
    · intro ⟨p, hp, hmatches⟩
      rw [s.matchesPoint_zero message hp] at hmatches
      cases hmatches
  | cons hk hks =>
    obtain ⟨sum, hsum⟩ := PublicKey.aggregate_isOk (List.cons_ne_nil _ _)
    obtain ⟨q, hq, hqP⟩ := (PublicKey.standsFor_aggregate (.cons hk hks) hsum).exists_point
    rw [s.verifyAggregate_of_aggregate message hsum hq]
    exact ⟨fun hmatches => ⟨q, hqP, hmatches⟩, fun ⟨p, hp, hmatches⟩ => hp.unique hqP ▸ hmatches⟩

/-- The sum is a point of the subgroup, so it makes no difference whether it is examined. -/
theorem verify_of_aggregate (h : List.Forall₂ StandsFor ks Ps) (hk : PublicKey.aggregate ks = .ok k) :
    s.verify message k = s.verifyAggregate message ks := by
  have hstands := PublicKey.standsFor_aggregate h hk
  obtain ⟨p, hp, -⟩ := hstands.exists_point
  rw [s.verify_of_standsFor message hstands hp, s.verifyAggregate_of_aggregate message hk hp]

theorem verifyAggregate_of_sum_zero (h : List.Forall₂ StandsFor ks Ps) (hzero : Ps.sum = 0) :
    s.verifyAggregate message ks = false := by
  rw [Bool.eq_false_iff, Ne, s.verifyAggregate_iff_matches_sum message h, hzero]
  intro ⟨p, hp, hmatches⟩
  rw [s.matchesPoint_zero message hp] at hmatches
  cases hmatches

/-- A signature is verified against several keys if and only if it is verified against their aggregate, which is the case
if it matches the sum of their points. For keys that add up to infinity it is refused on both ways. -/
theorem verifyAggregate_iff_verify (hks : ∀ k ∈ ks, k.Produced) :
    (s.verifyAggregate message ks = true ↔
        ∃ k, PublicKey.aggregate ks = .ok k ∧ s.verify message k = true) ∧
      ∀ Ps, List.Forall₂ StandsFor ks Ps →
        (s.verifyAggregate message ks = true ↔
            ∃ p, G1.Denotes p Ps.sum ∧ s.matchesPoint message p = true) ∧
          (Ps.sum = 0 → s.verifyAggregate message ks = false ∧
            ∀ k, PublicKey.aggregate ks = .ok k → s.verify message k = false) := by
  constructor
  · obtain ⟨Ps, hPs⟩ := PublicKey.exists_standsFor_of_produced hks
    constructor
    · intro hverified
      have hne : ks ≠ [] := by
        rintro rfl
        rw [verifyAggregate_nil] at hverified
        cases hverified
      obtain ⟨k, hk⟩ := PublicKey.aggregate_isOk hne
      exact ⟨k, hk, (s.verify_of_aggregate message hPs hk).trans hverified⟩
    · intro ⟨k, hk, hverified⟩
      exact (s.verify_of_aggregate message hPs hk).symm.trans hverified
  · intro Ps hPs
    refine ⟨s.verifyAggregate_iff_matches_sum message hPs, fun hzero => ?_⟩
    have hrefused := s.verifyAggregate_of_sum_zero message hPs hzero
    exact ⟨hrefused, fun k hk => (s.verify_of_aggregate message hPs hk).trans hrefused⟩

/-- What the first validator alone has signed. -/
def firstSignature : Signature := ⟨firstSigned.signature.signature⟩

/-- A key that occurs twice beside its negative counts once, and a key and its negative alone count for nothing. -/
theorem verifyAggregate_iff_verify_repeatedKey :
    ∃ signed, envelope.encode = .ok signed ∧
      (firstSignature.verifyAggregate signed [firstKey, firstKey, negativeKey] = true ↔
        firstSignature.verify signed firstKey = true) ∧
      firstSignature.verifyAggregate signed [firstKey, negativeKey] = false ∧
        firstSignature.verify signed ⟨infinityEncoding 48⟩ = false := by
  have hencode : envelope.encode = .ok (envelope.encode.toOption.getD []) := by decide +kernel
  have hread : PublicKey.ofBytes negativeKey.encoding = .ok negativeKey := by decide +kernel
  have honce : PublicKey.aggregate [firstKey, firstKey, negativeKey] = .ok firstKey := by decide +kernel
  have hnothing : PublicKey.aggregate [firstKey, negativeKey] = .ok ⟨infinityEncoding 48⟩ := by decide +kernel
  have hboth : ∀ k ∈ [firstKey, negativeKey], k.Produced :=
    List.forall_mem_cons.2 ⟨PublicKey.produced_firstKey, List.forall_mem_singleton.2 (.ofBytes hread)⟩
  have hrepeated : ∀ k ∈ [firstKey, firstKey, negativeKey], k.Produced :=
    List.forall_mem_cons.2 ⟨PublicKey.produced_firstKey, hboth⟩
  refine ⟨_, hencode, ?_, ?_⟩
  · obtain ⟨hiff, -⟩ := firstSignature.verifyAggregate_iff_verify (envelope.encode.toOption.getD []) hrepeated
    rw [hiff, honce]
    simp
  · obtain ⟨-, hsum⟩ := firstSignature.verifyAggregate_iff_verify (envelope.encode.toOption.getD []) hboth
    obtain ⟨Ps, hPs⟩ := PublicKey.exists_standsFor_of_produced hboth
    have hzero := (PublicKey.standsFor_aggregate hPs hnothing).encoding_eq_infinity_iff.1 rfl
    obtain ⟨hrefused, hsingle⟩ := (hsum Ps hPs).2 hzero
    exact ⟨hrefused, hsingle _ hnothing⟩

end Signature

end Interchain
