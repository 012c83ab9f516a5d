import Interchain.Proofs.Message.Quorum

/-!
# Two quorums share a validator

A quorum of more than half of the weight cannot be reached twice without a validator that is counted both times. Two
sets of signers weigh in common what they weigh beyond the weight of all; if two signatures are accepted, that is at
least the part by which the quorum exceeds one half, counted twice, and some shared entry has positive weight.

This is arithmetic on the bits that are set, for one canonical set and two messages of any kind. That whoever signs
twice is at fault, and that a bit stands for a signature, is left to the scheme.
-/

namespace Interchain

/-! ### Entries that sign twice -/

namespace CanonicalSet

/-- The entries whose bits are set in both sets, in canonical order. -/
def signingBoth (s : CanonicalSet) (a b : SignerSet) : List CanonicalValidator :=
  (s.validators.zipIdx.filter fun v => a.contains v.2 && b.contains v.2).map (·.1)

variable {s : CanonicalSet} {a b : SignerSet}

theorem sumOf_map_filter_cons (p : CanonicalValidator × Nat → Bool) (v : CanonicalValidator × Nat)
    (vs : List (CanonicalValidator × Nat)) :
    sumOf (((v :: vs).filter p).map (·.1)) =
      (if p v then v.1.weight.toNat else 0) + sumOf ((vs.filter p).map (·.1)) := by
  by_cases h : p v = true
  · rw [List.filter_cons_of_pos h, if_pos h]
    simp only [sumOf, List.map_cons, List.sum_cons]
  · rw [List.filter_cons_of_neg h, if_neg h, Nat.zero_add]

/-- Two choices from a list weigh no more than the list and what is chosen twice. -/
theorem sumOf_filter_add_le (p q : CanonicalValidator × Nat → Bool)
    (vs : List (CanonicalValidator × Nat)) :
    sumOf ((vs.filter p).map (·.1)) + sumOf ((vs.filter q).map (·.1)) ≤
      sumOf (vs.map (·.1)) + sumOf ((vs.filter fun v => p v && q v).map (·.1)) := by
  induction vs with
  | nil => exact Nat.le_refl _
  | cons v vs ih =>
    have hall : sumOf ((v :: vs).map (·.1)) = v.1.weight.toNat + sumOf (vs.map (·.1)) := by
      simp only [sumOf, List.map_cons, List.sum_cons]
    have hhead : (if p v then v.1.weight.toNat else 0) + (if q v then v.1.weight.toNat else 0) ≤
        v.1.weight.toNat + if p v && q v then v.1.weight.toNat else 0 := by
      cases p v <;> cases q v <;> simp
    rw [sumOf_map_filter_cons, sumOf_map_filter_cons, sumOf_map_filter_cons, hall]
    omega

theorem sumOf_signing_add_le (s : CanonicalSet) (a b : SignerSet) :
    sumOf (s.signing a) + sumOf (s.signing b) ≤ sumOf s.validators + sumOf (s.signingBoth a b) := by
  have h := sumOf_filter_add_le (fun v => a.contains v.2) (fun v => b.contains v.2) s.validators.zipIdx
  rwa [List.zipIdx_map_fst] at h

theorem exists_pos_of_sumOf_pos {us : List CanonicalValidator} (h : 0 < sumOf us) :
    ∃ v ∈ us, 0 < v.weight.toNat := by
  by_contra hnone
  refine absurd h (Nat.not_lt_of_le (Nat.le_of_eq (List.sum_eq_zero fun n hn => ?_)))
  obtain ⟨v, hv, rfl⟩ := List.mem_map.1 hn
  exact Nat.eq_zero_of_not_pos fun hpos => hnone ⟨v, hv, hpos⟩

/-- Where two sets of signers weigh something in common, both name one entry of positive weight. -/
theorem exists_of_sumOf_pos (h : 0 < sumOf (s.signingBoth a b)) :
    ∃ i v, s.validators[i]? = some v ∧ 0 < v.weight.toNat ∧ a.contains i = true ∧ b.contains i = true := by
  obtain ⟨v, hv, hpos⟩ := exists_pos_of_sumOf_pos h
  obtain ⟨⟨u, i⟩, hu, rfl⟩ := List.mem_map.1 hv
  obtain ⟨hmem, hbits⟩ := List.mem_filter.1 hu
  obtain ⟨ha, hb⟩ := Bool.and_eq_true_iff.1 hbits
  exact ⟨i, u, List.mem_zipIdx_iff_getElem?.1 hmem, hpos, ha, hb⟩

end CanonicalSet

/-! ### Signatures that are accepted -/

namespace MultiSignature

variable {scheme : SignatureScheme} {s t : MultiSignature} {message message' : Bytes}
  {set : CanonicalSet} {quorum : Quorum} {vs : List Validator}

/-- Two parts of a total, each with a share of at least `n / d` of it, have the rest beyond the total in common. -/
theorem mul_le_shared_mul {total part part' shared n d : Nat} (hp : total * n ≤ part * d)
    (hp' : total * n ≤ part' * d) (h : part + part' ≤ total + shared) :
    total * (2 * n - d) ≤ shared * d := by
  have hsum : (part + part') * d ≤ (total + shared) * d := Nat.mul_le_mul_right d h
  rw [Nat.add_mul, Nat.add_mul] at hsum
  have htwice : total * (2 * n) = total * n + total * n := by
    rw [Nat.two_mul, Nat.mul_add]
  rw [Nat.mul_sub, htwice]
  omega

/-- If a quorum is more than one half, the signers of two signatures that are accepted share an entry of positive weight,
whatever the two messages are. What they share has at least the part of the weight by which two quorums exceed the
whole. -/
theorem verify_signers_intersect (h : CanonicalSet.ofValidators vs = .ok set)
    (hquorum : quorum.denominator.toNat < 2 * quorum.numerator.toNat)
    (hs : s.verify scheme message set quorum = .ok ())
    (ht : t.verify scheme message' set quorum = .ok ()) :
    (∃ i v, set.validators[i]? = some v ∧ 0 < v.weight.toNat ∧
      s.signers.contains i = true ∧ t.signers.contains i = true) ∧
    Validator.totalWeight vs * (2 * quorum.numerator.toNat - quorum.denominator.toNat) ≤
      CanonicalSet.sumOf (set.signingBoth s.signers t.signers) * quorum.denominator.toNat := by
  have hset := CanonicalSet.ofValidators_summarizes h
  obtain ⟨-, -, -, hpos, hws, -⟩ := (verify_eq_ok_iff hset).1 hs
  obtain ⟨-, -, -, -, hwt, -⟩ := (verify_eq_ok_iff hset).1 ht
  rw [signedWeight_eq_sumOf hset] at hws hwt
  -- the entries weigh no more than all validators, of which some may have no key
  have hall : CanonicalSet.sumOf set.validators ≤ Validator.totalWeight vs :=
    hset.totalWeight_eq ▸ hset.sumOf_le
  have hboth := CanonicalSet.sumOf_signing_add_le set s.signers t.signers
  have hshared := mul_le_shared_mul hws hwt (Nat.le_trans hboth (Nat.add_le_add_right hall _))
  have hsome : 0 < Validator.totalWeight vs * (2 * quorum.numerator.toNat - quorum.denominator.toNat) :=
    Nat.mul_pos hpos (Nat.sub_pos_of_lt hquorum)
  refine ⟨CanonicalSet.exists_of_sumOf_pos ?_, hshared⟩
  exact Nat.pos_of_mul_pos_right (Nat.lt_of_lt_of_le hsome hshared)

/-- One message that the first validator has signed, and another one that both have signed. -/
theorem verify_firstSigned_bothSigned :
    TwoValidators.firstSigned.signature.verify TwoValidators.twoThirdsScheme
      (TwoValidators.envelope.encode.toOption.getD []) TwoValidators.canonical
      TwoValidators.twoThirds = .ok () ∧
    TwoValidators.bothSigned.signature.verify TwoValidators.twoThirdsScheme
      (TwoValidators.foreignEnvelope.encode.toOption.getD []) TwoValidators.canonical
      TwoValidators.twoThirds = .ok () ∧
    (∃ i v, TwoValidators.canonical.validators[i]? = some v ∧ 0 < v.weight.toNat ∧
      TwoValidators.firstSigned.signature.signers.contains i = true ∧
      TwoValidators.bothSigned.signature.signers.contains i = true) ∧
    Validator.totalWeight TwoValidators.validators *
        (2 * TwoValidators.twoThirds.numerator.toNat - TwoValidators.twoThirds.denominator.toNat) ≤
      CanonicalSet.sumOf (TwoValidators.canonical.signingBoth
        TwoValidators.firstSigned.signature.signers TwoValidators.bothSigned.signature.signers) *
        TwoValidators.twoThirds.denominator.toNat := by
  have h : CanonicalSet.ofValidators TwoValidators.validators = .ok TwoValidators.canonical := by
    decide +kernel
  have hfirst : TwoValidators.firstSigned.signature.verify TwoValidators.twoThirdsScheme
      (TwoValidators.envelope.encode.toOption.getD []) TwoValidators.canonical
      TwoValidators.twoThirds = .ok () := by
    decide +kernel
  have hboth : TwoValidators.bothSigned.signature.verify TwoValidators.twoThirdsScheme
      (TwoValidators.foreignEnvelope.encode.toOption.getD []) TwoValidators.canonical
      TwoValidators.twoThirds = .ok () := by
    decide +kernel
  exact ⟨hfirst, hboth, verify_signers_intersect h (by decide) hfirst hboth⟩

end MultiSignature

end Interchain
