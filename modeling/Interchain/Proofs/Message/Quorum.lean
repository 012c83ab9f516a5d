import Interchain.Message.Signed
import Interchain.Proofs.Message.SignerBits
import Interchain.Proofs.TwoValidators
import Interchain.Proofs.Validator.Canonical

/-!
# Signatures that carry a quorum

When a signature of several validators is accepted. Its bits name entries, the entries have weights, and the weights
are added and compared in 64 bits; every step is brought to exact numbers, where the sums that are checked can never
overflow, as they are parts of a total that has fit.

* `CanonicalSet.signing`: the entries whose bits are set, each once.
* `CanonicalSet.members_eq_ok_iff`: which sets of signers name entries, and which.
* `CanonicalSet.sumWeight_eq_ok_iff`, `Quorum.checkWeight_eq_ok_iff`: sums and fractions in exact numbers.
* `MultiSignature.signedWeight`: the weight behind the bits of a set of signers.
* `MultiSignature.verify_eq_ok_iff_carries_quorum`: a signature is accepted exactly if its signers are known, carry a
  quorum of the weight of all validators, and have signed.

The scheme of signatures is any, and what it accepts is part of the right-hand side.
-/

namespace Interchain

/-! ### The entries that sign -/

namespace CanonicalSet

/-- The entries whose bits are set, in canonical order. -/
def signing (s : CanonicalSet) (signers : SignerSet) : List CanonicalValidator :=
  (s.validators.zipIdx.filter fun v => signers.contains v.2).map (·.1)

variable {s : CanonicalSet} {signers : SignerSet} {us : List CanonicalValidator}

theorem signing_sublist (s : CanonicalSet) (signers : SignerSet) :
    (s.signing signers).Sublist s.validators := by
  have h := (List.filter_sublist (p := fun v : CanonicalValidator × Nat => signers.contains v.2)
    (l := s.validators.zipIdx)).map (·.1)
  rwa [List.zipIdx_map_fst] at h

theorem member_eq_ok_iff {i : Nat} {v : CanonicalValidator} :
    s.member i = .ok v ↔ s.validators[i]? = some v := by
  unfold member
  cases s.validators[i]? with
  | none => simp
  | some u => simp

theorem mapM_member_eq_ok_iff {is : List Nat} :
    is.mapM s.member = .ok us ↔
      (∀ i ∈ is, i < s.validators.length) ∧ us = is.filterMap (s.validators[·]?) := by
  induction is generalizing us with
  | nil =>
    rw [List.mapM_nil, Steps.pure_eq_ok_iff]
    simp [eq_comm]
  | cons i is ih =>
    rw [List.mapM_cons]
    simp only [Steps.bind_eq_ok_iff, Steps.pure_eq_ok_iff, member_eq_ok_iff, List.forall_mem_cons]
    constructor
    · rintro ⟨v, hv, rest, hrest, rfl⟩
      obtain ⟨hlt, rfl⟩ := ih.1 hrest
      exact ⟨⟨(List.getElem?_eq_some_iff.1 hv).1, hlt⟩, by rw [List.filterMap_cons_some hv]⟩
    · rintro ⟨⟨hi, hlt⟩, rfl⟩
      have hv := List.getElem?_eq_getElem hi
      exact ⟨_, hv, _, ih.2 ⟨hlt, rfl⟩, by rw [List.filterMap_cons_some hv]⟩

/-- Picking elements by their numbers, or numbering the elements and picking. -/
theorem filterMap_filter_range' {α : Type} (l : List α) (p : Nat → Bool) (k : Nat) :
    ((List.range' k l.length).filter p).filterMap (fun i => l[i - k]?) =
      ((l.zipIdx k).filter fun v => p v.2).map (·.1) := by
  induction l generalizing k with
  | nil => rfl
  | cons x l ih =>
    have hrest : ((List.range' (k + 1) l.length).filter p).filterMap
        (fun i => (x :: l)[i - k]?) = ((l.zipIdx (k + 1)).filter fun v => p v.2).map (·.1) := by
      rw [← ih (k + 1)]
      refine List.filterMap_congr fun i hi => ?_
      have hi : k + 1 ≤ i := (List.mem_range'_1.1 (List.mem_of_mem_filter hi)).1
      have hsub : i - k = i - (k + 1) + 1 := by omega
      rw [hsub, List.getElem?_cons_succ]
    rw [List.length_cons, List.range'_succ, List.zipIdx_cons]
    by_cases hk : p k = true
    · rw [List.filter_cons_of_pos hk, List.filter_cons_of_pos (by exact hk), List.map_cons,
        List.filterMap_cons_some (by rw [Nat.sub_self]; rfl), hrest]
    · rw [List.filter_cons_of_neg hk, List.filter_cons_of_neg (by exact hk), hrest]

theorem filterMap_indices (h : ∀ i, signers.contains i = true → i < s.validators.length) :
    signers.indices.filterMap (s.validators[·]?) = s.signing signers := by
  rw [SignerSet.indices_eq_filter_of_lt h, List.range_eq_range']
  exact filterMap_filter_range' s.validators signers.contains 0

theorem members_eq_ok_iff :
    s.members signers = .ok us ↔ signers.isMinimal = true ∧
      (∀ i, signers.contains i = true → i < s.validators.length) ∧ us = s.signing signers := by
  unfold members
  split
  · next hm =>
    rw [mapM_member_eq_ok_iff]
    simp only [hm, true_and, SignerSet.mem_indices]
    refine and_congr_right fun hlt => ?_
    rw [filterMap_indices hlt]
  · next hm => simp [hm]

theorem members_ne_weightOverflow (s : CanonicalSet) (signers : SignerSet) :
    s.members signers ≠ .error .weightOverflow := by
  intro h
  unfold members at h
  split at h
  · obtain ⟨i, x, -, hx, -⟩ := Steps.mapM_eq_error_iff.1 h
    unfold member at hx
    split at hx <;> cases hx
  · cases h

/-- A minimal set that names entries only is empty if it has no bytes. -/
theorem signing_eq_nil_iff (hm : signers.isMinimal = true)
    (h : ∀ i, signers.contains i = true → i < s.validators.length) :
    s.signing signers = [] ↔ signers.bytes = [] := by
  rw [← SignerSet.indices_eq_nil_iff hm, ← filterMap_indices h, List.filterMap_eq_nil_iff]
  constructor
  · intro hnone
    refine List.eq_nil_iff_forall_not_mem.2 fun i hi => ?_
    have hlt := h i (SignerSet.mem_indices.1 hi)
    have hi := hnone i hi
    rw [List.getElem?_eq_getElem hlt] at hi
    cases hi
  · intro hnil i hi
    rw [hnil] at hi
    cases hi

/-! ### Weights -/

theorem foldlM_addWeight_eq_ok_iff {w w' : UInt64} :
    us.foldlM (fun sum v => addWeight sum v.weight) w = .ok w' ↔
      w.toNat + sumOf us = w'.toNat := by
  induction us generalizing w with
  | nil =>
    rw [List.foldlM_nil, Steps.pure_eq_ok_iff, ← UInt64.toNat_inj]
    rfl
  | cons u us ih =>
    have hsum : sumOf (u :: us) = u.weight.toNat + sumOf us := by
      simp only [sumOf, List.map_cons, List.sum_cons]
    rw [List.foldlM_cons, Steps.bind_eq_ok_iff, hsum]
    constructor
    · rintro ⟨c, hc, h⟩
      rw [← ih.1 h, ← addWeight_eq_ok_iff.1 hc, Nat.add_assoc]
    · intro h
      have hw' := w'.toNat_lt
      obtain ⟨c, hc, heq⟩ := exists_addWeight (a := w) (b := u.weight) (by omega)
      exact ⟨c, hc, ih.2 (by omega)⟩

theorem sumWeight_eq_ok_iff {w : UInt64} : sumWeight us = .ok w ↔ sumOf us = w.toNat := by
  rw [sumWeight, foldlM_addWeight_eq_ok_iff]
  exact Eq.congr_left (Nat.zero_add _)

theorem exists_sumWeight (h : sumOf us < 2 ^ 64) :
    ∃ w, sumWeight us = .ok w ∧ w.toNat = sumOf us := by
  have hw : (UInt64.ofNat (sumOf us)).toNat = sumOf us := UInt64.toNat_ofNat_of_lt' h
  exact ⟨_, sumWeight_eq_ok_iff.2 hw.symm, hw⟩

end CanonicalSet

theorem Quorum.checkWeight_eq_ok_iff {q : Quorum} {signed total : UInt64} :
    q.checkWeight signed total = .ok () ↔
      0 < total.toNat ∧ total.toNat * q.numerator.toNat ≤ signed.toNat * q.denominator.toNat := by
  unfold checkWeight
  split
  · next h => simp [h]
  · next h =>
    have hpos : 0 < total.toNat := Nat.pos_of_ne_zero fun e => h (UInt64.toNat_inj.1 e)
    split
    · next hlt => simp [hpos, hlt]
    · next hge => simp [hpos, Nat.le_of_not_lt hge]

theorem Quorum.checkWeight_ne_weightOverflow {q : Quorum} {signed total : UInt64} :
    q.checkWeight signed total ≠ .error .weightOverflow := by
  unfold checkWeight
  split
  · exact nofun
  · split
    · exact nofun
    · exact nofun

/-! ### Signatures -/

namespace MultiSignature

variable {scheme : SignatureScheme} {s : MultiSignature} {message : Bytes} {set : CanonicalSet}
  {quorum : Quorum} {vs : List Validator}

/-- The steps of a verification that succeeds. -/
theorem verify_eq_ok_iff_steps :
    s.verify scheme message set quorum = .ok () ↔
      ∃ us w signature, set.members s.signers = .ok us ∧ us ≠ [] ∧
        CanonicalSet.sumWeight us = .ok w ∧ quorum.checkWeight w set.totalWeight = .ok () ∧
        scheme.read s.signature = .ok signature ∧
        scheme.verifyAggregate signature message (us.map (·.key)) = true := by
  unfold verify
  simp only [Steps.bind_eq_ok_iff, Steps.guard_eq_ok_iff, Steps.mapError_eq_ok_iff,
    List.isEmpty_iff]
  constructor
  · rintro ⟨us, hus, hne, w, hw, _, hq, signature, hread, h⟩
    refine ⟨us, w, signature, hus, hne, hw, hq, hread, ?_⟩
    split at h
    · next hv => exact hv
    · cases h
  · rintro ⟨us, w, signature, hus, hne, hw, hq, hread, hv⟩
    exact ⟨us, hus, hne, w, hw, (), hq, signature, hread, if_pos hv⟩

/-- The weight behind the bits of a set of signers, each entry counted once with the weight of all validators that
share its key. -/
def signedWeight (vs : List Validator) (set : CanonicalSet) (signers : SignerSet) : Nat :=
  ((set.signing signers).map fun v => Validator.weightOf vs v.key).sum

theorem signedWeight_eq_sumOf (h : set.Summarizes vs) (signers : SignerSet) :
    signedWeight vs set signers = CanonicalSet.sumOf (set.signing signers) := by
  refine congrArg List.sum (List.map_congr_left fun v hv => ?_)
  exact (h.weight_eq ((CanonicalSet.signing_sublist set signers).mem hv)).symm

theorem signedWeight_le (h : set.Summarizes vs) (signers : SignerSet) :
    signedWeight vs set signers ≤ Validator.totalWeight vs := by
  rw [signedWeight_eq_sumOf h]
  exact h.sum_weight_le (CanonicalSet.signing_sublist set signers)

theorem totalWeight_lt (h : set.Summarizes vs) : Validator.totalWeight vs < 2 ^ 64 :=
  h.totalWeight_eq ▸ set.totalWeight.toNat_lt

/-- The sum of the weights of those who sign always fits. -/
theorem exists_sumWeight_signing (h : set.Summarizes vs) (signers : SignerSet) :
    ∃ w, CanonicalSet.sumWeight (set.signing signers) = .ok w ∧
      w.toNat = signedWeight vs set signers := by
  have hlt := Nat.lt_of_le_of_lt (signedWeight_le h signers) (totalWeight_lt h)
  rw [signedWeight_eq_sumOf h] at hlt ⊢
  exact CanonicalSet.exists_sumWeight hlt

theorem checkWeight_signing_iff (h : set.Summarizes vs) {w : UInt64}
    (hw : w.toNat = signedWeight vs set s.signers) :
    quorum.checkWeight w set.totalWeight = .ok () ↔ 0 < Validator.totalWeight vs ∧
      Validator.totalWeight vs * quorum.numerator.toNat ≤
        signedWeight vs set s.signers * quorum.denominator.toNat := by
  rw [Quorum.checkWeight_eq_ok_iff, hw, h.totalWeight_eq]

/-- The last step of a verification: the signature itself. -/
theorem verifyAggregate_ne_weightOverflow {signature : Signature} {us : List CanonicalValidator} :
    (if scheme.verifyAggregate signature message (us.map (·.key)) = true then pure ()
      else throw .invalidSignature : Except MessageError Unit) ≠ .error .weightOverflow := by
  split
  · exact nofun
  · exact nofun

/-- No sum of a verification overflows. -/
theorem verify_ne_weightOverflow (h : set.Summarizes vs) :
    s.verify scheme message set quorum ≠ .error .weightOverflow := by
  intro hv
  unfold verify at hv
  rcases Steps.bind_eq_error_iff.1 hv with hm | ⟨us, hus, hv⟩
  · exact set.members_ne_weightOverflow s.signers hm
  · obtain ⟨-, -, rfl⟩ := CanonicalSet.members_eq_ok_iff.1 hus
    obtain ⟨w, hw, -⟩ := exists_sumWeight_signing h s.signers
    split at hv
    · cases hv
    · rw [hw] at hv
      rcases Steps.bind_eq_error_iff.1 hv with hn | ⟨_, -, hv⟩
      · cases hn
      rcases Steps.bind_eq_error_iff.1 hv with hq | ⟨_, -, hv⟩
      · exact Quorum.checkWeight_ne_weightOverflow hq
      rcases Steps.bind_eq_error_iff.1 hv with hr | ⟨_, -, hv⟩
      · obtain ⟨_, -, hr⟩ := Steps.mapError_eq_error_iff.1 hr
        cases hr
      · exact verifyAggregate_ne_weightOverflow hv

theorem verify_eq_ok_iff (h : set.Summarizes vs) :
    s.verify scheme message set quorum = .ok () ↔
      s.signers.bytes ≠ [] ∧ s.signers.bytes.getLast? ≠ some 0 ∧
      (∀ i, s.signers.contains i = true → i < set.validators.length) ∧
      0 < Validator.totalWeight vs ∧
      Validator.totalWeight vs * quorum.numerator.toNat ≤
        signedWeight vs set s.signers * quorum.denominator.toNat ∧
      ∃ point, scheme.read s.signature = .ok point ∧
        scheme.verifyAggregate point message ((set.signing s.signers).map (·.key)) = true := by
  obtain ⟨w, hw, hweight⟩ := exists_sumWeight_signing h s.signers
  have hquorum : quorum.checkWeight w set.totalWeight = .ok () ↔ _ :=
    checkWeight_signing_iff h hweight
  rw [verify_eq_ok_iff_steps]
  constructor
  · rintro ⟨us, w', point, hus, hne, hw', hq, hread, hv⟩
    obtain ⟨hmin, hlt, rfl⟩ := CanonicalSet.members_eq_ok_iff.1 hus
    obtain rfl : w = w' := Except.ok.inj (hw.symm.trans hw')
    obtain ⟨hpos, hle⟩ := hquorum.1 hq
    exact ⟨fun hnil => hne ((CanonicalSet.signing_eq_nil_iff hmin hlt).2 hnil),
      SignerSet.isMinimal_eq_true_iff.1 hmin, hlt, hpos, hle, point, hread, hv⟩
  · rintro ⟨hne, hlast, hlt, hpos, hle, point, hread, hv⟩
    have hmin := SignerSet.isMinimal_eq_true_iff.2 hlast
    exact ⟨_, w, point, CanonicalSet.members_eq_ok_iff.2 ⟨hmin, hlt, rfl⟩,
      fun hnil => hne ((CanonicalSet.signing_eq_nil_iff hmin hlt).1 hnil),
      hw, hquorum.2 ⟨hpos, hle⟩, hread, hv⟩

theorem mul_lt_two_pow_128 {a b : Nat} (ha : a < 2 ^ 64) (hb : b < 2 ^ 64) : a * b < 2 ^ 128 :=
  calc
    a * b < 2 ^ 64 * 2 ^ 64 := Nat.mul_lt_mul'' ha hb
    _ = 2 ^ 128 := by decide

/-- A signature is accepted exactly if the signers are a minimal set of bits that name entries, the entries carry a
quorum of the weight of all validators, and they have signed the message. The numbers are exact: no sum overflows and no
product needs more than 128 bits. -/
theorem verify_eq_ok_iff_carries_quorum (h : CanonicalSet.ofValidators vs = .ok set)
    (scheme : SignatureScheme) (bits : Bytes) (signature : FixedBytes 96) (message : Bytes)
    (quorum : Quorum) :
    (verify scheme ⟨⟨bits⟩, signature⟩ message set quorum = .ok () ↔
      bits ≠ [] ∧ bits.getLast? ≠ some 0 ∧
      (∀ i, SignerSet.contains ⟨bits⟩ i = true → i < set.validators.length) ∧
      0 < Validator.totalWeight vs ∧
      Validator.totalWeight vs * quorum.numerator.toNat ≤
        signedWeight vs set ⟨bits⟩ * quorum.denominator.toNat ∧
      ∃ point, scheme.read signature = .ok point ∧
        scheme.verifyAggregate point message ((set.signing ⟨bits⟩).map (·.key)) = true) ∧
    verify scheme ⟨⟨bits⟩, signature⟩ message set quorum ≠ .error .weightOverflow ∧
    signedWeight vs set ⟨bits⟩ * quorum.denominator.toNat < 2 ^ 128 ∧
    Validator.totalWeight vs * quorum.numerator.toNat < 2 ^ 128 := by
  have hs := CanonicalSet.ofValidators_summarizes h
  have htotal := totalWeight_lt hs
  have hsigned := Nat.lt_of_le_of_lt (signedWeight_le hs ⟨bits⟩) htotal
  exact ⟨verify_eq_ok_iff hs, verify_ne_weightOverflow hs,
    mul_lt_two_pow_128 hsigned quorum.denominator.toNat_lt,
    mul_lt_two_pow_128 htotal quorum.numerator.toNat_lt⟩

/-- The second validator alone carries a third of the weight. -/
theorem verify_second_validator :
    CanonicalSet.ofValidators TwoValidators.validators = .ok TwoValidators.canonical ∧
    verify TwoValidators.scheme ⟨⟨[2]⟩, TwoValidators.signed.signature.signature⟩
      (TwoValidators.envelope.encode.toOption.getD []) TwoValidators.canonical
      TwoValidators.quorum = .ok () := by
  have h : CanonicalSet.ofValidators TwoValidators.validators = .ok TwoValidators.canonical := by
    decide +kernel
  have hbits : ∀ i, SignerSet.contains ⟨[2]⟩ i = true → i < 2 := fun i hi => by
    have hmem : i ∈ [1] := SignerSet.mem_indices.2 hi
    rw [List.mem_singleton] at hmem
    omega
  refine ⟨h, (verify_eq_ok_iff_carries_quorum h _ _ _ _ _).1.2 ⟨nofun, by decide, hbits, ?_, ?_, _, rfl, ?_⟩⟩
  · decide +kernel
  · decide +kernel
  · decide +kernel

end MultiSignature

end Interchain
