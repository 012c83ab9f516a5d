import Interchain.Message.Admission
import Interchain.Proofs.TwoValidators
import Interchain.Proofs.Validator.Alike

/-!
# Snapshots that say the same

A verification looks at the keys and the weights of a canonical set and not at its nodes. So it comes to the same
end on any two lists of validators that are alike, also where it fails, and a payload gets the same verdict
whichever of them the platform reports.

Each function on the way is shown to ignore the nodes, or to carry them along without looking
(`CanonicalSet.members_anonymous`). The error of a list whose weights do not fit is the same, too.
-/

namespace Interchain

/-! ### Nodes have no influence -/

namespace CanonicalSet

variable (s : CanonicalSet)

theorem member_anonymous (i : Nat) : s.anonymous.member i = (s.member i).map (·.anonymous) := by
  unfold member
  rw [getElem?_anonymous, length_anonymous]
  cases s.validators[i]? with
  | none => rfl
  | some v => rfl

theorem members_anonymous (signers : SignerSet) :
    s.anonymous.members signers = (s.members signers).map (List.map (·.anonymous)) := by
  unfold members
  split
  · rw [← Steps.mapM_map_result]
    exact congrArg (signers.indices.mapM ·) (funext s.member_anonymous)
  · rfl

theorem sumWeight_anonymous (us : List CanonicalValidator) :
    sumWeight (us.map (·.anonymous)) = sumWeight us := by
  rw [sumWeight, List.foldlM_map]
  rfl

end CanonicalSet

theorem CanonicalValidator.map_key_anonymous (us : List CanonicalValidator) :
    (us.map (·.anonymous)).map (·.key) = us.map (·.key) := by
  rw [List.map_map]
  rfl

theorem MultiSignature.verify_anonymous (scheme : SignatureScheme) (signature : MultiSignature)
    (message : Bytes) (s : CanonicalSet) (quorum : Quorum) :
    signature.verify scheme message s.anonymous quorum = signature.verify scheme message s quorum := by
  unfold verify
  rw [s.members_anonymous]
  cases s.members signature.signers with
  | error e => rfl
  | ok us =>
    show (if (us.map (·.anonymous)).isEmpty then _ else _) = (if us.isEmpty then _ else _)
    rw [List.isEmpty_map, CanonicalSet.sumWeight_anonymous, CanonicalValidator.map_key_anonymous]
    rfl

theorem Admission.checkMessage_anonymous (scheme : SignatureScheme) (quorum : Quorum)
    (ctx : PredicateContext) (s : CanonicalSet) (i : Nat) (bs : Bytes) :
    checkMessage scheme quorum ctx s.anonymous i bs = checkMessage scheme quorum ctx s i bs := by
  simp only [checkMessage, SignedEnvelope.verify, MultiSignature.verify_anonymous]

/-! ### Nor has the way in which validators are reported -/

variable {vs ws : List Validator} {height : UInt64} {source source' : ValidatorSource}

/-- Lists that are alike have a canonical form both or neither, and if so the same one but for the nodes. -/
theorem CanonicalSet.ofValidators_of_alike (h : Validator.Alike vs ws) :
    (ofValidators vs = .error .weightOverflow ∧ ofValidators ws = .error .weightOverflow) ∨
      ∃ s t, ofValidators vs = .ok s ∧ ofValidators ws = .ok t ∧ s.anonymous = t.anonymous := by
  by_cases hlt : Validator.totalWeight vs < 2 ^ 64
  · obtain ⟨s, hs⟩ := exists_ofValidators hlt
    obtain ⟨t, ht⟩ := exists_ofValidators (h.totalWeight_eq ▸ hlt)
    have hst := anonymous_eq_of_alike (ofValidators_summarizes hs) (ofValidators_summarizes ht) h
    exact .inr ⟨s, t, hs, ht, hst⟩
  · have hle := Nat.le_of_not_lt hlt
    exact .inl ⟨ofValidators_eq_error_iff.2 ⟨hle, rfl⟩,
      ofValidators_eq_error_iff.2 ⟨h.totalWeight_eq ▸ hle, rfl⟩⟩

theorem CanonicalSet.atHeight_of_eq_ok (h : source height = .ok vs) :
    atHeight source height = ofValidators vs := by
  rw [atHeight, h, Steps.ok_bind]

namespace Admission

variable (scheme : SignatureScheme) (quorum : Quorum) (ctx : PredicateContext) (payload : Bytes)

/-- All messages of a payload get the same answer from sets that differ in their nodes. -/
theorem forM_checkMessage_eq {s t : CanonicalSet} (hst : s.anonymous = t.anonymous)
    (messages : List Bytes) :
    (messages.zipIdx.forM fun (bs, i) => checkMessage scheme quorum ctx s i bs) =
      messages.zipIdx.forM fun (bs, i) => checkMessage scheme quorum ctx t i bs := by
  refine congrArg (messages.zipIdx.forM ·) (funext fun z => ?_)
  show checkMessage scheme quorum ctx s z.2 z.1 = checkMessage scheme quorum ctx t z.2 z.1
  rw [← checkMessage_anonymous, hst, checkMessage_anonymous]

theorem check_eq_of_snapshots (h : Validator.Alike vs ws)
    (hsource : ∀ height ∈ ctx.proposerHeight, ctx.validatorsAt height = .ok vs ∧
      source height = .ok ws) :
    check scheme quorum { ctx with validatorsAt := source } payload = check scheme quorum ctx payload := by
  unfold check
  dsimp only
  cases hp : ctx.proposerHeight with
  | none => rfl
  | some height =>
    obtain ⟨hvs, hws⟩ := hsource height hp
    simp only [CanonicalSet.atHeight_of_eq_ok hvs, CanonicalSet.atHeight_of_eq_ok hws]
    rcases CanonicalSet.ofValidators_of_alike h with ⟨hv, hw⟩ | ⟨s, t, hs, ht, hst⟩
    · rw [hv, hw]
      rfl
    · simp only [hs, ht, Steps.mapError_ok, Steps.ok_bind]
      simp only [forM_checkMessage_eq scheme quorum ctx hst]
      rfl

end Admission

/-- Two lists of validators with the same keys, the same weight behind each key and the same weight in all are
interchangeable. Either the weight fits for neither, or the canonical sets have the same keys and weights at the same
indices, and every signature gets the same answer from both, whatever it is. So a payload does, too. -/
theorem verdicts_eq_of_alike (h : Validator.Alike vs ws) :
    ((CanonicalSet.ofValidators vs = .error .weightOverflow ∧
        CanonicalSet.ofValidators ws = .error .weightOverflow) ∨
      ∃ s t, CanonicalSet.ofValidators vs = .ok s ∧ CanonicalSet.ofValidators ws = .ok t ∧
        s.validators.length = t.validators.length ∧
        (∀ i : Nat, (s.validators[i]?.map fun v => (v.key, v.weight)) =
          t.validators[i]?.map fun v => (v.key, v.weight)) ∧
        (∀ key, s.indexOf? key = t.indexOf? key) ∧
        ∀ scheme signature message quorum,
          MultiSignature.verify scheme signature message s quorum =
            MultiSignature.verify scheme signature message t quorum) ∧
    ∀ scheme quorum ctx source payload,
      (∀ height ∈ ctx.proposerHeight, ctx.validatorsAt height = .ok vs ∧ source height = .ok ws) →
      Admission.check scheme quorum { ctx with validatorsAt := source } payload =
        Admission.check scheme quorum ctx payload := by
  refine ⟨?_, fun scheme quorum ctx source payload hsource =>
    Admission.check_eq_of_snapshots scheme quorum ctx payload h hsource⟩
  rcases CanonicalSet.ofValidators_of_alike h with hoverflow | ⟨s, t, hs, ht, hst⟩
  · exact .inl hoverflow
  · refine .inr ⟨s, t, hs, ht, ?_, fun i => ?_, fun key => ?_, fun scheme signature message quorum => ?_⟩
    · rw [← s.length_anonymous, hst, t.length_anonymous]
    · have hi : s.validators[i]?.map (·.anonymous) = t.validators[i]?.map (·.anonymous) := by
        rw [← s.getElem?_anonymous, hst, t.getElem?_anonymous]
      have hview := congrArg (Option.map fun v : CanonicalValidator => (v.key, v.weight)) hi
      rw [Option.map_map, Option.map_map] at hview
      exact hview
    · rw [← s.indexOf?_anonymous, hst, t.indexOf?_anonymous]
    · rw [← MultiSignature.verify_anonymous, hst, MultiSignature.verify_anonymous]

/-- From one report to the other, the weight of the first key and that without a key are each split once. -/
theorem TwoValidators.observed_alike_rearranged : Validator.Alike observed rearranged := by
  have hfirst : Validator.Alike observed
      [nodeOf (some firstKey) 4 60, nodeOf (some firstKey) 5 7, nodeOf (some secondKey) 1 33,
        nodeOf none 2 10] :=
    Validator.alike_split _ _ _ (by decide)
  have horder : Validator.Alike
      [nodeOf (some firstKey) 4 60, nodeOf (some firstKey) 5 7, nodeOf (some secondKey) 1 33,
        nodeOf none 2 10]
      [nodeOf none 2 10, nodeOf (some secondKey) 1 33, nodeOf (some firstKey) 4 60,
        nodeOf (some firstKey) 5 7] :=
    Validator.alike_of_perm (by decide +kernel)
  have hkeyless : Validator.Alike
      [nodeOf none 2 10, nodeOf (some secondKey) 1 33, nodeOf (some firstKey) 4 60,
        nodeOf (some firstKey) 5 7]
      [nodeOf none 3 4, nodeOf none 3 6, nodeOf (some secondKey) 1 33, nodeOf (some firstKey) 4 60,
        nodeOf (some firstKey) 5 7] :=
    Validator.alike_split _ _ _ (by decide)
  have horder' : Validator.Alike
      [nodeOf none 3 4, nodeOf none 3 6, nodeOf (some secondKey) 1 33, nodeOf (some firstKey) 4 60,
        nodeOf (some firstKey) 5 7] rearranged :=
    Validator.alike_of_perm (by decide +kernel)
  exact ((hfirst.trans horder).trans hkeyless).trans horder'

/-- The second of two validators no longer carries a third of the weight once a node without a key is counted. Both
reports of the network say so in the same words. -/
theorem verdicts_observed_rearranged :
    Validator.Alike TwoValidators.observed TwoValidators.rearranged ∧
    Admission.check TwoValidators.scheme TwoValidators.quorum
        { TwoValidators.context with validatorsAt := fun _ => .ok TwoValidators.observed }
        TwoValidators.attachment =
      .error (.invalidMessage 0 (.insufficientWeight 33 110 33 100)) ∧
    Admission.check TwoValidators.scheme TwoValidators.quorum
        { TwoValidators.context with validatorsAt := fun _ => .ok TwoValidators.rearranged }
        TwoValidators.attachment =
      .error (.invalidMessage 0 (.insufficientWeight 33 110 33 100)) := by
  have hobserved : Admission.check TwoValidators.scheme TwoValidators.quorum
      { TwoValidators.context with validatorsAt := fun _ => .ok TwoValidators.observed }
      TwoValidators.attachment =
        .error (.invalidMessage 0 (.insufficientWeight 33 110 33 100)) := by
    decide +kernel
  have halike := TwoValidators.observed_alike_rearranged
  have hverdicts := (verdicts_eq_of_alike halike).2 TwoValidators.scheme TwoValidators.quorum
    { TwoValidators.context with validatorsAt := fun _ => .ok TwoValidators.observed }
    (fun _ => .ok TwoValidators.rearranged) TwoValidators.attachment fun _ _ => ⟨rfl, rfl⟩
  exact ⟨halike, hobserved, hverdicts.trans hobserved⟩

end Interchain
