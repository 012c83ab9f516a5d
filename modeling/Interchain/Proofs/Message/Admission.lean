import Interchain.Message.Admission
import Interchain.Proofs.Steps

/-!
# What an admission has established

A payload is admitted exactly if the proposer has pinned a height, the payload is empty or a list, and each message
in it has an envelope for this chain which the validators at that height have signed with a quorum.

`Admission.admitted` gives a payload its messages, so that the empty payload need not be set apart later on. The
index of a message matters for errors only, and errors are not looked at here.
-/

namespace Interchain

theorem CanonicalSet.atHeight_eq_ok_iff {source : ValidatorSource} {height : UInt64}
    {set : CanonicalSet} :
    atHeight source height = .ok set ↔
      ∃ vs, source height = .ok vs ∧ ofValidators vs = .ok set :=
  Steps.bind_eq_ok_iff

theorem Predicate.decodeList_nil : decodeList [] = .error (.rlp .expectedList) := rfl

theorem SignedEnvelope.verify_eq_ok_iff {scheme : SignatureScheme} {signed : SignedEnvelope}
    {set : CanonicalSet} {quorum : Quorum} :
    signed.verify scheme set quorum = .ok () ↔
      ∃ encoded, signed.envelope.encode = .ok encoded ∧
        signed.signature.verify scheme encoded set quorum = .ok () :=
  Steps.bind_eq_ok_iff

namespace Admission

/-- The messages that a payload brings in, if it is admitted. An empty payload brings none. -/
def admitted (payload : Bytes) : List Bytes :=
  if payload.isEmpty then [] else (Predicate.decodeList payload).toOption.getD []

@[simp] theorem admitted_nil : admitted [] = [] := rfl

theorem admitted_eq {payload : Bytes} {messages : List Bytes}
    (h : Predicate.decodeList payload = .ok messages) : admitted payload = messages := by
  cases payload with
  | nil =>
    rw [Predicate.decodeList_nil] at h
    cases h
  | cons b bs =>
    rw [admitted, h]
    rfl

/-- What is checked of the envelope of a message. -/
structure Accepted (scheme : SignatureScheme) (quorum : Quorum) (ctx : PredicateContext)
    (validators : CanonicalSet) (signed : SignedEnvelope) : Prop where
  destination : signed.envelope.destinationChain = ctx.chainId
  verified : signed.verify scheme validators quorum = .ok ()

variable {scheme : SignatureScheme} {quorum : Quorum} {ctx : PredicateContext}
  {validators : CanonicalSet} {payload bs : Bytes} {messages : List Bytes} {i : Nat}

/-- Where a message stands matters only for the errors. -/
theorem checkMessage_eq_ok_iff :
    checkMessage scheme quorum ctx validators i bs = .ok () ↔
      ∃ signed, SignedEnvelope.decode bs = .ok signed ∧
        Accepted scheme quorum ctx validators signed := by
  unfold checkMessage
  rw [Steps.bind_eq_ok_iff]
  constructor
  · intro ⟨signed, hs, h⟩
    rw [Steps.guard_eq_ok_iff, Decidable.not_not] at h
    exact ⟨signed, Steps.mapError_eq_ok_iff.1 hs, h.1, Steps.mapError_eq_ok_iff.1 h.2⟩
  · intro ⟨signed, hs, hd, hv⟩
    refine ⟨signed, Steps.mapError_eq_ok_iff.2 hs, ?_⟩
    rw [Steps.guard_eq_ok_iff, Decidable.not_not]
    exact ⟨hd, Steps.mapError_eq_ok_iff.2 hv⟩

theorem forM_checkMessage_eq_ok_iff :
    (messages.zipIdx.forM fun (bs, i) => checkMessage scheme quorum ctx validators i bs) = .ok () ↔
      ∀ bs ∈ messages, ∃ signed, SignedEnvelope.decode bs = .ok signed ∧
        Accepted scheme quorum ctx validators signed := by
  rw [Steps.forM_eq_ok_iff]
  constructor
  · intro h bs hbs
    obtain ⟨i, hi⟩ := List.mem_iff_getElem?.1 hbs
    have hmem : (bs, i) ∈ messages.zipIdx := List.mem_zipIdx_iff_getElem?.2 hi
    exact checkMessage_eq_ok_iff.1 (h (bs, i) hmem)
  · intro h z hz
    have hmem : z.1 ∈ messages := List.fst_mem_of_mem_zipIdx hz
    exact checkMessage_eq_ok_iff.2 (h z.1 hmem)

/-- A payload is admitted exactly if the proposer has pinned a height, the payload is empty or a list, and every message
in it is accepted by the validators at that height. -/
theorem check_eq_ok_iff :
    check scheme quorum ctx payload = .ok () ↔
      ∃ height, ctx.proposerHeight = some height ∧
        (payload ≠ [] → ∃ messages, Predicate.decodeList payload = .ok messages) ∧
        (admitted payload ≠ [] → ∃ validators,
          CanonicalSet.atHeight ctx.validatorsAt height = .ok validators ∧
          ∀ bs ∈ admitted payload, ∃ signed, SignedEnvelope.decode bs = .ok signed ∧
            Accepted scheme quorum ctx validators signed) := by
  unfold check
  cases ctx.proposerHeight with
  | none => simp
  | some height =>
    cases payload with
    | nil => simp
    | cons b rest =>
      simp only [List.isEmpty_cons, Bool.false_eq_true, if_false, Steps.bind_eq_ok_iff,
        Steps.mapError_eq_ok_iff, Option.some.injEq, exists_eq_left', ne_eq, reduceCtorEq,
        not_false_eq_true, forall_const]
      constructor
      · rintro ⟨messages, hd, h⟩
        rw [admitted_eq hd]
        refine ⟨⟨messages, hd⟩, fun hne => ?_⟩
        rw [if_neg (by simpa using hne), Steps.bind_eq_ok_iff] at h
        obtain ⟨validators, hv, h⟩ := h
        exact ⟨validators, Steps.mapError_eq_ok_iff.1 hv, forM_checkMessage_eq_ok_iff.1 h⟩
      · rintro ⟨⟨messages, hd⟩, h⟩
        rw [admitted_eq hd] at h
        refine ⟨messages, hd, ?_⟩
        by_cases hm : messages = []
        · rw [if_pos (by simpa using hm)]
          rfl
        · obtain ⟨validators, hv, h⟩ := h hm
          rw [if_neg (by simpa using hm), Steps.bind_eq_ok_iff]
          exact ⟨validators, Steps.mapError_eq_ok_iff.2 hv, forM_checkMessage_eq_ok_iff.2 h⟩

/-- The envelope of each message of an admitted payload can be read, and is accepted. -/
theorem accepted_of_check (h : check scheme quorum ctx payload = .ok ())
    (hbs : (admitted payload)[i]? = some bs) :
    ∃ height validators signed, ctx.proposerHeight = some height ∧
      CanonicalSet.atHeight ctx.validatorsAt height = .ok validators ∧
      SignedEnvelope.decode bs = .ok signed ∧ Accepted scheme quorum ctx validators signed := by
  have hmem : bs ∈ admitted payload := List.mem_of_getElem? hbs
  obtain ⟨height, hheight, -, h⟩ := check_eq_ok_iff.1 h
  obtain ⟨validators, hv, h⟩ := h (List.ne_nil_of_mem hmem)
  obtain ⟨signed, hs, haccepted⟩ := h bs hmem
  exact ⟨height, validators, signed, hheight, hv, hs, haccepted⟩

end Admission

end Interchain
