import Interchain.Proofs.Message.Admission
import Interchain.Proofs.Validator.Canonical

/-!
# Why a payload is refused

A check goes from one test to the next and stops at the first that fails: the proposer, the payload as a list, the
validators at its height, and then message after message, each with three tests of its own.

`Admission.Refused` lists the three ways in which a message fails, and `Admission.FailsAt` says that it is the first
one of a list. With these `Admission.check_shortCircuits` gives the error of every payload that is not admitted.
What stands behind the failing message has no influence, nor has the source of validators where there is no message.
-/

namespace Interchain.Admission

/-! ### One message -/

section

variable (scheme : SignatureScheme) (quorum : Quorum) (ctx : PredicateContext) (validators : CanonicalSet)

/-- A message can be read, is for this chain, and a quorum has signed it. -/
def Passes (bs : Bytes) : Prop :=
  ∃ signed, SignedEnvelope.decode bs = .ok signed ∧ Accepted scheme quorum ctx validators signed

/-- What the first test says that the message at index `i` fails. -/
inductive Refused (i : Nat) (bs : Bytes) : AdmissionError → Prop where
  | unreadable {cause : MessageError} (hs : SignedEnvelope.decode bs = .error cause) :
    Refused i bs (.invalidMessage i cause)
  | misdirected {signed : SignedEnvelope} (hs : SignedEnvelope.decode bs = .ok signed)
    (hd : signed.envelope.destinationChain ≠ ctx.chainId) :
    Refused i bs (.wrongDestination i ctx.chainId signed.envelope.destinationChain)
  | unverified {signed : SignedEnvelope} {cause : MessageError}
    (hs : SignedEnvelope.decode bs = .ok signed)
    (hd : signed.envelope.destinationChain = ctx.chainId)
    (hv : signed.verify scheme validators quorum = .error cause) :
    Refused i bs (.invalidMessage i cause)

/-- The message at index `i` is the first of a list that fails. -/
structure FailsAt (messages : List Bytes) (i : Nat) (e : AdmissionError) : Prop where
  refused : ∃ bs, messages[i]? = some bs ∧ Refused scheme quorum ctx validators i bs e
  passes : ∀ j < i, ∀ bs, messages[j]? = some bs → Passes scheme quorum ctx validators bs

end

variable {scheme : SignatureScheme} {quorum : Quorum} {ctx : PredicateContext} {validators : CanonicalSet}
  {payload bs : Bytes} {messages messages' : List Bytes} {vs : List Validator} {i : Nat}
  {e : AdmissionError} {height : UInt64}

theorem checkMessage_eq_error_iff :
    checkMessage scheme quorum ctx validators i bs = .error e ↔
      Refused scheme quorum ctx validators i bs e := by
  unfold checkMessage
  constructor
  · intro h
    rcases Steps.bind_eq_error_iff.1 h with hread | ⟨signed, hs, h⟩
    · obtain ⟨cause, hs, rfl⟩ := Steps.mapError_eq_error_iff.1 hread
      exact .unreadable hs
    · rw [Steps.mapError_eq_ok_iff] at hs
      dsimp only at h
      split at h
      · next hd =>
        cases h
        exact .misdirected hs hd
      · next hd =>
        obtain ⟨cause, hv, rfl⟩ := Steps.mapError_eq_error_iff.1 h
        exact .unverified hs (Decidable.not_not.1 hd) hv
  · intro h
    cases h with
    | unreadable hs =>
      rw [hs]
      rfl
    | misdirected hs hd =>
      rw [hs, Steps.mapError_ok, Steps.ok_bind]
      exact if_pos hd
    | unverified hs hd hv =>
      rw [hs, Steps.mapError_ok, Steps.ok_bind]
      dsimp only
      rw [if_neg (not_not_intro hd), hv]
      rfl

/-! ### A list of messages -/

/-- What follows the first message that fails does not matter. -/
theorem FailsAt.of_take_eq (h : FailsAt scheme quorum ctx validators messages i e)
    (htake : messages'.take (i + 1) = messages.take (i + 1)) :
    FailsAt scheme quorum ctx validators messages' i e := by
  have hagree : ∀ j < i + 1, messages'[j]? = messages[j]? := by
    intro j hj
    rw [← List.getElem?_take_of_lt hj, htake, List.getElem?_take_of_lt hj]
  refine ⟨?_, fun j hj bs hbs => ?_⟩
  · rw [hagree i (Nat.lt_succ_self i)]
    exact h.refused
  · rw [hagree j (Nat.lt_succ_of_lt hj)] at hbs
    exact h.passes j hj bs hbs

theorem forM_checkMessage_eq_error_iff :
    (messages.zipIdx.forM fun (bs, i) => checkMessage scheme quorum ctx validators i bs) = .error e ↔
      ∃ i, FailsAt scheme quorum ctx validators messages i e := by
  rw [Steps.forM_eq_error_iff]
  constructor
  · rintro ⟨i, z, hz, he, hlt⟩
    obtain ⟨bs, hbs, rfl⟩ := Steps.getElem?_zipIdx_eq.1 hz
    refine ⟨i, ⟨bs, hbs, checkMessage_eq_error_iff.1 he⟩, fun j hj bs' hbs' => ?_⟩
    exact checkMessage_eq_ok_iff.1 (hlt j hj (bs', j) (Steps.getElem?_zipIdx_eq.2 ⟨bs', hbs', rfl⟩))
  · rintro ⟨i, ⟨bs, hbs, he⟩, hpasses⟩
    refine ⟨i, (bs, i), Steps.getElem?_zipIdx_eq.2 ⟨bs, hbs, rfl⟩, checkMessage_eq_error_iff.2 he, fun j hj z hz => ?_⟩
    obtain ⟨bs', hbs', rfl⟩ := Steps.getElem?_zipIdx_eq.1 hz
    exact checkMessage_eq_ok_iff.2 (hpasses j hj bs' hbs')

/-! ### The tests before the first message -/

theorem check_of_noProposer (hp : ctx.proposerHeight = none) :
    check scheme quorum ctx payload = .error .missingProposer := by
  unfold check
  rw [hp]
  rfl

theorem check_nil (hp : ctx.proposerHeight = some height) : check scheme quorum ctx [] = .ok () := by
  unfold check
  rw [hp]
  rfl

theorem check_of_ne_nil (hp : ctx.proposerHeight = some height) (hne : payload ≠ []) :
    check scheme quorum ctx payload = (do
      let messages ← (Predicate.decodeList payload).mapError .invalidSlots
      if messages.isEmpty then return
      let validators ← (CanonicalSet.atHeight ctx.validatorsAt height).mapError .validators
      messages.zipIdx.forM fun (bs, i) => checkMessage scheme quorum ctx validators i bs) := by
  unfold check
  rw [hp]
  exact if_neg (by simpa using hne)

theorem ne_nil_of_decodeList (hd : Predicate.decodeList payload = .ok messages) : payload ≠ [] := by
  rintro rfl
  rw [Predicate.decodeList_nil] at hd
  cases hd

theorem check_of_decodeList_nil (hp : ctx.proposerHeight = some height)
    (hd : Predicate.decodeList payload = .ok []) : check scheme quorum ctx payload = .ok () := by
  rw [check_of_ne_nil hp (ne_nil_of_decodeList hd), hd]
  rfl

theorem check_of_messages (hp : ctx.proposerHeight = some height)
    (hd : Predicate.decodeList payload = .ok messages) (hm : messages ≠ []) :
    check scheme quorum ctx payload = (do
      let validators ← (CanonicalSet.atHeight ctx.validatorsAt height).mapError .validators
      messages.zipIdx.forM fun (bs, i) => checkMessage scheme quorum ctx validators i bs) := by
  rw [check_of_ne_nil hp (ne_nil_of_decodeList hd), hd, Steps.mapError_ok, Steps.ok_bind]
  exact if_neg (by simpa using hm)

/-- With a canonical set at the height of the proposer, the messages decide. -/
theorem check_of_ofValidators (hp : ctx.proposerHeight = some height)
    (hv : ctx.validatorsAt height = .ok vs) (hvs : CanonicalSet.ofValidators vs = .ok validators)
    (hd : Predicate.decodeList payload = .ok messages) (hm : messages ≠ []) :
    check scheme quorum ctx payload =
      messages.zipIdx.forM fun (bs, i) => checkMessage scheme quorum ctx validators i bs := by
  rw [check_of_messages hp hd hm, CanonicalSet.atHeight, hv, Steps.ok_bind, hvs, Steps.mapError_ok,
    Steps.ok_bind]

/-! ### The whole check -/

/-- The tests of a payload, in their order. Without a proposer nothing else matters. With one, an empty payload passes,
a payload that is no list is refused, and a list without messages passes whatever the source of validators says. Only
then the validators are looked up, which may fail. Otherwise the payload passes exactly if every message does. If not,
the error is that of the first message that fails, for the first of its tests that fails, and every other payload that
agrees up to this message gets it as well. -/
theorem check_shortCircuits (scheme : SignatureScheme) (quorum : Quorum) (ctx : PredicateContext)
    (payload : Bytes) :
    (ctx.proposerHeight = none → check scheme quorum ctx payload = .error .missingProposer) ∧
    ∀ height, ctx.proposerHeight = some height →
      (payload = [] → check scheme quorum ctx payload = .ok ()) ∧
      (∀ cause, payload ≠ [] → Predicate.decodeList payload = .error cause →
        check scheme quorum ctx payload = .error (.invalidSlots cause)) ∧
      (Predicate.decodeList payload = .ok [] → ∀ source,
        check scheme quorum { ctx with validatorsAt := source } payload = .ok ()) ∧
      ∀ messages, Predicate.decodeList payload = .ok messages → messages ≠ [] →
        (∀ cause, ctx.validatorsAt height = .error cause →
          check scheme quorum ctx payload = .error (.validators cause)) ∧
        ∀ vs, ctx.validatorsAt height = .ok vs →
          (2 ^ 64 ≤ Validator.totalWeight vs →
            check scheme quorum ctx payload = .error (.validators .weightOverflow)) ∧
          (Validator.totalWeight vs < 2 ^ 64 → ∃ validators,
            CanonicalSet.ofValidators vs = .ok validators ∧
            (check scheme quorum ctx payload = .ok () ↔
              ∀ bs ∈ messages, Passes scheme quorum ctx validators bs) ∧
            (∀ e, check scheme quorum ctx payload = .error e ↔
              ∃ i, FailsAt scheme quorum ctx validators messages i e) ∧
            ∀ i e, FailsAt scheme quorum ctx validators messages i e → ∀ payload' messages',
              Predicate.decodeList payload' = .ok messages' →
              messages'.take (i + 1) = messages.take (i + 1) →
              check scheme quorum ctx payload' = .error e) := by
  refine ⟨check_of_noProposer, fun height hp => ⟨?_, ?_, ?_, fun messages hd hm => ⟨?_, ?_⟩⟩⟩
  · rintro rfl
    exact check_nil hp
  · intro cause hne hd
    rw [check_of_ne_nil hp hne, hd]
    rfl
  · intro hd source
    exact check_of_decodeList_nil hp hd
  · intro cause hv
    rw [check_of_messages hp hd hm, CanonicalSet.atHeight, hv]
    rfl
  intro vs hv
  refine ⟨fun hle => ?_, fun hlt => ?_⟩
  · rw [check_of_messages hp hd hm, CanonicalSet.atHeight, hv, Steps.ok_bind,
      CanonicalSet.ofValidators_eq_error_iff.2 ⟨hle, rfl⟩]
    rfl
  · obtain ⟨validators, hvs⟩ := CanonicalSet.exists_ofValidators hlt
    refine ⟨validators, hvs, ?_, fun e => ?_, fun i e he payload' messages' hd' htake => ?_⟩
    · rw [check_of_ofValidators hp hv hvs hd hm]
      exact forM_checkMessage_eq_ok_iff
    · rw [check_of_ofValidators hp hv hvs hd hm]
      exact forM_checkMessage_eq_error_iff
    · have he' := he.of_take_eq htake
      obtain ⟨bs, hbs, -⟩ := he'.refused
      have hm' : messages' ≠ [] := List.ne_nil_of_mem (List.mem_of_getElem? hbs)
      rw [check_of_ofValidators hp hv hvs hd' hm']
      exact forM_checkMessage_eq_error_iff.2 ⟨i, he'⟩

end Interchain.Admission
