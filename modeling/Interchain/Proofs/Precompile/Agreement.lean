import Interchain.Proofs.Message.Admission
import Interchain.Proofs.Precompile.Reading
import Interchain.Proofs.TwoValidators
import Mathlib.Control.Monad.Basic

/-!
# Admission and reading agree

The payload that a transaction attaches is read twice: when the transaction is admitted, and when a contract asks
for a message. Both find the same messages, with one exception: an empty payload brings in no messages when it is
admitted, and is no list when it is read.

* `Messenger.readingCost`: the gas for reading a message, so that a call is known to have enough.
* `Messenger.Answers`: the answers that fit the messages of an admitted payload. A message that is itself malformed is
  one of the cases, since an admission does not look at it.
* `Messenger.read_answers`: reading answers so if the payload is a list whose envelopes are well-formed.
* `Messenger.answers_iff_attached_ne_nil`: a call answers so exactly if the admitted payload is not empty.

`Messenger.read_of_empty_attachment` is the exception at work.
-/

namespace Interchain.Messenger

/-! ### Answers -/

/-- How many have signed a message, as far as its envelope can be read. -/
def signerCount (bs : Bytes) : Nat :=
  ((SignedEnvelope.decode bs).toOption.map (·.signature.signers.count)).getD 0

/-- The gas for reading the message at an index. There is no surcharge where no message stands. -/
def readingCost (costs : GasCosts) (messages : List Bytes) (i : Word) : Nat :=
  costs.getMessage.toNat + costs.perSigner.toNat * (messages[i.toNat]?.map signerCount).getD 0

/-- The answers to a call for the message at index `i`, with the gas that is left. -/
inductive Answers (messages : List Bytes) (i : Word) (rest : UInt64) :
    Except CallFailure CallOutput → Prop where
  | outOfRange (h : messages.length ≤ i.toNat) :
    Answers messages i rest (.error ⟨.invalidMessageIndex i, rest⟩)
  | delivered {bs : Bytes} {signed : SignedEnvelope} {m : Message}
    (hb : messages[i.toNat]? = some bs) (hs : SignedEnvelope.decode bs = .ok signed)
    (hm : Message.decode signed.envelope.payload = .ok m) :
    Answers messages i rest (.ok ⟨encodeMessage m true, rest⟩)
  | unreadable {bs : Bytes} {signed : SignedEnvelope} {e : MessageError}
    (hb : messages[i.toNat]? = some bs) (hs : SignedEnvelope.decode bs = .ok signed)
    (hm : Message.decode signed.envelope.payload = .error e) :
    Answers messages i rest (.error ⟨.message e, rest⟩)

variable {costs : GasCosts} {c : Call} {i : Word} {messages : List Bytes} {payload bs : Bytes}
  {rest : UInt64}

theorem readingCost_of_none (h : messages[i.toNat]? = none) :
    readingCost costs messages i = costs.getMessage.toNat := by
  rw [readingCost, h]
  rfl

theorem readingCost_of_some {signed : SignedEnvelope} (h : messages[i.toNat]? = some bs)
    (hs : SignedEnvelope.decode bs = .ok signed) :
    readingCost costs messages i =
      costs.getMessage.toNat + costs.perSigner.toNat * signed.signature.signers.count := by
  rw [readingCost, h, Option.map_some, signerCount, hs]
  rfl

theorem getMessage_le_readingCost : costs.getMessage.toNat ≤ readingCost costs messages i :=
  Nat.le_add_right _ _

/-! ### Reading -/

theorem not_length_ne_wordSize (hi : c.input = i.toBytes) : ¬ c.input.length ≠ Abi.wordSize := by
  rw [hi, Word.length_toBytes]
  exact fun h => h rfl

theorem read_of_decodeList (hi : c.input = i.toBytes)
    (hd : Predicate.decodeList payload = .ok messages) :
    read costs (some payload) c =
      match messages[i.toNat]? with
      | none => .error ⟨.invalidMessageIndex i, c.gas⟩
      | some bs => readMessage costs c bs := by
  have hindex : BitVec.ofNat 256 i.toNat = i := by
    rw [BitVec.ofNat_toNat, BitVec.setWidth_eq]
  rw [read, if_neg (not_length_ne_wordSize hi), hi, toNat_toBytes]
  simp only [Option.elim_some, Steps.ok_bind, hd, Steps.mapError_ok, hindex]
  cases messages[i.toNat]? with
  | none => rfl
  | some bs => rfl

/-- The empty payload is no list, so there is nothing to read an index in. -/
theorem read_nil (hi : c.input = i.toBytes) :
    read costs (some []) c = .error ⟨.invalidPredicateData (.rlp .expectedList), c.gas⟩ := by
  rw [read, if_neg (not_length_ne_wordSize hi)]
  rfl

/-- With enough gas, a message whose envelope is well-formed is delivered, unless it is itself malformed. -/
theorem readMessage_answers (hb : messages[i.toNat]? = some bs) {signed : SignedEnvelope}
    (hs : SignedEnvelope.decode bs = .ok signed)
    (hgas : costs.perSigner.toNat * signed.signature.signers.count ≤ c.gas.toNat) :
    ∃ rest, rest.toNat + costs.perSigner.toNat * signed.signature.signers.count = c.gas.toNat ∧
      Answers messages i rest (readMessage costs c bs) := by
  obtain ⟨surcharge, hsur, hcost⟩ := exists_surcharge (Nat.lt_of_le_of_lt hgas c.gas.toNat_lt)
  obtain ⟨rest, hrest, hleft⟩ := exists_charge (hcost ▸ hgas)
  refine ⟨rest, hcost ▸ hleft, ?_⟩
  have hread : readMessage costs c bs =
      ((Message.decode signed.envelope.payload).mapError (fun e => ⟨.message e, rest⟩) >>=
        fun m => pure ⟨encodeMessage m true, rest⟩) := by
    simp only [readMessage, hs, Steps.mapError_ok, Steps.ok_bind, hsur, hrest, Option.elim_some]
  rw [hread]
  cases hm : Message.decode signed.envelope.payload with
  | ok m => exact .delivered hb hs hm
  | error e => exact .unreadable hb hs hm

/-- Reading a list whose envelopes are well-formed fails for no reason but the index or the message itself. The call has
paid its base cost before. -/
theorem read_answers (hi : c.input = i.toBytes) (hd : Predicate.decodeList payload = .ok messages)
    (hs : ∀ bs ∈ messages, ∃ signed, SignedEnvelope.decode bs = .ok signed)
    (hgas : readingCost costs messages i ≤ costs.getMessage.toNat + c.gas.toNat) :
    ∃ rest result, rest.toNat + readingCost costs messages i = costs.getMessage.toNat + c.gas.toNat ∧
      read costs (some payload) c = result ∧ Answers messages i rest result := by
  rw [read_of_decodeList hi hd]
  cases hb : messages[i.toNat]? with
  | none =>
    refine ⟨c.gas, _, ?_, rfl, .outOfRange (List.getElem?_eq_none_iff.1 hb)⟩
    rw [readingCost_of_none hb, Nat.add_comm]
  | some bs =>
    obtain ⟨signed, hs⟩ := hs bs (List.mem_of_getElem? hb)
    rw [readingCost_of_some hb hs] at hgas ⊢
    obtain ⟨rest, hrest, hanswers⟩ := readMessage_answers hb hs (Nat.le_of_add_le_add_left hgas)
    exact ⟨rest, _, by omega, rfl, hanswers⟩

/-! ### Calls after an admission -/

variable {ctx : PredicateContext} {s : Overlay}

/-- A call with enough gas for its base cost reads with the gas that this leaves. -/
theorem run_packGetMessage_of_le (scheme : SignatureScheme) (quorum : Quorum) (env : Environment)
    (s : Overlay) (hinput : c.input = packGetMessage i) (hmut : c.readOnly = false)
    (hgas : costs.getMessage.toNat ≤ c.gas.toNat) :
    ∃ gas, gas.toNat + costs.getMessage.toNat = c.gas.toNat ∧
      ((precompile scheme costs quorum).run env c).run s =
        (read costs (s.attached.get? address) { c with input := i.toBytes, gas }, s) := by
  obtain ⟨gas, hcharge, hleft⟩ := exists_charge hgas
  refine ⟨gas, hleft, ?_⟩
  show ((table costs).dispatch env c).run s = _
  rw [run_packGetMessage hinput, hcharge, hmut]
  rfl

/-- After an admission, a call with enough gas answers from the messages of the payload exactly if the payload is not
empty. An empty payload is admitted without messages, but then the call says that it is no list. -/
theorem answers_iff_attached_ne_nil (scheme : SignatureScheme) (quorum : Quorum) (env : Environment)
    (hadmitted : Admission.check scheme quorum ctx payload = .ok ())
    (hattached : s.attached.get? address = some payload)
    (hinput : c.input = packGetMessage i) (hmut : c.readOnly = false)
    (hgas : readingCost costs (Admission.admitted payload) i ≤ c.gas.toNat) :
    ∃ rest result,
      rest.toNat + readingCost costs (Admission.admitted payload) i = c.gas.toNat ∧
      ((precompile scheme costs quorum).run env c).run s = (result, s) ∧
      (Answers (Admission.admitted payload) i rest result ↔ payload ≠ []) ∧
      (payload = [] → result = .error ⟨.invalidPredicateData (.rlp .expectedList), rest⟩) := by
  obtain ⟨gas, hleft, hrun⟩ := run_packGetMessage_of_le scheme quorum env s hinput hmut
    (Nat.le_trans getMessage_le_readingCost hgas)
  rw [hattached] at hrun
  obtain ⟨height, -, hlist, hmessages⟩ := Admission.check_eq_ok_iff.1 hadmitted
  by_cases hp : payload = []
  · subst hp
    rw [read_nil (c := { c with input := i.toBytes, gas }) (i := i) rfl] at hrun
    refine ⟨gas, _, ?_, hrun, ?_, fun _ => rfl⟩
    · rw [readingCost_of_none rfl]
      exact hleft
    · exact ⟨nofun, fun h => absurd rfl h⟩
  · obtain ⟨messages, hd⟩ := hlist hp
    rw [Admission.admitted_eq hd] at hgas hmessages ⊢
    have hsigned : ∀ bs ∈ messages, ∃ signed, SignedEnvelope.decode bs = .ok signed := by
      intro bs hbs
      obtain ⟨validators, -, h⟩ := hmessages (List.ne_nil_of_mem hbs)
      obtain ⟨signed, hs, -⟩ := h bs hbs
      exact ⟨signed, hs⟩
    have hpaid : readingCost costs messages i ≤ costs.getMessage.toNat + gas.toNat := by omega
    obtain ⟨rest, result, hrest, hread, hanswers⟩ :=
      read_answers (c := { c with input := i.toBytes, gas }) rfl hd hsigned hpaid
    rw [hread] at hrun
    refine ⟨rest, result, ?_, hrun, ⟨fun _ => hp, fun _ => hanswers⟩, fun h => absurd h hp⟩
    show rest.toNat + readingCost costs messages i = c.gas.toNat
    rw [hrest, ← hleft, Nat.add_comm]

/-- The message that the second of two validators has signed. -/
theorem answers_of_attachment :
    Admission.check TwoValidators.scheme TwoValidators.quorum TwoValidators.context
      TwoValidators.attachment = .ok () ∧
    ∃ rest result,
      rest.toNat + readingCost .standard (Admission.admitted TwoValidators.attachment) 0 =
        (TwoValidators.call 0).gas.toNat ∧
      ((precompile TwoValidators.scheme .standard TwoValidators.quorum).run TwoValidators.environment
        (TwoValidators.call 0)).run (TwoValidators.stateWith TwoValidators.attachment) =
        (result, TwoValidators.stateWith TwoValidators.attachment) ∧
      (Answers (Admission.admitted TwoValidators.attachment) 0 rest result ↔
        TwoValidators.attachment ≠ []) ∧
      (TwoValidators.attachment = [] →
        result = .error ⟨.invalidPredicateData (.rlp .expectedList), rest⟩) := by
  have hadmitted : Admission.check TwoValidators.scheme TwoValidators.quorum TwoValidators.context
      TwoValidators.attachment = .ok () := by
    decide +kernel
  have hgas : readingCost .standard (Admission.admitted TwoValidators.attachment) 0 ≤
      (TwoValidators.call 0).gas.toNat := by
    decide +kernel
  exact ⟨hadmitted, answers_iff_attached_ne_nil _ _ _ hadmitted
    (TwoValidators.get?_attached_stateWith _) rfl rfl hgas⟩

/-- An empty payload brings in no message, so that every index is out of range; but the call does not say so. -/
theorem read_of_empty_attachment :
    Admission.check TwoValidators.scheme TwoValidators.quorum TwoValidators.context [] = .ok () ∧
    (Admission.admitted []).length ≤ (0 : Word).toNat ∧
    (((precompile TwoValidators.scheme .standard TwoValidators.quorum).run TwoValidators.environment
      (TwoValidators.call 0)).run (TwoValidators.stateWith [])).1 =
        .error ⟨.invalidPredicateData (.rlp .expectedList), 100000⟩ := by
  refine ⟨rfl, Nat.le_refl 0, ?_⟩
  decide +kernel

end Interchain.Messenger
