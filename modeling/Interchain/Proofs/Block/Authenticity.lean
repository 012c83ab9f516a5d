import Interchain.Proofs.Block.Verdict
import Interchain.Proofs.Message.Admission
import Interchain.Proofs.Message.Quorum
import Interchain.Proofs.Precompile.Active
import Interchain.Proofs.Precompile.Reading
import Interchain.Proofs.TwoValidators

/-!
# What a contract can read is authentic

In a block whose predicates hold, a transaction reads only messages that it has brought along itself, in an envelope
for this chain that is signed by a quorum of the validators at the height which the proposer has pinned.

The way there: a verified payload was admitted and stands in the only item that names the messenger, an admission
has checked each of its envelopes, and what a call delivers stands in that payload. Who signed is meant as the
scheme of signatures means it; `MultiSignature.CarriesQuorum` says only how much weight the named signers have.
Nothing follows about the chains that the message inside names.
-/

namespace Interchain

/-! ### Envelopes that a transaction brings along -/

namespace BlockCheck

/-- An access list names the messenger once, and the payload there has this envelope at index `i`. -/
structure Brought (items : AccessList) (i : Nat) (signed : SignedEnvelope) : Prop where
  exists_item : ∃ item payload messages bs,
    items.filter (fun item => item.address = Messenger.address) = [item] ∧
    item.predicateBytes = .ok payload ∧ Predicate.decodeList payload = .ok messages ∧
    messages[i]? = some bs ∧ SignedEnvelope.decode bs = .ok signed

variable {registry : Registry} {config : ChainConfig} {scheme : SignatureScheme}
  {ctx : PredicateContext} {t : UInt64} {items : AccessList} {payloads : VerifiedPayloads}
  {payload : Bytes}

theorem predicateAt?_ofConfig {a : Address}
    {predicate : PredicateContext → Bytes → Except AdmissionError Unit}
    (h : Registry.ofConfig scheme config = .ok registry)
    (hp : predicateAt? registry config t a = some predicate) :
    a = Messenger.address ∧ predicate = Admission.check scheme config.quorum := by
  obtain ⟨p, hactive, hpredicate⟩ := Option.bind_eq_some_iff.1 hp
  obtain ⟨ha, rfl⟩ := Registry.active?_ofConfig h hactive
  exact ⟨ha, (Option.some.inj hpredicate).symm⟩

/-- A verified payload was admitted, and comes from the only item that names the messenger. -/
theorem admitted_of_verified (h : Registry.ofConfig scheme config = .ok registry)
    (hv : Verified registry config ctx t items payloads)
    (hp : payloads.get? Messenger.address = some payload) :
    ∃ item, items.filter (fun item => item.address = Messenger.address) = [item] ∧
      item.predicateBytes = .ok payload ∧
      Admission.check scheme config.quorum ctx payload = .ok () := by
  obtain ⟨item, predicate, hitem, hpredicate, hbytes, hok⟩ := hv.of_some _ _ hp
  obtain ⟨-, rfl⟩ := predicateAt?_ofConfig h hpredicate
  exact ⟨item, hitem, hbytes, hok⟩

/-- The payloads of a transaction in a block that passes. -/
theorem verified_of_check {transactions : List AccessList} {verified : List VerifiedPayloads} {k : Nat}
    (h : check registry config ctx t transactions = .ok verified)
    (hk : verified[k]? = some payloads) :
    ∃ items, transactions[k]? = some items ∧ Verified registry config ctx t items payloads := by
  obtain ⟨hlength, hall⟩ := check_eq_ok_iff.1 h
  have hlt : k < transactions.length := by
    rw [← hlength]
    exact (List.getElem?_eq_some_iff.1 hk).1
  have hitems := List.getElem?_eq_getElem hlt
  obtain ⟨payloads', hk', hcheck⟩ := hall k _ hitems
  obtain rfl : payloads = payloads' := Option.some.inj (hk.symm.trans hk')
  exact ⟨_, hitems, checkItems_verified (checkTransaction_eq_ok_iff.1 hcheck)⟩

end BlockCheck

/-! ### Signers -/

/-- The bits name entries of the canonical set, no byte is wasted, and the entries carry a quorum of the weight of all
validators. -/
structure MultiSignature.CarriesQuorum (quorum : Quorum) (vs : List Validator) (set : CanonicalSet)
    (signers : SignerSet) : Prop where
  minimal : signers.bytes.getLast? ≠ some 0
  known : ∀ j, signers.contains j = true → j < set.validators.length
  weight : Validator.totalWeight vs * quorum.numerator.toNat ≤
    signedWeight vs set signers * quorum.denominator.toNat

theorem SignedEnvelope.carriesQuorum_of_verify {scheme : SignatureScheme} {signed : SignedEnvelope}
    {vs : List Validator} {set : CanonicalSet} {quorum : Quorum}
    (hset : CanonicalSet.ofValidators vs = .ok set)
    (h : signed.verify scheme set quorum = .ok ()) :
    MultiSignature.CarriesQuorum quorum vs set signed.signature.signers := by
  obtain ⟨encoded, -, hv⟩ := SignedEnvelope.verify_eq_ok_iff.1 h
  obtain ⟨-, hlast, hlt, -, hweight, -⟩ :=
    (MultiSignature.verify_eq_ok_iff (CanonicalSet.ofValidators_summarizes hset)).1 hv
  exact ⟨hlast, hlt, hweight⟩

/-! ### Reading in a block -/

namespace Registry

variable {registry : Registry} {config : ChainConfig} {scheme : SignatureScheme}
  {env : Environment} {c : Call} {action : CallM CallOutput} {s rest : Overlay} {out : CallOutput}
  {i : Word}

/-- A message that the messenger delivers stands in the payload that is attached for it. -/
theorem delivered_of_run (h : ofConfig scheme config = .ok registry)
    (hinput : c.input = Messenger.packGetMessage i)
    (hrun : registry.run config env c = some action) (hok : action.run s = (.ok out, rest)) :
    ∃ payload messages bs signed m, s.attached.get? Messenger.address = some payload ∧
      Predicate.decodeList payload = .ok messages ∧ messages[i.toNat]? = some bs ∧
      SignedEnvelope.decode bs = .ok signed ∧ Message.decode signed.envelope.payload = .ok m ∧
      out.output = Messenger.encodeMessage m true := by
  obtain ⟨p, hactive, rfl⟩ := run_eq_some_iff.1 hrun
  obtain ⟨-, rfl⟩ := active?_ofConfig h hactive
  exact (Messenger.delivered_of_run .standard env hinput hok).2

/-- In a block whose predicates hold, a transaction with its verified payloads in place gets only messages that it has
brought along itself: their envelope is for this chain, and is signed by a quorum of the validators at the height that
the proposer has pinned. -/
theorem run_getMessage_authentic {ctx : PredicateContext} {transactions : List AccessList}
    {verified : List VerifiedPayloads} {k : Nat} {payloads : VerifiedPayloads}
    (h : ofConfig scheme config = .ok registry)
    (hcheck : BlockCheck.check registry config ctx env.block.timestamp transactions = .ok verified)
    (hk : verified[k]? = some payloads) (hinput : c.input = Messenger.packGetMessage i)
    (hrun : registry.run config env c = some action)
    (hok : action.run (s.attach payloads) = (.ok out, rest)) :
    ∃ items signed height vs set m, transactions[k]? = some items ∧
      BlockCheck.Brought items i.toNat signed ∧ ctx.proposerHeight = some height ∧
      signed.envelope.destinationChain = ctx.chainId ∧
      ctx.validatorsAt height = .ok vs ∧ CanonicalSet.ofValidators vs = .ok set ∧
      MultiSignature.CarriesQuorum config.quorum vs set signed.signature.signers ∧
      signed.verify scheme set config.quorum = .ok () ∧
      Message.decode signed.envelope.payload = .ok m ∧ out.output = Messenger.encodeMessage m true := by
  -- what the call has read
  obtain ⟨payload, messages, bs, signed, m, hp, hd, hb, hs, hm, hout⟩ :=
    delivered_of_run h hinput hrun hok
  -- where it comes from, and what was checked of it
  obtain ⟨items, hitems, hverified⟩ := BlockCheck.verified_of_check hcheck hk
  obtain ⟨item, hitem, hbytes, hadmitted⟩ := BlockCheck.admitted_of_verified h hverified hp
  rw [← Admission.admitted_eq hd] at hb
  obtain ⟨height, set, signed', hheight, hset, hs', haccepted⟩ :=
    Admission.accepted_of_check hadmitted hb
  obtain rfl : signed = signed' := Except.ok.inj (hs.symm.trans hs')
  obtain ⟨vs, hvs, hset⟩ := CanonicalSet.atHeight_eq_ok_iff.1 hset
  rw [Admission.admitted_eq hd] at hb
  exact ⟨items, signed, height, vs, set, m, hitems,
    ⟨item, payload, messages, bs, hitem, hbytes, hd, hb, hs⟩, hheight, haccepted.destination, hvs,
    hset, SignedEnvelope.carriesQuorum_of_verify hset haccepted.verified, haccepted.verified, hm, hout⟩

/-- The message that the second of two validators has signed. -/
theorem run_getMessage_attachment :
    ofConfig TwoValidators.scheme TwoValidators.config = .ok TwoValidators.registry ∧
    BlockCheck.check TwoValidators.registry TwoValidators.config TwoValidators.context 10
      [TwoValidators.accessList] = .ok [TwoValidators.payloads] ∧
    (((Messenger.precompile TwoValidators.scheme .standard TwoValidators.quorum).run
      TwoValidators.environment (TwoValidators.call 0)).run
      ((TwoValidators.stateWith []).attach TwoValidators.payloads)).1 =
        .ok ⟨Messenger.encodeMessage TwoValidators.message true, 99000⟩ ∧
    ∃ signed vs set, BlockCheck.Brought TwoValidators.accessList 0 signed ∧
      TwoValidators.context.validatorsAt 42 = .ok vs ∧ CanonicalSet.ofValidators vs = .ok set ∧
      MultiSignature.CarriesQuorum TwoValidators.quorum vs set signed.signature.signers := by
  have h : ofConfig TwoValidators.scheme TwoValidators.config = .ok TwoValidators.registry := rfl
  have hcheck : BlockCheck.check TwoValidators.registry TwoValidators.config TwoValidators.context 10
      [TwoValidators.accessList] = .ok [TwoValidators.payloads] := by
    decide +kernel
  have hok : (((Messenger.precompile TwoValidators.scheme .standard TwoValidators.quorum).run
      TwoValidators.environment (TwoValidators.call 0)).run
      ((TwoValidators.stateWith []).attach TwoValidators.payloads)).1 =
        .ok ⟨Messenger.encodeMessage TwoValidators.message true, 99000⟩ := by
    decide +kernel
  have hget : TwoValidators.registry.get? Messenger.address =
      some (Messenger.precompile TwoValidators.scheme .standard TwoValidators.quorum) :=
    (get?_ofConfig h).trans (if_pos rfl)
  have henabled : TwoValidators.config.isEnabled BuiltIn.warpMessenger.key 10 = true := by
    decide +kernel
  have hactive : TwoValidators.registry.active? TwoValidators.config Messenger.address 10 =
      some (Messenger.precompile TwoValidators.scheme .standard TwoValidators.quorum) :=
    active?_eq_some_iff.2 ⟨hget, henabled⟩
  have hrun : TwoValidators.registry.run TwoValidators.config TwoValidators.environment
      (TwoValidators.call 0) =
      some ((Messenger.precompile TwoValidators.scheme .standard TwoValidators.quorum).run
        TwoValidators.environment (TwoValidators.call 0)) :=
    run_eq_some_iff.2 ⟨_, hactive, rfl⟩
  obtain ⟨rest, hrest⟩ := CallM.exists_run_eq hok
  obtain ⟨items, signed, height, vs, set, m, hitems, hbrought, hheight, -, hvs, hset, hquorum, -⟩ :=
    run_getMessage_authentic h hcheck (List.getElem?_cons_zero ..) rfl hrun hrest
  cases hitems
  cases hheight
  exact ⟨h, hcheck, hok, signed, vs, set, hbrought, hvs, hset, hquorum⟩

end Registry

end Interchain
