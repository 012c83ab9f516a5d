import Interchain.Proofs.Precompile.Delivery

/-!
# The chains of a message and of its envelope

A message names the chain that has emitted it and the chain for which it is, and so does the envelope in which it
travels. An admission looks at the envelope alone, and reading looks at neither.

So a message that is delivered belongs to this chain exactly if it agrees with its envelope, and it is delivered in
any case. The last theorem has validators sign an envelope for their own chain around a message between two others,
which a contract then gets as verified.
-/

namespace Interchain

/-- A message names the same chains as the envelope around it. -/
structure Envelope.Agrees (e : Envelope) (m : Message) : Prop where
  origin : m.originChain = e.sourceChain
  destination : m.destinationChain = e.destinationChain

namespace Messenger

/-- A message is for the chain with this identifier, and from the chain that its envelope names. -/
structure Belongs (chainId : Hash32) (e : Envelope) (m : Message) : Prop where
  destination : m.destinationChain = chainId
  origin : m.originChain = e.sourceChain

theorem belongs_iff_agrees {chainId : Hash32} {e : Envelope} {m : Message}
    (h : e.destinationChain = chainId) : Belongs chainId e m ↔ e.Agrees m := by
  subst h
  exact ⟨fun hb => ⟨hb.origin, hb.destination⟩, fun ha => ⟨ha.destination, ha.origin⟩⟩

variable {ctx : PredicateContext} {s : Overlay} {payload : Bytes}

/-- After an admission, a message that a call delivers belongs to this chain exactly if it agrees with its envelope. But
nothing asks for the agreement: whatever chains a message names, a call that is ready to read it delivers it. -/
theorem delivered_belongs_iff_agrees (scheme : SignatureScheme) (costs : GasCosts) (quorum : Quorum)
    (env : Environment)
    (hadmitted : Admission.check scheme quorum ctx payload = .ok ())
    (hchain : ctx.chainId = env.chain.chainId)
    (hattached : s.attached.get? address = some payload) :
    (∀ c i out t, c.input = packGetMessage i →
      ((precompile scheme costs quorum).run env c).run s = (.ok out, t) →
      ∃ bs signed m, (Admission.admitted payload)[i.toNat]? = some bs ∧
        SignedEnvelope.decode bs = .ok signed ∧ Message.decode signed.envelope.payload = .ok m ∧
        unpackMessage out.output = some (m, true) ∧
        signed.envelope.destinationChain = env.chain.chainId ∧
        (Belongs env.chain.chainId signed.envelope m ↔ signed.envelope.Agrees m)) ∧
    ∀ c i bs signed m, (Admission.admitted payload)[i.toNat]? = some bs →
      SignedEnvelope.decode bs = .ok signed → Message.decode signed.envelope.payload = .ok m →
      ReadyToRead costs c s payload i signed.signature.signers.count →
      ∃ out, ((precompile scheme costs quorum).run env c).run s = (.ok out, s) ∧
        unpackMessage out.output = some (m, true) := by
  constructor
  · intro c i out t hinput hrun
    obtain ⟨-, payload', messages, bs, signed, m, hp, hd, hb, hs, hm, hout⟩ :=
      delivered_of_run costs env hinput hrun
    obtain rfl : payload = payload' := Option.some.inj (hattached.symm.trans hp)
    rw [← Admission.admitted_eq hd] at hb
    obtain ⟨_, _, signed', -, -, hs', haccepted⟩ := Admission.accepted_of_check hadmitted hb
    obtain rfl : signed = signed' := Except.ok.inj (hs.symm.trans hs')
    have hdestination := haccepted.destination.trans hchain
    refine ⟨bs, signed, m, hb, hs, hm, ?_, hdestination, belongs_iff_agrees hdestination⟩
    rw [hout]
    exact unpackMessage_of_decode hm
  · intro c i bs signed m hb hs hm hready
    -- an empty payload brings in no message, so this one is a list
    have hne : payload ≠ [] := by
      rintro rfl
      exact nomatch hb
    obtain ⟨-, -, hlist, -⟩ := Admission.check_eq_ok_iff.1 hadmitted
    obtain ⟨messages, hd⟩ := hlist hne
    rw [Admission.admitted_eq hd] at hb
    obtain ⟨rest, -, hrun⟩ := run_of_readyToRead scheme quorum env hready hd hb hs hm
    exact ⟨_, hrun, unpackMessage_of_decode hm⟩

/-- The message that the second of two validators has signed. -/
theorem delivered_belongs_attachment :
    Admission.check TwoValidators.scheme TwoValidators.quorum TwoValidators.context
      TwoValidators.attachment = .ok () ∧
    ∃ out signed, ((precompile TwoValidators.scheme .standard TwoValidators.quorum).run
        TwoValidators.environment (TwoValidators.call 0)).run
        (TwoValidators.stateWith TwoValidators.attachment) =
        (.ok out, TwoValidators.stateWith TwoValidators.attachment) ∧
      unpackMessage out.output = some (TwoValidators.message, true) ∧
      (Admission.admitted TwoValidators.attachment)[0]?.map SignedEnvelope.decode = some (.ok signed) ∧
      (Belongs TwoValidators.chain.chainId signed.envelope TwoValidators.message ↔
        signed.envelope.Agrees TwoValidators.message) := by
  have hadmitted : Admission.check TwoValidators.scheme TwoValidators.quorum TwoValidators.context
      TwoValidators.attachment = .ok () := by
    decide +kernel
  have hmessage : (Admission.admitted TwoValidators.attachment)[(0 : Word).toNat]? =
      some TwoValidators.wire := by
    decide +kernel
  have hsigned : SignedEnvelope.decode TwoValidators.wire = .ok TwoValidators.signed := by
    decide +kernel
  have hdecode : Message.decode TwoValidators.signed.envelope.payload = .ok TwoValidators.message := by
    decide +kernel
  obtain ⟨hbelongs, hdelivers⟩ := delivered_belongs_iff_agrees TwoValidators.scheme .standard
    TwoValidators.quorum TwoValidators.environment hadmitted rfl
    (TwoValidators.get?_attached_stateWith TwoValidators.attachment)
  have hready : ReadyToRead .standard (TwoValidators.call 0)
      (TwoValidators.stateWith TwoValidators.attachment) TwoValidators.attachment 0
      TwoValidators.signed.signature.signers.count :=
    ⟨rfl, TwoValidators.get?_attached_stateWith _, rfl, by decide⟩
  obtain ⟨out, hrun, hout⟩ := hdelivers _ _ _ _ _ hmessage hsigned hdecode hready
  obtain ⟨bs, signed, m, hb, hs, -, hout', -, hiff⟩ := hbelongs _ _ _ _ rfl hrun
  cases hout.symm.trans hout'
  refine ⟨hadmitted, out, signed, hrun, hout, ?_, hiff⟩
  exact (congrArg _ hb).trans (congrArg some hs)

/-- The second of two validators has signed an envelope for its own chain around a message between two others. The
message is delivered. -/
theorem delivers_foreignMessage :
    Admission.check TwoValidators.foreignScheme TwoValidators.quorum TwoValidators.context
      TwoValidators.foreignAttachment = .ok () ∧
    TwoValidators.context.chainId = TwoValidators.environment.chain.chainId ∧
    Admission.admitted TwoValidators.foreignAttachment = [TwoValidators.foreignWire] ∧
    SignedEnvelope.decode TwoValidators.foreignWire = .ok TwoValidators.foreignSigned ∧
    (((precompile TwoValidators.foreignScheme .standard TwoValidators.quorum).run
      TwoValidators.environment (TwoValidators.call 0)).run
      (TwoValidators.stateWith TwoValidators.foreignAttachment)).1 =
        .ok ⟨encodeMessage TwoValidators.foreignMessage true, 99000⟩ ∧
    unpackMessage (encodeMessage TwoValidators.foreignMessage true) =
      some (TwoValidators.foreignMessage, true) ∧
    TwoValidators.foreignMessage.destinationChain ≠ TwoValidators.environment.chain.chainId ∧
    TwoValidators.foreignMessage.originChain ≠ TwoValidators.foreignSigned.envelope.sourceChain := by
  have hadmitted : Admission.check TwoValidators.foreignScheme TwoValidators.quorum
      TwoValidators.context TwoValidators.foreignAttachment = .ok () := by
    decide +kernel
  have hmessages : Admission.admitted TwoValidators.foreignAttachment = [TwoValidators.foreignWire] := by
    decide +kernel
  have hsigned : SignedEnvelope.decode TwoValidators.foreignWire = .ok TwoValidators.foreignSigned := by
    decide +kernel
  have hmessage : Message.decode TwoValidators.foreignSigned.envelope.payload =
      .ok TwoValidators.foreignMessage := by
    decide +kernel
  have hdelivered : (((precompile TwoValidators.foreignScheme .standard TwoValidators.quorum).run
      TwoValidators.environment (TwoValidators.call 0)).run
      (TwoValidators.stateWith TwoValidators.foreignAttachment)).1 =
        .ok ⟨encodeMessage TwoValidators.foreignMessage true, 99000⟩ := by
    decide +kernel
  exact ⟨hadmitted, rfl, hmessages, hsigned, hdelivered, unpackMessage_of_decode hmessage, by decide,
    by decide⟩

end Messenger

end Interchain
