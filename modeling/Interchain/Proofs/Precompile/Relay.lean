import Interchain.Proofs.AccessList.Lists
import Interchain.Proofs.Precompile.Delivery
import Interchain.Proofs.Precompile.Effects

/-!
# From one chain to another

A message leaves a chain as a log. Validators sign it in an envelope, somebody puts the signed envelope into the
access list of a transaction of another chain, and a contract there asks the messenger for it. It arrives as it was
sent, through all encodings on the way.

`Messenger.Brings` says for a list of byte strings that the messenger delivers a message of it, however the list is
brought along. It does so if both the signed envelope and the message in it are well-formed, and by
`Messenger.relay_roundTrip` each message that is sent has such an envelope, whoever signs it. Whether the
transaction is admitted is a matter of signatures and quorums, and not part of this.
-/

namespace Interchain.Messenger

variable {costs : GasCosts} {quorum : Quorum} {env : Environment} {c : Call} {s t : Overlay}
  {out : CallOutput} {args bs : Bytes} {m : Message} {signature : MultiSignature}
  {messages : List Bytes} {i : Word}

/-! ### Leaving -/

/-- The signed envelope around the message in a log. -/
def relayed (m : Message) (log : Log) (signature : MultiSignature) : SignedEnvelope :=
  ⟨⟨m.originChain, m.destinationChain, log.data⟩, signature⟩

/-- A call that succeeds has composed a message and added its log. -/
theorem sent_of_run_eq_ok (scheme : SignatureScheme)
    (hinput : c.input = (Selector.ofSignature sendMessageSignature).bytes ++ args)
    (hsend : ((precompile scheme costs quorum).run env c).run s = (.ok out, t)) :
    ∃ gas m, compose env { c with input := args, gas } = .ok m ∧ t = s.addLog (sentLog m) := by
  obtain ⟨hselects, hdrop⟩ := selectsSend_of_input hinput
  have h := run_effect scheme costs quorum env c s
  rw [hsend] at h
  cases h with
  | unchanged hanswer _ =>
    rw [hselects] at hanswer
    cases hanswer
  | @sent m _ hm =>
    refine ⟨c.gas, m, ?_, rfl⟩
    rw [← hdrop]
    exact compose_eq_ok_iff_sentBy.2 ⟨hm.sentBy, hm.length_le⟩

theorem unpackLog_sentLog (h : m.payload.length ≤ Message.maxPayload) :
    unpackLog (sentLog m) = some m := by
  have htopic : ((sentLog m).address = address && (sentLog m).topics.head? = some sentTopic) = true := by
    simp [sentLog]
  rw [unpackLog, if_pos htopic]
  show (Message.decode m.wire).toOption = some m
  rw [decode_wire_of_length_le h]
  rfl

/-- The largest payload that can be sent still fits into every field around it. -/
theorem encode_relayed (signature : MultiSignature) (hm : m.payload.length ≤ Message.maxPayload)
    (hsigners : signature.signers.bytes.length ≤ Wire.maxFieldSize) :
    (relayed m (sentLog m) signature).encode = .ok (relayed m (sentLog m) signature).wire :=
  SignedEnvelope.encode_eq_ok_iff.2 ⟨⟨wire_fits_iff.2 hm, hsigners⟩, rfl⟩

/-! ### Arriving -/

/-- However a list of byte strings is brought along, it is found again in the access list, and each call that is ready
to read at the index is answered with the message. -/
def Brings (messages : List Bytes) (i : Word) (signers : Nat) (m : Message) : Prop :=
  ∀ before after a, (AccessList.encode (AccessList.carrier before after a messages)).length < 2 ^ 64 →
    ∃ items item payload,
      AccessList.decode (AccessList.encode (AccessList.carrier before after a messages)) = .ok items ∧
      items[before.length]? = some item ∧ item.predicateBytes = .ok payload ∧
      ∀ scheme costs quorum env c s, ReadyToRead costs c s payload i signers →
        ∃ out, ((precompile scheme costs quorum).run env c).run s = (.ok out, s) ∧
          unpackMessage out.output = some (m, true)

/-- A message whose signed envelope is well-formed, and which is itself well-formed, is delivered. -/
theorem brings_of_decode {signed : SignedEnvelope} (hb : messages[i.toNat]? = some bs)
    (hs : SignedEnvelope.decode bs = .ok signed) (hm : Message.decode signed.envelope.payload = .ok m) :
    Brings messages i signed.signature.signers.count m := by
  intro before after a hsize
  refine ⟨_, _, _, AccessList.decode_encode hsize, AccessList.getElem?_carrier,
    AccessItem.predicateBytes_withPredicate a _, ?_⟩
  intro scheme costs quorum env c s hready
  obtain ⟨rest, -, hrun⟩ := run_of_readyToRead scheme quorum env hready
    (AccessList.decodeList_carrier hsize) hb hs hm
  exact ⟨⟨encodeMessage m true, rest⟩, hrun, unpackMessage_of_decode hm⟩

/-- A message that is sent can be relayed: whoever signs it, it fits into a signed envelope, and wherever the envelope
stands in a list that is brought along, the messenger delivers the message as it was sent. -/
theorem relay_roundTrip (scheme : SignatureScheme) (signature : MultiSignature)
    (hinput : c.input = (Selector.ofSignature sendMessageSignature).bytes ++ args)
    (hsend : ((precompile scheme costs quorum).run env c).run s = (.ok out, t))
    (hsigners : signature.signers.bytes.length ≤ Wire.maxFieldSize) :
    ∃ log m bs, t = s.addLog log ∧ unpackLog log = some m ∧
      m.originChain = env.chain.chainId ∧ m.sender = c.caller.leftPad ∧
      (relayed m log signature).encode = .ok bs ∧
      ∀ messages i, messages[i.toNat]? = some bs →
        Brings messages i signature.signers.count m := by
  obtain ⟨gas, m, hcompose, ht⟩ := sent_of_run_eq_ok scheme hinput hsend
  obtain ⟨destinationChain, recipient, payload, -, -, -, hle, hm⟩ := compose_eq_ok_iff.1 hcompose
  have hlength : m.payload.length ≤ Message.maxPayload := by
    rw [hm]
    exact hle
  have hencode := encode_relayed signature hlength hsigners
  refine ⟨sentLog m, m, _, ht, unpackLog_sentLog hlength, ?_, ?_, hencode, ?_⟩
  · rw [hm]
  · rw [hm]
  · intro messages i hb
    have hdecode := (SignedEnvelope.lawful.decode_eq_ok_iff _ _).2 hencode
    exact brings_of_decode hb hdecode (decode_wire_of_length_le hlength)

/-- A greeting to the chain of two validators, which the second of them signs. -/
theorem relay_roundTrip_greeting :
    (((precompile TwoValidators.scheme .standard TwoValidators.quorum).run TwoValidators.origin
      TwoValidators.sendCall).run (TwoValidators.stateWith [])).1 = .ok ⟨[], 100000⟩ ∧
    ∃ bs payload out,
      (relayed TwoValidators.greeting (sentLog TwoValidators.greeting)
        TwoValidators.signed.signature).encode = .ok bs ∧
      ((precompile TwoValidators.scheme .standard TwoValidators.quorum).run TwoValidators.environment
        (TwoValidators.call 0)).run (TwoValidators.stateWith payload) =
        (.ok out, TwoValidators.stateWith payload) ∧
      unpackMessage out.output = some (TwoValidators.greeting, true) := by
  have hsend : (((precompile TwoValidators.scheme .standard TwoValidators.quorum).run
      TwoValidators.origin TwoValidators.sendCall).run (TwoValidators.stateWith [])).1 =
      .ok ⟨[], 100000⟩ := by
    decide +kernel
  have hlogs : (((precompile TwoValidators.scheme .standard TwoValidators.quorum).run
      TwoValidators.origin TwoValidators.sendCall).run (TwoValidators.stateWith [])).2.logs =
      [sentLog TwoValidators.greeting] := by
    decide +kernel
  have hinput : TwoValidators.sendCall.input =
      (Selector.ofSignature sendMessageSignature).bytes ++ TwoValidators.sendCall.input.drop 4 := by
    decide +kernel
  have hsigners : TwoValidators.signed.signature.signers.bytes.length ≤ Wire.maxFieldSize := by
    decide
  obtain ⟨t, hrun⟩ := CallM.exists_run_eq hsend
  rw [hrun] at hlogs
  obtain ⟨log, m, bs, ht, hm, -, -, hencode, hbrings⟩ := relay_roundTrip _ _ hinput hrun hsigners
  rw [ht] at hlogs
  obtain rfl : log = sentLog TwoValidators.greeting := List.singleton_inj.1 hlogs
  obtain rfl : TwoValidators.greeting = m := by
    have hlog : unpackLog (sentLog TwoValidators.greeting) = some TwoValidators.greeting := by
      decide +kernel
    exact Option.some.inj (hlog.symm.trans hm)
  have hwire := encode_relayed (m := TwoValidators.greeting) TwoValidators.signed.signature (by decide)
    hsigners
  obtain rfl := Except.ok.inj (hwire.symm.trans hencode)
  have hsize : (AccessList.encode (AccessList.carrier [] [] address
      [(relayed TwoValidators.greeting (sentLog TwoValidators.greeting)
        TwoValidators.signed.signature).wire])).length < 2 ^ 64 := by
    decide +kernel
  obtain ⟨_, _, payload, -, -, -, hdelivers⟩ := hbrings _ 0 rfl [] [] address hsize
  have hready : ReadyToRead .standard (TwoValidators.call 0) (TwoValidators.stateWith payload) payload 0
      TwoValidators.signed.signature.signers.count :=
    ⟨rfl, TwoValidators.get?_attached_stateWith payload, rfl, by decide⟩
  obtain ⟨out, hout, hunpack⟩ := hdelivers TwoValidators.scheme .standard TwoValidators.quorum
    TwoValidators.environment _ _ hready
  exact ⟨hsend, _, payload, out, hencode, hout, hunpack⟩

end Interchain.Messenger
