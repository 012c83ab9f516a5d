import Interchain.Proofs.Precompile.Relay

/-!
# Which payloads are sent

The limit that the messenger sets for a payload is the largest one with which the message still fits into a signed
envelope: what it accepts can be delivered, and what it refuses could not.

One half is about a call that asks to send a payload, can pay for it and may change the state. It succeeds with the
log of the message, or is refused without a change. The other half is arithmetic on the sizes of the fields around
the payload, whoever signs. Input as long as 2⁶⁴ bytes is no concern, but has to be excluded where offsets are
64-bit numbers.
-/

namespace Interchain.Messenger

variable {costs : GasCosts} {env : Environment} {c : Call} {destinationChain recipient : Hash32}
  {payload : Bytes}

/-! ### Arguments -/

/-- The arguments of a packed call: two words, the place of the payload and the payload. -/
def sendArgs (destinationChain recipient : Hash32) (payload : Bytes) : Bytes :=
  [destinationChain, recipient].flatMap (·.bytes) ++ Abi.ofNat (3 * Abi.wordSize) ++ Abi.bytesTail payload

theorem packSendMessage_eq (destinationChain recipient : Hash32) (payload : Bytes) :
    packSendMessage destinationChain recipient payload =
      (Selector.ofSignature sendMessageSignature).bytes ++ sendArgs destinationChain recipient payload := by
  simp only [packSendMessage, sendArgs, List.flatMap_cons, List.flatMap_nil, List.append_nil, List.append_assoc]

theorem length_sendArgs (destinationChain recipient : Hash32) (payload : Bytes) :
    (sendArgs destinationChain recipient payload).length =
      128 + payload.length + (Abi.paddedLength payload.length - payload.length) := by
  have hwords : ([destinationChain, recipient].flatMap (·.bytes)).length = 64 :=
    FixedBytes.length_flatMap_bytes [destinationChain, recipient]
  simp only [sendArgs, Abi.bytesTail, Abi.ofNat, List.length_append, hwords, Bytes.length_ofNat,
    List.length_replicate, Abi.wordSize]
  omega

theorem wordAt?_sendArgs (k : Nat) {w : Hash32} (offset : UInt64)
    (hk : [destinationChain, recipient][k]? = some w) (hoffset : offset.toNat = 32 * k) :
    Abi.wordAt? (sendArgs destinationChain recipient payload) offset = some w := by
  refine Abi.wordAt?_of_words (Abi.ofNat (3 * Abi.wordSize) ++ Abi.bytesTail payload)
    [destinationChain, recipient] ?_ hk hoffset ?_
  · rw [sendArgs, List.append_assoc]
  · show 32 * 2 < 2 ^ 64
    decide

theorem bytesAt?_sendArgs (h : 128 + payload.length < 2 ^ 64) :
    Abi.bytesAt? (sendArgs destinationChain recipient payload) 64 = some payload :=
  Abi.bytesAt?_of_words [destinationChain, recipient] (3 * Abi.wordSize) rfl rfl rfl h

/-! ### A whole call -/

/-- A call that may change the state, asks to send a payload, and can pay for it. -/
structure ReadyToSend (costs : GasCosts) (c : Call) (destinationChain recipient : Hash32)
    (payload : Bytes) : Prop where
  input : c.input = packSendMessage destinationChain recipient payload
  writable : c.readOnly = false
  gas : costs.sendMessage.toNat ≤ c.gas.toNat

theorem ReadyToSend.input_eq (h : ReadyToSend costs c destinationChain recipient payload) :
    c.input = (Selector.ofSignature sendMessageSignature).bytes ++ sendArgs destinationChain recipient payload :=
  h.input.trans (packSendMessage_eq destinationChain recipient payload)

/-- The input of a call is longer than the payload in it. -/
theorem ReadyToSend.length_lt (h : ReadyToSend costs c destinationChain recipient payload) :
    128 + payload.length < c.input.length := by
  rw [h.input_eq, List.length_append, FixedBytes.length_bytes, length_sendArgs]
  omega

/-- A call that is ready pays the price. If the place behind the payload is still a 64-bit offset, the payload is read,
and its length decides. -/
theorem run_of_readyToSend (scheme : SignatureScheme) (quorum : Quorum) (env : Environment) (s : Overlay)
    (h : ReadyToSend costs c destinationChain recipient payload) :
    ∃ rest : UInt64, rest.toNat + costs.sendMessage.toNat = c.gas.toNat ∧
      (128 + payload.length < 2 ^ 64 → ((precompile scheme costs quorum).run env c).run s =
        if payload.length > Message.maxPayload then
          (.error ⟨.message (.fieldTooLarge payload.length Message.maxPayload), rest⟩, s)
        else
          (.ok ⟨[], rest⟩, s.addLog (sentLog
            { originChain := env.chain.chainId, sender := c.caller.leftPad, destinationChain, recipient,
              payload }))) := by
  obtain ⟨rest, hcharge, hleft⟩ := exists_charge h.gas
  obtain ⟨hselects, hargs⟩ := selectsSend_of_input h.input_eq
  refine ⟨rest, hleft, fun hfit => ?_⟩
  have hwritable : ¬ c.readOnly = true := by
    rw [h.writable]
    exact Bool.false_ne_true
  let call : Call := { c with input := sendArgs destinationChain recipient payload, gas := rest }
  have hcompose : compose env call = _ := compose_of_args (wordAt?_sendArgs 0 0 rfl rfl)
    (wordAt?_sendArgs 1 32 rfl rfl) (bytesAt?_sendArgs hfit)
  show ((table costs).dispatch env c).run s = _
  rw [run_of_selectsSend hselects, hcharge]
  simp only [if_neg hwritable, hargs]
  rw [run_sendMessage, hcompose]
  by_cases hlong : payload.length > Message.maxPayload
  · rw [if_pos hlong, if_pos hlong]
  · rw [if_neg hlong, if_neg hlong]

/-! ### The limit -/

/-- The messenger accepts exactly the payloads that can be delivered. A call that is ready succeeds if the payload is
within the limit, and its log says what the call asked for. Beyond the limit it is refused and leaves the state as it
is. A message that has an encoding at all has a signed envelope around it exactly if its payload is within the limit,
whoever signs it and whatever the envelope says. -/
theorem sends_iff_deliverable :
    (∀ scheme costs quorum (env : Environment) (c : Call) s destinationChain recipient payload,
      ReadyToSend costs c destinationChain recipient payload →
      ∃ rest : UInt64, rest.toNat + costs.sendMessage.toNat = c.gas.toNat ∧
        (payload.length ≤ Message.maxPayload → ∃ log,
          ((precompile scheme costs quorum).run env c).run s = (.ok ⟨[], rest⟩, s.addLog log) ∧
          unpackLog log = some
            { originChain := env.chain.chainId, sender := c.caller.leftPad, destinationChain, recipient,
              payload }) ∧
        (Message.maxPayload < payload.length → c.input.length < 2 ^ 64 →
          ((precompile scheme costs quorum).run env c).run s =
            (.error ⟨.message (.fieldTooLarge payload.length Message.maxPayload), rest⟩, s))) ∧
    ∀ (m : Message) body, m.encode = .ok body →
      ∀ (sourceChain destinationChain : Hash32) (signature : MultiSignature),
        signature.signers.bytes.length ≤ Wire.maxFieldSize →
        ((∃ bs, SignedEnvelope.encode ⟨⟨sourceChain, destinationChain, body⟩, signature⟩ = .ok bs) ↔
          m.payload.length ≤ Message.maxPayload) := by
  refine ⟨?_, ?_⟩
  · intro scheme costs quorum env c s destinationChain recipient payload h
    obtain ⟨rest, hleft, hrun⟩ := run_of_readyToSend scheme quorum env s h
    refine ⟨rest, hleft, ?_, ?_⟩
    · intro hle
      have hmax : 128 + Message.maxPayload < 2 ^ 64 := by decide
      rw [hrun (by omega), if_neg (Nat.not_lt_of_le hle)]
      exact ⟨_, rfl, unpackLog_sentLog hle⟩
    · intro hlong hsize
      have hlength := h.length_lt
      rw [hrun (Nat.lt_trans hlength hsize), if_pos hlong]
  · intro m body hbody sourceChain destinationChain signature hsigners
    rw [Message.encode_eq_checked, Wire.checked_eq_ok_iff] at hbody
    obtain ⟨-, rfl⟩ := hbody
    simp only [SignedEnvelope.encode_eq_ok_iff, exists_and_left, exists_eq', and_true]
    rw [wire_fits_iff, and_iff_left hsigners]

/-- A payload one byte beyond the limit. -/
def oversized : Bytes := List.replicate (Message.maxPayload + 1) 0

/-- Asks to send this payload to the chain of the two validators. -/
def oversizedCall : Call :=
  { TwoValidators.sendCall with
    input := packSendMessage TwoValidators.chain.chainId (.replicate 32 2) oversized }

/-- A greeting is sent and has a signed envelope, and a payload beyond the limit is refused. -/
theorem sends_iff_deliverable_greeting :
    (∃ log, ((precompile TwoValidators.scheme .standard TwoValidators.quorum).run TwoValidators.origin
        TwoValidators.sendCall).run (TwoValidators.stateWith []) =
        (.ok ⟨[], 100000⟩, (TwoValidators.stateWith []).addLog log) ∧
      unpackLog log = some TwoValidators.greeting) ∧
    ((precompile TwoValidators.scheme .standard TwoValidators.quorum).run TwoValidators.origin
        oversizedCall).run (TwoValidators.stateWith []) =
        (.error ⟨.message (.fieldTooLarge (Message.maxPayload + 1) Message.maxPayload), 100000⟩,
          TwoValidators.stateWith []) ∧
    ∃ bs, SignedEnvelope.encode
      ⟨⟨TwoValidators.origin.chain.chainId, TwoValidators.chain.chainId, TwoValidators.greeting.wire⟩,
        TwoValidators.signed.signature⟩ = .ok bs := by
  have hrest : ∀ rest : UInt64, rest.toNat + GasCosts.standard.sendMessage.toNat =
      TwoValidators.sendCall.gas.toNat → rest = 100000 := by
    intro rest hleft
    have hcost : GasCosts.standard.sendMessage.toNat + 100000 = TwoValidators.sendCall.gas.toNat := rfl
    refine UInt64.toNat_inj.1 ?_
    show rest.toNat = 100000
    omega
  have hlong : oversized.length = Message.maxPayload + 1 := List.length_replicate
  obtain ⟨hcalls, hlimit⟩ := sends_iff_deliverable
  have hready : ReadyToSend .standard TwoValidators.sendCall TwoValidators.chain.chainId (.replicate 32 2)
      (Bytes.ofString "hello") := ⟨rfl, rfl, by decide⟩
  have hreadyLong : ReadyToSend .standard oversizedCall TwoValidators.chain.chainId (.replicate 32 2)
      oversized := ⟨rfl, rfl, by decide⟩
  have hsize : oversizedCall.input.length < 2 ^ 64 := by
    rw [hreadyLong.input_eq, List.length_append, FixedBytes.length_bytes, length_sendArgs, hlong]
    decide
  refine ⟨?_, ?_, ?_⟩
  · obtain ⟨rest, hleft, hsends, -⟩ := hcalls TwoValidators.scheme _ TwoValidators.quorum TwoValidators.origin _
      (TwoValidators.stateWith []) _ _ _ hready
    obtain rfl := hrest rest hleft
    exact hsends (by decide)
  · obtain ⟨rest, hleft, -, hrefuses⟩ := hcalls TwoValidators.scheme _ TwoValidators.quorum TwoValidators.origin _
      (TwoValidators.stateWith []) _ _ _ hreadyLong
    obtain rfl := hrest rest hleft
    rw [hlong] at hrefuses
    exact hrefuses (Nat.lt_succ_self _) hsize
  · have hencode : TwoValidators.greeting.encode = .ok TwoValidators.greeting.wire :=
      encode_of_length_le (by decide)
    exact (hlimit _ _ hencode _ _ _ (by decide)).2 (by decide)

end Interchain.Messenger
