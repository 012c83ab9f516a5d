import Interchain.Proofs.Abi
import Interchain.Proofs.Message.Codec
import Interchain.Proofs.Precompile.Reading

/-!
# Sending a message through the messenger

Sending a message through the messenger: the message that a call describes is a function of the call alone
(`Messenger.compose`), and the handler adds the log of this message, or leaves the state as it is.

The limit for a payload is where the message still fits into an envelope that fits into a signed one
(`Messenger.wire_fits_iff`). So a message that is sent can always be written, and the error of the encoder never
comes up.
-/

namespace Interchain.Messenger

variable {costs : GasCosts} {env : Environment} {c : Call} {s : Overlay} {m : Message}

/-! ### The handler -/

/-- The message that a call of `sendMessage` describes. -/
def compose (env : Environment) (c : Call) : Except CallFailure Message := do
  let malformed : CallFailure := ⟨.invalidInput "malformed sendWarpMessage arguments", c.gas⟩
  let destinationChain ← (Abi.wordAt? c.input 0).elim (.error malformed) .ok
  let recipient ← (Abi.wordAt? c.input 32).elim (.error malformed) .ok
  let payload ← (Abi.bytesAt? c.input 64).elim (.error malformed) .ok
  if payload.length > Message.maxPayload then
    throw ⟨.message (.fieldTooLarge payload.length Message.maxPayload), c.gas⟩
  return { originChain := env.chain.chainId, sender := c.caller.leftPad, destinationChain, recipient, payload }

/-- The log that records a message. -/
def sentLog (m : Message) : Log where
  address := address
  topics := [sentTopic, m.originChain, m.destinationChain]
  data := m.wire

theorem maxPayload_le_maxFieldSize : Message.maxPayload ≤ Wire.maxFieldSize := by decide

theorem encode_of_length_le (h : m.payload.length ≤ Message.maxPayload) : m.encode = .ok m.wire := by
  rw [Message.encode_eq_checked, Wire.checked_eq_ok_iff]
  exact ⟨List.forall_mem_singleton.2 (Nat.le_trans h maxPayload_le_maxFieldSize), rfl⟩

theorem decode_wire_of_length_le (h : m.payload.length ≤ Message.maxPayload) :
    Message.decode m.wire = .ok m :=
  (Message.lawful.decode_eq_ok_iff _ _).2 (encode_of_length_le h)

/-- A message fits into an envelope that fits into a signed one exactly if its payload is short enough. -/
theorem wire_fits_iff :
    Envelope.overhead + m.wire.length ≤ Wire.maxFieldSize ↔ m.payload.length ≤ Message.maxPayload := by
  have hmax : Envelope.overhead + (Message.overhead + Message.maxPayload) = Wire.maxFieldSize := by decide
  rw [m.length_wire]
  omega

/-- The handler records the message that the call describes, and leaves the state as it is if there is none. -/
theorem run_sendMessage (env : Environment) (c : Call) (s : Overlay) :
    (sendMessage env c).run s =
      match compose env c with
      | .error e => (.error e, s)
      | .ok m => (.ok ⟨[], c.gas⟩, s.addLog (sentLog m)) := by
  unfold sendMessage compose
  cases Abi.wordAt? c.input 0 with
  | none => rfl
  | some destinationChain =>
    cases Abi.wordAt? c.input 32 with
    | none => rfl
    | some recipient =>
      cases Abi.bytesAt? c.input 64 with
      | none => rfl
      | some payload =>
        simp only [CallM.ofOption, pure_bind, Option.elim_some, Steps.ok_bind]
        by_cases h : payload.length > Message.maxPayload
        · rw [if_pos h, if_pos h]
          rfl
        · -- a payload that is short enough always has an encoding
          have hencode := encode_of_length_le (m :=
            { originChain := env.chain.chainId, sender := c.caller.leftPad, destinationChain, recipient,
              payload }) (Nat.le_of_not_lt h)
          rw [if_neg h, if_neg h, hencode]
          rfl

/-- A call whose arguments can be read is decided by the length of the payload. -/
theorem compose_of_args {destinationChain recipient : Hash32} {payload : Bytes}
    (hd : Abi.wordAt? c.input 0 = some destinationChain) (hr : Abi.wordAt? c.input 32 = some recipient)
    (hp : Abi.bytesAt? c.input 64 = some payload) :
    compose env c =
      if payload.length > Message.maxPayload then
        .error ⟨.message (.fieldTooLarge payload.length Message.maxPayload), c.gas⟩
      else .ok
        { originChain := env.chain.chainId, sender := c.caller.leftPad, destinationChain, recipient,
          payload } := by
  unfold compose
  simp only [hd, hr, hp, Option.elim_some, Steps.ok_bind]
  split
  · rfl
  · rfl

theorem compose_eq_ok_iff :
    compose env c = .ok m ↔ ∃ destinationChain recipient payload,
      Abi.wordAt? c.input 0 = some destinationChain ∧ Abi.wordAt? c.input 32 = some recipient ∧
      Abi.bytesAt? c.input 64 = some payload ∧ payload.length ≤ Message.maxPayload ∧
      m = { originChain := env.chain.chainId, sender := c.caller.leftPad, destinationChain, recipient,
            payload } := by
  unfold compose
  simp only [Steps.guard_eq_ok_iff, Steps.bind_eq_ok_iff, Steps.elim_eq_ok_iff, Steps.pure_eq_ok_iff]
  constructor
  · rintro ⟨destinationChain, hd, recipient, hr, payload, hp, hle, hm⟩
    exact ⟨destinationChain, recipient, payload, hd, hr, hp, Nat.le_of_not_lt hle, hm.symm⟩
  · rintro ⟨destinationChain, recipient, payload, hd, hr, hp, hle, hm⟩
    exact ⟨destinationChain, hd, recipient, hr, payload, hp, Nat.not_lt_of_le hle, hm.symm⟩

/-! ### The table -/

theorem find?_sendMessage (costs : GasCosts) :
    (table costs).find? (Selector.ofSignature sendMessageSignature) =
      some (.ofSignature sendMessageSignature costs.sendMessage .nonPayable sendMessage) :=
  DispatchTable.find?_ofSignature (ofFunctions_functions costs)
    (List.mem_cons_of_mem _ (List.mem_cons_of_mem _ List.mem_cons_self))

end Interchain.Messenger
