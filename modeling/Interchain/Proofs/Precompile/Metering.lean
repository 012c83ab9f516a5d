import Interchain.Proofs.Precompile.Effects
import Interchain.Proofs.TwoValidators

/-!
# The price of a call

A call is charged step by step, and runs out of gas at whatever step it cannot pay. Still it has a price: `Metered`
steps cost some gas from a state, with less they lose all of it and leave the state as it is, and with at least so
much the answer does not depend on the gas that is given.

* `Metered.charge`, `Metered.free`: charges add up, and other steps cost nothing.
* `DispatchTable.metered_dispatch`: the base cost of the function that is selected, and its handler on top.
* `Messenger.metered_getMessage`: the only handler with a cost of its own, for each validator that has signed the
  message.
* `Messenger.callCost`, `Messenger.run_metered`: the price of a call, from its input and the attached payload.

Prices are exact numbers, not bounded by 64 bits; a price beyond them is one that no call can pay.
-/

namespace Interchain

/-! ### Metered steps -/

/-- The result of a call with the gas that is left. -/
def withGas (answer : Except PrecompileError Bytes) (gas : UInt64) : Except CallFailure CallOutput :=
  match answer with
  | .ok output => .ok ⟨output, gas⟩
  | .error e => .error ⟨e, gas⟩

/-- Steps that take gas cost so much from a state. With less they run out of gas, lose what they have and leave the
state as it is. With at least so much, the rest is left, and the answer and the new state are always the same. -/
structure Metered (cost : Nat) (s : Overlay) (action : UInt64 → CallM CallOutput) : Prop where
  short : ∀ gas : UInt64, gas.toNat < cost → (action gas).run s = (.error .outOfGas, s)
  enough : ∃ answer t, ∀ gas : UInt64, cost ≤ gas.toNat →
    ∃ rest : UInt64, rest.toNat + cost = gas.toNat ∧ (action gas).run s = (withGas answer rest, t)

namespace Metered

variable {cost n : Nat} {s : Overlay} {action action' : UInt64 → CallM CallOutput}

theorem congr (h : Metered cost s action) (he : ∀ gas, (action' gas).run s = (action gas).run s) :
    Metered cost s action' where
  short gas hlt := (he gas).trans (h.short gas hlt)
  enough := by
    obtain ⟨answer, t, hrun⟩ := h.enough
    refine ⟨answer, t, fun gas hle => ?_⟩
    obtain ⟨rest, hrest, ht⟩ := hrun gas hle
    exact ⟨rest, hrest, (he gas).trans ht⟩

/-- Steps that keep their gas. -/
theorem free (answer : Except PrecompileError Bytes) (t : Overlay)
    (h : ∀ gas, (action gas).run s = (withGas answer gas, t)) : Metered 0 s action where
  short _ hlt := absurd hlt (Nat.not_lt_zero _)
  enough := ⟨answer, t, fun gas _ => ⟨gas, rfl, h gas⟩⟩

/-- A charge that nothing can pay. -/
theorem unpayable (hcost : 2 ^ 64 ≤ cost) (h : ∀ gas, (action gas).run s = (.error .outOfGas, s)) :
    Metered cost s action where
  short gas _ := h gas
  enough := ⟨.error .outOfGas, s, fun gas hle =>
    absurd (Nat.lt_of_lt_of_le gas.toNat_lt hcost) (Nat.not_lt_of_le hle)⟩

/-- A charge before other steps adds to their cost. -/
theorem charge (price : UInt64) (h : Metered n s action) :
    Metered (price.toNat + n) s fun gas => do
      let gas ← CallM.ofOption .outOfGas (Gas.charge gas price)
      action gas where
  short gas hlt := by
    rw [Steps.run_bind]
    cases hcharge : Gas.charge gas price with
    | none => rfl
    | some rest =>
      have hrest := Gas.charge_eq_some_iff.1 hcharge
      exact h.short rest (by omega)
  enough := by
    obtain ⟨answer, t, hrun⟩ := h.enough
    refine ⟨answer, t, fun gas hle => ?_⟩
    have hprice : price.toNat ≤ gas.toNat := by omega
    obtain ⟨left, hcharge, hleft⟩ := Messenger.exists_charge hprice
    obtain ⟨rest, hrest, ht⟩ := hrun left (by omega)
    refine ⟨rest, by omega, ?_⟩
    rw [Steps.run_bind, hcharge]
    exact ht

end Metered

/-! ### From a handler to a call -/

section Dispatch

variable {t : DispatchTable} {f : ContractFunction} {env : Environment} {c : Call} {s : Overlay}
  {args : Bytes} {n : Nat}

/-- The base cost comes on top of what the handler costs, unless a read-only call never reaches the handler. -/
theorem ContractFunction.metered_call
    (h : Metered n s fun gas => f.handler env { c with input := args, gas }) :
    Metered (f.baseGas.toNat + if c.readOnly && f.mutability = .nonPayable then 0 else n) s
      fun gas => f.call env { c with gas } args := by
  have hrest : Metered (if c.readOnly && f.mutability = .nonPayable then 0 else n) s fun gas =>
      if c.readOnly && f.mutability = .nonPayable then CallM.fail .writeProtection gas
      else f.handler env { c with input := args, gas } := by
    split
    · exact Metered.free (.error .writeProtection) s fun _ => rfl
    · exact h
  exact (hrest.charge f.baseGas).congr fun _ => rfl

theorem DispatchTable.metered_dispatch (hroute : t.route c.input = .ok (f, args))
    (h : Metered n s fun gas => f.handler env { c with input := args, gas }) :
    Metered (f.baseGas.toNat + if c.readOnly && f.mutability = .nonPayable then 0 else n) s
      fun gas => t.dispatch env { c with gas } := by
  refine (ContractFunction.metered_call h).congr fun gas => ?_
  rw [DispatchTable.dispatch, Steps.run_bind, hroute]
  rfl

/-- A call that selects no function costs nothing. -/
theorem DispatchTable.metered_dispatch_of_error {e : PrecompileError} (hroute : t.route c.input = .error e) :
    Metered 0 s fun gas => t.dispatch env { c with gas } :=
  Metered.free (.error e) s fun gas =>
    DispatchTable.run_dispatch_of_error (c := { c with gas }) hroute

end Dispatch

/-! ### The handlers of the messenger -/

namespace Messenger

variable {costs : GasCosts} {env : Environment} {c : Call} {s : Overlay} {attached : Option Bytes}
  {args : Bytes}

/-- The signed envelope that a call of `getMessage` comes to, or why it comes to none. -/
def envelopeAt (attached : Option Bytes) (args : Bytes) : Except PrecompileError SignedEnvelope := do
  if args.length ≠ Abi.wordSize then
    throw (.invalidInput s!"expected one uint256 argument, got {args.length} bytes")
  let index := Bytes.toNat args
  let payload ← attached.elim (.error .noVerifiedMessages) .ok
  let messages ← (Predicate.decodeList payload).mapError .invalidPredicateData
  let bs ← messages[index]?.elim (.error (.invalidMessageIndex (.ofNat 256 index))) .ok
  (SignedEnvelope.decode bs).mapError .message

/-- Pays for the signatures under an envelope and reads the message in it. -/
def openEnvelope (costs : GasCosts) (gas : UInt64) (signed : SignedEnvelope) :
    Except CallFailure CallOutput := do
  let surcharge ← (costs.surcharge signed.signature.signers.count).elim (.error .outOfGas) .ok
  let gas ← (Gas.charge gas surcharge).elim (.error .outOfGas) .ok
  let m ← (Message.decode signed.envelope.payload).mapError fun e => ⟨.message e, gas⟩
  return ⟨encodeMessage m true, gas⟩

/-- Until reading comes to an envelope, it keeps its gas. -/
theorem read_eq (costs : GasCosts) (attached : Option Bytes) (c : Call) :
    read costs attached c =
      (envelopeAt attached c.input).mapError (fun e => ⟨e, c.gas⟩) >>= openEnvelope costs c.gas := by
  unfold read envelopeAt
  by_cases hlen : c.input.length ≠ Abi.wordSize
  · rw [if_pos hlen, if_pos hlen]
    rfl
  · rw [if_neg hlen, if_neg hlen]
    cases attached with
    | none => rfl
    | some payload =>
      simp only [Option.elim_some, Steps.ok_bind]
      cases Predicate.decodeList payload with
      | error e => rfl
      | ok messages =>
        simp only [Steps.mapError_ok, Steps.ok_bind]
        cases messages[Bytes.toNat c.input]? with
        | none => rfl
        | some bs =>
          simp only [Option.elim_some, Steps.ok_bind, readMessage]
          cases SignedEnvelope.decode bs with
          | error e => rfl
          | ok signed => rfl

/-- What a call pays for signatures: nothing if it comes to no envelope. -/
def signaturesCost (costs : GasCosts) : Except PrecompileError SignedEnvelope → Nat
  | .error _ => 0
  | .ok signed => costs.perSigner.toNat * signed.signature.signers.count

theorem metered_openEnvelope (costs : GasCosts) (s : Overlay) (signed : SignedEnvelope) :
    Metered (costs.perSigner.toNat * signed.signature.signers.count) s
      fun gas => CallM.lift (openEnvelope costs gas signed) := by
  cases hsur : costs.surcharge signed.signature.signers.count with
  | none =>
    have hcost : 2 ^ 64 ≤ costs.perSigner.toNat * signed.signature.signers.count := by
      by_contra hlt
      obtain ⟨cost, hcost, -⟩ := exists_surcharge (Nat.lt_of_not_le hlt)
      rw [hsur] at hcost
      cases hcost
    refine Metered.unpayable hcost fun gas => ?_
    rw [CallM.run_lift, openEnvelope, hsur]
    rfl
  | some surcharge =>
    rw [GasCosts.surcharge_eq_some_iff.1 hsur]
    have hrest : Metered 0 s fun gas => CallM.lift do
        let m ← (Message.decode signed.envelope.payload).mapError fun e => ⟨.message e, gas⟩
        return ⟨encodeMessage m true, gas⟩ := by
      cases Message.decode signed.envelope.payload with
      | error e => exact Metered.free (.error (.message e)) s fun _ => rfl
      | ok m => exact Metered.free (.ok (encodeMessage m true)) s fun _ => rfl
    refine (hrest.charge surcharge).congr fun gas => ?_
    rw [CallM.ofOption_eq_lift, openEnvelope, hsur]
    simp only [← CallM.lift_bind, Option.elim_some, Steps.ok_bind]

theorem metered_getMessage (costs : GasCosts) (env : Environment) (c : Call) (s : Overlay) :
    Metered (signaturesCost costs (envelopeAt (s.attached.get? address) c.input)) s
      fun gas => getMessage costs env { c with gas } := by
  have hrun : ∀ gas, (getMessage costs env { c with gas }).run s =
      (CallM.lift ((envelopeAt (s.attached.get? address) c.input).mapError (fun e => ⟨e, gas⟩) >>=
        openEnvelope costs gas)).run s := fun gas => by
    rw [run_getMessage, read_eq, CallM.run_lift]
  refine Metered.congr ?_ hrun
  cases envelopeAt (s.attached.get? address) c.input with
  | error e => exact Metered.free (.error e) s fun _ => rfl
  | ok signed => exact metered_openEnvelope costs s signed

theorem metered_getChainId (env : Environment) (c : Call) (s : Overlay) :
    Metered 0 s fun gas => getChainId env { c with gas } := by
  by_cases hempty : c.input.isEmpty = true
  · refine Metered.free (.ok env.chain.chainId.bytes) s fun gas => ?_
    rw [getChainId, if_pos hempty]
    rfl
  · refine Metered.free (.error (.invalidInput "getBlockchainId takes no arguments")) s fun gas => ?_
    rw [getChainId, if_neg hempty]
    rfl

/-- What a call sends, or why it does not, has nothing to do with its gas. -/
theorem compose_gas (env : Environment) (c : Call) :
    ∃ r : Except PrecompileError Message,
      ∀ gas, compose env { c with gas } = r.mapError fun e => ⟨e, gas⟩ := by
  simp only [compose]
  cases Abi.wordAt? c.input 0 with
  | none => exact ⟨.error (.invalidInput "malformed sendWarpMessage arguments"), fun _ => rfl⟩
  | some destinationChain =>
    cases Abi.wordAt? c.input 32 with
    | none => exact ⟨.error (.invalidInput "malformed sendWarpMessage arguments"), fun _ => rfl⟩
    | some recipient =>
      cases Abi.bytesAt? c.input 64 with
      | none => exact ⟨.error (.invalidInput "malformed sendWarpMessage arguments"), fun _ => rfl⟩
      | some payload =>
        simp only [Option.elim_some, Steps.ok_bind]
        split
        · exact ⟨.error (.message (.fieldTooLarge payload.length Message.maxPayload)), fun _ => rfl⟩
        · exact ⟨.ok _, fun _ => rfl⟩

theorem metered_sendMessage (env : Environment) (c : Call) (s : Overlay) :
    Metered 0 s fun gas => sendMessage env { c with gas } := by
  obtain ⟨r, hr⟩ := compose_gas env c
  cases r with
  | error e =>
    refine Metered.free (.error e) s fun gas => ?_
    rw [run_sendMessage, hr]
    rfl
  | ok m =>
    refine Metered.free (.ok []) (s.addLog (sentLog m)) fun gas => ?_
    rw [run_sendMessage, hr]
    rfl

/-- What a handler costs: only that of `getMessage` takes more than the base cost. -/
def handlerCost (costs : GasCosts) (attached : Option Bytes) (f : ContractFunction) (args : Bytes) : Nat :=
  if f.signature = getMessageSignature then signaturesCost costs (envelopeAt attached args) else 0

theorem metered_handler {f : ContractFunction} (hf : f ∈ functions costs) (env : Environment) (c : Call)
    (s : Overlay) :
    Metered (handlerCost costs (s.attached.get? address) f c.input) s
      fun gas => f.handler env { c with gas } := by
  have hid : getChainIdSignature ≠ getMessageSignature := by decide
  have hsend : sendMessageSignature ≠ getMessageSignature := by decide
  simp only [functions, List.mem_cons, List.not_mem_nil, or_false] at hf
  rcases hf with rfl | rfl | rfl
  · rw [handlerCost, ContractFunction.signature_ofSignature, if_neg hid]
    exact metered_getChainId env c s
  · rw [handlerCost, ContractFunction.signature_ofSignature, if_pos rfl]
    exact metered_getMessage costs env c s
  · rw [handlerCost, ContractFunction.signature_ofSignature, if_neg hsend]
    exact metered_sendMessage env c s

/-! ### Calls of the messenger -/

/-- The price of a call: nothing if it selects no function, else the base cost of the function and what its handler
costs, if the call reaches the handler. -/
def callCost (costs : GasCosts) (attached : Option Bytes) (c : Call) : Nat :=
  match (table costs).route c.input with
  | .error _ => 0
  | .ok (f, args) =>
    f.baseGas.toNat +
      if c.readOnly && f.mutability = .nonPayable then 0 else handlerCost costs attached f args

/-- A call of the messenger costs as much as its input and the attached payload say, whatever gas it is given. -/
theorem run_metered (scheme : SignatureScheme) (costs : GasCosts) (quorum : Quorum) (env : Environment)
    (c : Call) (s : Overlay) :
    Metered (callCost costs (s.attached.get? address) c) s
      fun gas => (precompile scheme costs quorum).run env { c with gas } := by
  show Metered _ s fun gas => (table costs).dispatch env { c with gas }
  unfold callCost
  cases hroute : (table costs).route c.input with
  | error e => exact DispatchTable.metered_dispatch_of_error hroute
  | ok r =>
    obtain ⟨f, args⟩ := r
    have hf : f ∈ functions costs := DispatchTable.mem_of_route rfl hroute
    exact DispatchTable.metered_dispatch hroute (metered_handler hf env { c with input := args } s)

/-- A message under which one signature stands. -/
example : callCost .standard (some TwoValidators.attachment) (TwoValidators.call 0) = 101000 := by
  decide +kernel

end Messenger

end Interchain
