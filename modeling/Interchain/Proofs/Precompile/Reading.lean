import Interchain.Precompile.Messenger
import Interchain.Proofs.Precompile.Running
import Interchain.Proofs.Steps
import Mathlib.Algebra.Group.Nat.Defs

/-!
# Reading a message through the messenger

Reading a message as a function of the payload that is attached and of the call, without the state: the handler is
this function, and leaves the state as it is. A call gets a message exactly if the payload is a list in which one
stands at the index, the signed envelope and the message in it are well-formed, and the gas is enough for all who
have signed.

No signature is looked at when reading. That the payload was verified before it was attached is not known here.
-/

namespace Interchain.Messenger

variable {costs : GasCosts} {env : Environment} {c : Call} {s : Overlay} {i : Word}
  {bs : Bytes}

/-! ### Gas -/

theorem exists_charge {left cost : UInt64} (h : cost.toNat ≤ left.toNat) :
    ∃ gas, Gas.charge left cost = some gas ∧ gas.toNat + cost.toNat = left.toNat := by
  have hsub := UInt64.toNat_sub_of_le left cost (UInt64.le_iff_toNat_le.2 h)
  refine ⟨left - cost, Gas.charge_eq_some_iff.2 ?_, ?_⟩
  · omega
  · omega

theorem exists_surcharge {signers : Nat} (h : costs.perSigner.toNat * signers < 2 ^ 64) :
    ∃ cost, costs.surcharge signers = some cost ∧
      cost.toNat = costs.perSigner.toNat * signers := by
  have hcost : (UInt64.ofNat (costs.perSigner.toNat * signers)).toNat =
      costs.perSigner.toNat * signers := UInt64.toNat_ofNat_of_lt' h
  exact ⟨_, GasCosts.surcharge_eq_some_iff.2 hcost.symm, hcost⟩

/-! ### The handler -/

/-- Reads one message: its envelope, then the surcharge, then the message itself. -/
def readMessage (costs : GasCosts) (c : Call) (bs : Bytes) : Except CallFailure CallOutput := do
  let signed ← (SignedEnvelope.decode bs).mapError fun e => ⟨.message e, c.gas⟩
  let surcharge ← (costs.surcharge signed.signature.signers.count).elim (.error .outOfGas) .ok
  let gas ← (Gas.charge c.gas surcharge).elim (.error .outOfGas) .ok
  let m ← (Message.decode signed.envelope.payload).mapError fun e => ⟨.message e, gas⟩
  return ⟨encodeMessage m true, gas⟩

/-- What a call of `getMessage` reads from the payload that is attached. -/
def read (costs : GasCosts) (attached : Option Bytes) (c : Call) : Except CallFailure CallOutput := do
  if c.input.length ≠ Abi.wordSize then
    throw ⟨.invalidInput s!"expected one uint256 argument, got {c.input.length} bytes", c.gas⟩
  let index := Bytes.toNat c.input
  let payload ← attached.elim (.error ⟨.noVerifiedMessages, c.gas⟩) .ok
  let messages ← (Predicate.decodeList payload).mapError fun e => ⟨.invalidPredicateData e, c.gas⟩
  let bs ← messages[index]?.elim (.error ⟨.invalidMessageIndex (.ofNat 256 index), c.gas⟩) .ok
  readMessage costs c bs

/-- The handler reads what is attached and leaves the state as it is. -/
theorem run_getMessage (costs : GasCosts) (env : Environment) (c : Call) (s : Overlay) :
    (getMessage costs env c).run s = (read costs (s.attached.get? address) c, s) := by
  unfold getMessage read readMessage
  by_cases h : c.input.length ≠ Abi.wordSize
  · rw [if_pos h, if_pos h]
    rfl
  · rw [if_neg h, if_neg h]
    simp only [CallM.ofExcept_eq_lift, CallM.ofOption_eq_lift, ← CallM.lift_pure,
      ← CallM.lift_bind]
    -- the state is read once, and only a result is left to do with it
    rw [Steps.run_bind]
    exact CallM.run_lift _ s

theorem readMessage_eq_ok_iff {out : CallOutput} :
    readMessage costs c bs = .ok out ↔ ∃ signed m, SignedEnvelope.decode bs = .ok signed ∧
      c.gas.toNat = costs.perSigner.toNat * signed.signature.signers.count + out.gas.toNat ∧
      Message.decode signed.envelope.payload = .ok m ∧ out.output = encodeMessage m true := by
  unfold readMessage
  simp only [Steps.bind_eq_ok_iff, Steps.mapError_eq_ok_iff, Steps.elim_eq_ok_iff,
    Steps.pure_eq_ok_iff]
  constructor
  · rintro ⟨signed, hs, surcharge, hsur, gas, hgas, m, hm, hout⟩
    subst hout
    have hcost := GasCosts.surcharge_eq_some_iff.1 hsur
    have hleft := Gas.charge_eq_some_iff.1 hgas
    exact ⟨signed, m, hs, hcost ▸ hleft, hm, rfl⟩
  · rintro ⟨signed, m, hs, hgas, hm, hout⟩
    have hle : costs.perSigner.toNat * signed.signature.signers.count ≤ c.gas.toNat := by
      rw [hgas]
      exact Nat.le_add_right _ _
    obtain ⟨surcharge, hsur, hcost⟩ := exists_surcharge (Nat.lt_of_le_of_lt hle c.gas.toNat_lt)
    refine ⟨signed, hs, surcharge, hsur, out.gas, ?_, m, hm, ?_⟩
    · rw [Gas.charge_eq_some_iff, hcost]
      exact hgas
    · rw [← hout]

/-- A call reads the message at its index exactly if the payload is a list in which this message stands, both the signed
envelope and the message in it are well-formed, and the surcharge can be paid. -/
theorem read_eq_ok_iff {attached : Option Bytes} {out : CallOutput} :
    read costs attached c = .ok out ↔
      c.input.length = Abi.wordSize ∧ ∃ payload messages bs,
        attached = some payload ∧ Predicate.decodeList payload = .ok messages ∧
        messages[Bytes.toNat c.input]? = some bs ∧ readMessage costs c bs = .ok out := by
  unfold read
  simp only [Steps.guard_eq_ok_iff, Steps.bind_eq_ok_iff, Steps.mapError_eq_ok_iff,
    Steps.elim_eq_ok_iff, ne_eq, Decidable.not_not]
  refine and_congr_right fun _ => ⟨?_, ?_⟩
  · rintro ⟨payload, hp, messages, hd, bs, hb, hread⟩
    exact ⟨payload, messages, bs, hp, hd, hb, hread⟩
  · rintro ⟨payload, messages, bs, hp, hd, hb, hread⟩
    exact ⟨payload, hp, messages, hd, bs, hb, hread⟩

/-! ### A whole call -/

theorem toNat_toBytes (i : Word) : Bytes.toNat i.toBytes = i.toNat :=
  FixedBytes.toNat_ofNat (by simpa using i.isLt)

theorem find?_getMessage (costs : GasCosts) :
    (table costs).find? (Selector.ofSignature getMessageSignature) =
      some (.ofSignature getMessageSignature costs.getMessage .nonPayable (getMessage costs)) :=
  DispatchTable.find?_ofSignature (ofFunctions_functions costs) (List.mem_cons_of_mem _ List.mem_cons_self)

theorem route_getMessage (costs : GasCosts) {args : Bytes}
    (h : c.input = (Selector.ofSignature getMessageSignature).bytes ++ args) :
    (table costs).route c.input =
      .ok (.ofSignature getMessageSignature costs.getMessage .nonPayable (getMessage costs), args) := by
  rw [h]
  exact DispatchTable.route_of_find? rfl (find?_getMessage costs)

/-- A call reads after its base cost is paid, and not if it may not change the state. -/
theorem run_packGetMessage (h : c.input = packGetMessage i) :
    ((table costs).dispatch env c).run s =
      match Gas.charge c.gas costs.getMessage with
      | none => (.error .outOfGas, s)
      | some gas =>
        if c.readOnly then (.error ⟨.writeProtection, gas⟩, s)
        else (read costs (s.attached.get? address) { c with input := i.toBytes, gas }, s) := by
  rw [DispatchTable.run_dispatch (route_getMessage costs h)]
  cases hgas : Gas.charge c.gas costs.getMessage with
  | none => simp only [ContractFunction.baseGas_ofSignature, hgas]
  | some gas =>
    simp only [ContractFunction.baseGas_ofSignature, ContractFunction.mutability_ofSignature,
      ContractFunction.handler_ofSignature, hgas, decide_true, Bool.and_true, run_getMessage]

/-- A message that a call delivers stands in the payload that is attached, and the call leaves the state as it is. -/
theorem delivered_of_run (costs : GasCosts) (env : Environment) {out : CallOutput} {t : Overlay}
    (h : c.input = packGetMessage i)
    (hrun : ((table costs).dispatch env c).run s = (.ok out, t)) :
    t = s ∧ ∃ payload messages bs signed m, s.attached.get? address = some payload ∧
      Predicate.decodeList payload = .ok messages ∧ messages[i.toNat]? = some bs ∧
      SignedEnvelope.decode bs = .ok signed ∧ Message.decode signed.envelope.payload = .ok m ∧
      out.output = encodeMessage m true := by
  rw [run_packGetMessage h] at hrun
  split at hrun
  · cases hrun
  · next gas hgas =>
    split at hrun
    · cases hrun
    · obtain ⟨hread, ht⟩ := Prod.mk.inj hrun
      obtain ⟨-, payload, messages, bs, hp, hd, hb, hmessage⟩ := read_eq_ok_iff.1 hread
      obtain ⟨signed, m, hs, -, hm, hout⟩ := readMessage_eq_ok_iff.1 hmessage
      rw [toNat_toBytes] at hb
      exact ⟨ht.symm, payload, messages, bs, signed, m, hp, hd, hb, hs, hm, hout⟩

end Interchain.Messenger
