import Interchain.Proofs.Precompile.Active
import Interchain.Proofs.Precompile.Reading
import Interchain.Proofs.Precompile.Sending

/-!
# What a call changes

What one call of the messenger may do to the state: nothing, unless it can send a message; then it succeeds and adds
the log of that message. `Messenger.Effect` says so of every call, and `Messenger.Sends` what it takes, in terms of
the call alone.

The two other functions never touch the state. `getMessage` is refused in a read-only call nevertheless, as its
declaration does not say that it only reads.
-/

namespace Interchain

/-! ### More logs -/

/-- A state is another one with more logs. -/
def Overlay.AddsLogs (s t : Overlay) : Prop :=
  ∃ added, t = { s with logs := s.logs ++ added }

namespace Overlay

theorem AddsLogs.refl (s : Overlay) : s.AddsLogs s := by
  refine ⟨[], ?_⟩
  rw [List.append_nil]

theorem addsLogs_addLog (s : Overlay) (log : Log) : s.AddsLogs (s.addLog log) := ⟨[log], rfl⟩

end Overlay

/-! ### Calls of the messenger -/

namespace Messenger

variable {costs : GasCosts} {env : Environment} {c : Call} {s : Overlay} {m : Message} {f : ContractFunction}

/-- Whether a call selects `sendMessage`. -/
def selectsSend (c : Call) : Bool :=
  Abi.selector? c.input = some (Selector.ofSignature sendMessageSignature)

/-- A message that a call sends: it comes from the executing chain and the caller, and the rest of it stands in the
arguments. -/
structure SentBy (env : Environment) (c : Call) (m : Message) : Prop where
  originChain : m.originChain = env.chain.chainId
  sender : m.sender = c.caller.leftPad
  destinationChain : Abi.wordAt? (c.input.drop 4) 0 = some m.destinationChain
  recipient : Abi.wordAt? (c.input.drop 4) 32 = some m.recipient
  payload : Abi.bytesAt? (c.input.drop 4) 64 = some m.payload

/-- A call that can send a message: it may change the state, pays the price, and describes a message whose payload is
short enough. -/
structure Sends (costs : GasCosts) (env : Environment) (c : Call) (m : Message) : Prop where
  selects : selectsSend c = true
  writable : c.readOnly = false
  paid : costs.sendMessage.toNat ≤ c.gas.toNat
  sentBy : SentBy env c m
  length_le : m.payload.length ≤ Message.maxPayload

/-- What a call of the messenger may do to the state: nothing, unless it can send a message. Then it succeeds and adds
the log of the message. -/
inductive Effect (costs : GasCosts) (env : Environment) (c : Call) (s : Overlay) :
    Except CallFailure CallOutput → Overlay → Prop where
  | unchanged {answer : Except CallFailure CallOutput} (hanswer : (answer.isOk && selectsSend c) = false)
    (hnone : ∀ m, ¬ Sends costs env c m) : Effect costs env c s answer s
  | sent {m : Message} {out : CallOutput} (hm : Sends costs env c m) :
    Effect costs env c s (.ok out) (s.addLog (sentLog m))

theorem Effect.of_error {e : CallFailure} (hnone : ∀ m, ¬ Sends costs env c m) :
    Effect costs env c s (.error e) s := .unchanged rfl hnone

theorem compose_eq_ok_iff_sentBy {gas : UInt64} :
    compose env { c with input := c.input.drop 4, gas } = .ok m ↔
      SentBy env c m ∧ m.payload.length ≤ Message.maxPayload := by
  rw [compose_eq_ok_iff]
  constructor
  · rintro ⟨destinationChain, recipient, payload, hd, hr, hp, hle, rfl⟩
    exact ⟨⟨rfl, rfl, hd, hr, hp⟩, hle⟩
  · rintro ⟨⟨horigin, hsender, hd, hr, hp⟩, hle⟩
    refine ⟨m.destinationChain, m.recipient, m.payload, hd, hr, hp, hle, ?_⟩
    rw [← horigin, ← hsender]

theorem selectsSend_of_input {args : Bytes}
    (h : c.input = (Selector.ofSignature sendMessageSignature).bytes ++ args) :
    selectsSend c = true ∧ c.input.drop 4 = args := by
  rw [selectsSend, h]
  exact ⟨decide_eq_true (DispatchTable.selector?_append _ _), DispatchTable.drop_append _ _⟩

/-- A call of `sendMessage` sends after its base cost is paid, and not if it may not change the state. -/
theorem run_of_selectsSend (hselects : selectsSend c = true) :
    ((table costs).dispatch env c).run s =
      match Gas.charge c.gas costs.sendMessage with
      | none => (.error .outOfGas, s)
      | some gas =>
        if c.readOnly then (.error ⟨.writeProtection, gas⟩, s)
        else (sendMessage env { c with input := c.input.drop 4, gas }).run s := by
  have hroute : (table costs).route c.input =
      .ok (.ofSignature sendMessageSignature costs.sendMessage .nonPayable sendMessage, c.input.drop 4) :=
    (DispatchTable.route_eq_ok_iff rfl).2 ⟨_, of_decide_eq_true hselects, find?_sendMessage costs, rfl⟩
  rw [DispatchTable.run_dispatch hroute]
  cases hgas : Gas.charge c.gas costs.sendMessage with
  | none => simp only [ContractFunction.baseGas_ofSignature, hgas]
  | some gas =>
    simp only [ContractFunction.baseGas_ofSignature, ContractFunction.mutability_ofSignature,
      ContractFunction.handler_ofSignature, hgas, decide_true, Bool.and_true]

theorem effect_of_selectsSend (hselects : selectsSend c = true) :
    let r := ((table costs).dispatch env c).run s
    Effect costs env c s r.1 r.2 := by
  rw [run_of_selectsSend hselects]
  cases hgas : Gas.charge c.gas costs.sendMessage with
  | none =>
    refine .of_error fun m hm => ?_
    obtain ⟨gas, hpaid, -⟩ := exists_charge hm.paid
    rw [hgas] at hpaid
    cases hpaid
  | some gas =>
    have hpaid : costs.sendMessage.toNat ≤ c.gas.toNat := by
      rw [Gas.charge_eq_some_iff.1 hgas]
      exact Nat.le_add_right _ _
    by_cases hread : c.readOnly = true
    · simp only [if_pos hread]
      refine .of_error fun m hm => ?_
      rw [hm.writable] at hread
      cases hread
    · simp only [if_neg hread, run_sendMessage]
      cases hcompose : compose env { c with input := c.input.drop 4, gas } with
      | error e =>
        refine .of_error fun m hm => ?_
        rw [compose_eq_ok_iff_sentBy.2 ⟨hm.sentBy, hm.length_le⟩] at hcompose
        cases hcompose
      | ok m =>
        obtain ⟨hsentBy, hle⟩ := compose_eq_ok_iff_sentBy.1 hcompose
        exact .sent ⟨hselects, eq_false_of_ne_true hread, hpaid, hsentBy, hle⟩

/-- The other functions leave the state as it is. -/
theorem run_handler_of_ne (hf : f ∈ functions costs)
    (hne : f.selector ≠ Selector.ofSignature sendMessageSignature) (c : Call) :
    ((f.handler env c).run s).2 = s := by
  simp only [functions, List.mem_cons, List.not_mem_nil, or_false] at hf
  rcases hf with rfl | rfl | rfl
  · rw [ContractFunction.handler_ofSignature, getChainId]
    split
    · rfl
    · rfl
  · rw [ContractFunction.handler_ofSignature, run_getMessage]
  · exact absurd (ContractFunction.selector_ofSignature _ _ _ _) hne

theorem run_of_not_selectsSend (hselects : selectsSend c = false) :
    (((table costs).dispatch env c).run s).2 = s := by
  cases hroute : (table costs).route c.input with
  | error e => rw [DispatchTable.run_dispatch_of_error hroute]
  | ok r =>
    obtain ⟨f, args⟩ := r
    obtain ⟨sel, hsel, hfind, rfl⟩ := (DispatchTable.route_eq_ok_iff rfl).1 hroute
    have hf : f ∈ functions costs := List.mem_of_find?_eq_some hfind
    have hselector : f.selector = sel := by simpa using List.find?_some hfind
    have hne : f.selector ≠ Selector.ofSignature sendMessageSignature := fun h =>
      of_decide_eq_false hselects (hsel.trans (congrArg some (hselector.symm.trans h)))
    rw [DispatchTable.run_dispatch hroute]
    cases Gas.charge c.gas f.baseGas with
    | none => rfl
    | some gas =>
      by_cases hread : (c.readOnly && f.mutability = .nonPayable) = true
      · simp only [if_pos hread]
      · simp only [if_neg hread]
        exact run_handler_of_ne hf hne _

theorem run_effect (scheme : SignatureScheme) (costs : GasCosts) (quorum : Quorum) (env : Environment)
    (c : Call) (s : Overlay) :
    let r := ((precompile scheme costs quorum).run env c).run s
    Effect costs env c s r.1 r.2 := by
  show Effect costs env c s (((table costs).dispatch env c).run s).1 (((table costs).dispatch env c).run s).2
  cases hselects : selectsSend c with
  | true => exact effect_of_selectsSend hselects
  | false =>
    rw [run_of_not_selectsSend hselects]
    refine .unchanged ?_ fun m hm => ?_
    · rw [hselects, Bool.and_false]
    · rw [hm.selects] at hselects
      cases hselects

/-- A call of the messenger only adds logs, whether it succeeds or not. -/
theorem addsLogs_run (scheme : SignatureScheme) (costs : GasCosts) (quorum : Quorum) (env : Environment)
    (c : Call) (s : Overlay) : s.AddsLogs (((precompile scheme costs quorum).run env c).run s).2 := by
  have h := run_effect scheme costs quorum env c s
  generalize ((precompile scheme costs quorum).run env c).run s = r at h
  obtain ⟨answer, t⟩ := r
  cases h with
  | unchanged _ _ => exact .refl _
  | sent _ => exact Overlay.addsLogs_addLog _ _

end Messenger

/-- A call of a built-in contract only adds logs. -/
theorem Registry.addsLogs_run {registry : Registry} {config : ChainConfig} {scheme : SignatureScheme}
    {env : Environment} {c : Call} {action : CallM CallOutput} (s : Overlay)
    (h : ofConfig scheme config = .ok registry) (hrun : registry.run config env c = some action) :
    s.AddsLogs (action.run s).2 := by
  obtain ⟨p, hactive, rfl⟩ := run_eq_some_iff.1 hrun
  obtain ⟨-, rfl⟩ := active?_ofConfig h hactive
  exact Messenger.addsLogs_run scheme .standard config.quorum env c s

end Interchain
