import Interchain.Proofs.Precompile.Effects

/-!
# Sequences of calls

The messenger is called over and over on the same state. All that this leaves behind are the logs of the messages
that were sent, one for each and in their order, while a call that fails or is read-only leaves the state exactly as
it was.

`Messenger.OnlySends` says this of executions, and `Messenger.onlySends_cons` is the step: what one call may do, in
front of a sequence that does no more. Other contracts and other changes of the state do not occur in such a
sequence.
-/

namespace Interchain

/-! ### Executions -/

/-- A call that has been run, with its answer and the states around it. -/
structure Execution where
  env : Environment
  call : Call
  before : Overlay
  answer : Except CallFailure CallOutput
  after : Overlay

namespace Precompile

variable (p : Precompile)

def execute (env : Environment) (c : Call) (s : Overlay) : Execution where
  env := env
  call := c
  before := s
  answer := ((p.run env c).run s).1
  after := ((p.run env c).run s).2

/-- Runs calls one after the other, each on the state that the one before has left. The last state comes with them. -/
def executeAll : List (Environment × Call) → Overlay → List Execution × Overlay
  | [], s => ([], s)
  | (env, c) :: calls, s =>
    let x := p.execute env c s
    let rest := executeAll calls x.after
    (x :: rest.1, rest.2)

end Precompile

namespace Execution

/-- Whether a call of `sendMessage` has succeeded. -/
def sends (x : Execution) : Bool :=
  x.answer.isOk && Messenger.selectsSend x.call

/-- A log of the messenger that records the message of a call. -/
structure Records (x : Execution) (log : Log) : Prop where
  address : log.address = Messenger.address
  message : ∃ m, Message.decode log.data = .ok m ∧ Messenger.SentBy x.env x.call m ∧
    log.topics = [Messenger.sentTopic, x.env.chain.chainId, m.destinationChain]

end Execution

namespace Messenger

variable {costs : GasCosts} {env : Environment} {c : Call} {s t : Overlay} {m : Message} {x : Execution}
  {xs : List Execution}

theorem records_sentLog (hm : Sends costs x.env x.call m) : x.Records (sentLog m) where
  address := by rw [sentLog]
  message := by
    refine ⟨m, decode_wire_of_length_le hm.length_le, hm.sentBy, ?_⟩
    rw [sentLog, hm.sentBy.originChain]

theorem sends_of_isOk (hok : x.answer.isOk = true) (hm : Sends costs x.env x.call m) : x.sends = true := by
  rw [Execution.sends, hok, hm.selects, Bool.and_self]

/-! ### From one call to a sequence -/

/-- Executions that lead from one state to another change it by the logs of what was sent, one for each message and in
their order. A call that fails or may not change the state does nothing. -/
structure OnlySends (costs : GasCosts) (s : Overlay) (xs : List Execution) (t : Overlay) : Prop where
  /-- A call sends whenever it can. -/
  sends_iff : ∀ x ∈ xs, x.sends = true ↔ ∃ m, Sends costs x.env x.call m
  unchanged : ∀ x ∈ xs, x.answer.isOk = false ∨ x.call.readOnly = true → x.after = x.before
  logs : ∃ added, t = { s with logs := s.logs ++ added } ∧
    List.Forall₂ Execution.Records (xs.filter Execution.sends) added

theorem OnlySends.nil (costs : GasCosts) (s : Overlay) : OnlySends costs s [] s where
  sends_iff _ hx := absurd hx List.not_mem_nil
  unchanged _ hx := absurd hx List.not_mem_nil
  logs := by
    refine ⟨[], ?_, .nil⟩
    rw [List.append_nil]

theorem OnlySends.cons_unchanged (hbefore : x.before = s) (hafter : x.after = s) (hx : x.sends = false)
    (hnone : ∀ m, ¬ Sends costs x.env x.call m) (h : OnlySends costs s xs t) :
    OnlySends costs s (x :: xs) t where
  sends_iff := by
    refine List.forall_mem_cons.2 ⟨⟨fun hsends => ?_, fun ⟨m, hm⟩ => absurd hm (hnone m)⟩, h.sends_iff⟩
    rw [hx] at hsends
    cases hsends
  unchanged := List.forall_mem_cons.2 ⟨fun _ => hafter.trans hbefore.symm, h.unchanged⟩
  logs := by
    rw [List.filter_cons_of_neg (by simp [hx])]
    exact h.logs

theorem OnlySends.cons_sent (hok : x.answer.isOk = true) (hm : Sends costs x.env x.call m)
    (h : OnlySends costs (s.addLog (sentLog m)) xs t) : OnlySends costs s (x :: xs) t where
  sends_iff := List.forall_mem_cons.2 ⟨⟨fun _ => ⟨m, hm⟩, fun _ => sends_of_isOk hok hm⟩, h.sends_iff⟩
  unchanged := by
    refine List.forall_mem_cons.2 ⟨fun hidle => ?_, h.unchanged⟩
    rw [hok, hm.writable] at hidle
    simp at hidle
  logs := by
    obtain ⟨added, ht, hadded⟩ := h.logs
    refine ⟨sentLog m :: added, ?_, ?_⟩
    · rw [ht, Overlay.addLog, List.append_assoc, List.singleton_append]
    · rw [List.filter_cons_of_pos (sends_of_isOk hok hm)]
      exact .cons (records_sentLog hm) hadded

/-- One more call at the front of a sequence. -/
theorem onlySends_cons {scheme : SignatureScheme} {quorum : Quorum}
    (h : OnlySends costs ((precompile scheme costs quorum).execute env c s).after xs t) :
    OnlySends costs s ((precompile scheme costs quorum).execute env c s :: xs) t := by
  have heffect := run_effect scheme costs quorum env c s
  unfold Precompile.execute at h ⊢
  generalize ((precompile scheme costs quorum).run env c).run s = r at heffect h ⊢
  obtain ⟨answer, u⟩ := r
  cases heffect with
  | unchanged hidle hnone => exact h.cons_unchanged rfl rfl hidle hnone
  | sent hm => exact h.cons_sent rfl hm

/-- Whatever calls of the messenger run one after the other, on whatever state and with whatever gas: a call sends just
if it can, one that fails or is read-only leaves the state exactly as it was, and at the end the state differs from the
first in its logs alone, to which each message that was sent has added one. -/
theorem executeAll_onlySends (scheme : SignatureScheme) (costs : GasCosts) (quorum : Quorum)
    (calls : List (Environment × Call)) (s : Overlay) :
    OnlySends costs s ((precompile scheme costs quorum).executeAll calls s).1
      ((precompile scheme costs quorum).executeAll calls s).2 := by
  induction calls generalizing s with
  | nil => exact .nil costs s
  | cons call calls ih =>
    obtain ⟨env, c⟩ := call
    exact onlySends_cons (ih _)

end Messenger

end Interchain
