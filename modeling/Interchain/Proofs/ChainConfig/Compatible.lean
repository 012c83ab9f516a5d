import Interchain.Proofs.ChainConfig.Windows

/-!
# Configurations that agree on the past

Two configurations are compatible at a head if the same upgrades have taken effect by then. Whatever picks upgrades
that are not later than the head picks the same ones from both, in whatever order the schedules stand: the state of
a contract, and the window of a block with any parent.
-/

namespace Interchain.ChainConfig

variable {a b c : ChainConfig} {head t : UInt64}

theorem effective_eq_appliedAt (c : ChainConfig) (contract : BuiltIn) (head : UInt64) :
    c.effective contract head = c.appliedAt (some head) := by
  have hsplit := List.filter_filter (p := fun u : Upgrade => decide (u.contract = contract))
    (q := fun u : Upgrade => decide (u.timestamp ≤ head)) (l := c.upgrades)
  rw [effective, ← hsplit]
  exact filter_contract_eq _ contract

theorem checkCompatible_eq_ok_iff :
    a.checkCompatible b head = .ok () ↔ a.appliedAt (some head) = b.appliedAt (some head) := by
  rw [checkCompatible, Steps.forM_eq_ok_iff]
  simp only [effective_eq_appliedAt]
  constructor
  · intro h
    have hmessenger := h .warpMessenger (List.mem_singleton_self _)
    split at hmessenger
    · next heq => exact heq
    · cases hmessenger
  · intro h k _
    exact if_pos h

/-- A selection of upgrades that are not later than the head. -/
theorem filter_upgrades_congr (h : a.appliedAt (some head) = b.appliedAt (some head))
    {p : Upgrade → Bool} (hp : ∀ u, p u = true → u.timestamp ≤ head) :
    a.upgrades.filter p = b.upgrades.filter p := by
  have hpast : ∀ c : ChainConfig, c.upgrades.filter p = (c.appliedAt (some head)).filter p := by
    intro c
    rw [appliedAt, List.filter_filter]
    refine List.filter_congr fun u _ => ?_
    cases hu : p u with
    | false => rfl
    | true => exact (decide_eq_true (hp u hu)).symm
  rw [hpast a, hpast b, h]

variable (h : a.appliedAt (some head) = b.appliedAt (some head)) (ht : t ≤ head)
include h ht

/-- The last upgrade of a contract in effect, by its place in the schedule. -/
theorem activeAt_congr (key : String) : a.activeAt key t = b.activeAt key t := by
  refine congrArg List.getLast? (filter_upgrades_congr h fun u hu => ?_)
  rw [Bool.and_eq_true, decide_eq_true_eq, decide_eq_true_eq] at hu
  exact UInt64.le_trans hu.2 ht

theorem isEnabled_congr (key : String) : a.isEnabled key t = b.isEnabled key t := by
  rw [isEnabled, isEnabled, activeAt_congr h ht key]

/-- The window of a block that is not later than the head, after any parent. -/
theorem activations_congr (parent : Option UInt64) : a.activations parent t = b.activations parent t := by
  refine filter_upgrades_congr h fun u hu => ?_
  rw [Bool.and_eq_true, decide_eq_true_eq] at hu
  exact UInt64.le_trans hu.1 ht

end Interchain.ChainConfig
