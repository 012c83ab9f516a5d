import Interchain.Proofs.ChainConfig.Compatible
import Interchain.Proofs.Precompile.Activation
import Interchain.Proofs.TwoValidators
import Mathlib.Data.List.Basic

/-!
# A change of configuration that leaves the past alone

A node may get a new configuration while its chain is running. If that is compatible with the stored one at the
head, nothing up to the head comes out differently: not what a call runs, not the verdict on the predicates of a
block, not the changes that a block makes to the state.

Calls and predicates look at nothing but which contracts are enabled, so for them any registry would do. Upgrades
hand the configuration itself to a contract. The main result is therefore about registries that hold the messenger
alone, which has nothing to configure.
-/

namespace Interchain

variable {registry : Registry} {a b : ChainConfig} {head t : UInt64}

/-! ### Calls and predicates -/

namespace Registry

theorem active?_congr (h : ∀ key, a.isEnabled key t = b.isEnabled key t) (x : Address) :
    registry.active? a x t = registry.active? b x t := by
  simp only [active?, h]

theorem run_congr {env : Environment} {c : Call}
    (h : ∀ key, a.isEnabled key env.block.timestamp = b.isEnabled key env.block.timestamp) :
    registry.run a env c = registry.run b env c := by
  rw [run, run, active?_congr h]

end Registry

namespace BlockCheck

theorem checkItem_congr (h : ∀ key, a.isEnabled key t = b.isEnabled key t) (ctx : PredicateContext) :
    checkItem registry a ctx t = checkItem registry b ctx t := by
  funext verified item
  simp only [checkItem, predicateAt?, Registry.active?_congr h]

theorem check_congr (h : ∀ key, a.isEnabled key t = b.isEnabled key t) (ctx : PredicateContext)
    (transactions : List AccessList) :
    check registry a ctx t transactions = check registry b ctx t transactions := by
  simp only [check, checkTransaction, checkItems, checkItem_congr h]

end BlockCheck

/-! ### Upgrades -/

namespace Registry

variable {scheme : SignatureScheme} {costs : GasCosts} {quorum : Quorum}

theorem applyUpgrade_congr (h : ofList [Messenger.precompile scheme costs quorum] = .ok registry) :
    registry.applyUpgrade a = registry.applyUpgrade b := by
  funext block u
  have hget : registry.get? u.address = some (Messenger.precompile scheme costs quorum) := by
    rw [get?_of_ofList_singleton h]
    exact if_pos u.address_eq
  simp only [applyUpgrade, hget]
  rfl

/-- If two configurations are compatible at a head, then up to the head every call runs the same steps under both, every
block gets the same verdict on its predicates, and every block makes the same changes, whatever its parent. -/
theorem indistinguishable_of_checkCompatible
    (hregistry : ofList [Messenger.precompile scheme costs quorum] = .ok registry)
    (h : a.checkCompatible b head = .ok ()) :
    (∀ env c, env.block.timestamp ≤ head → registry.run a env c = registry.run b env c) ∧
    (∀ ctx t transactions, t ≤ head →
      BlockCheck.check registry a ctx t transactions = BlockCheck.check registry b ctx t transactions) ∧
    ∀ parent block s, block.timestamp ≤ head →
      (registry.applyActivations a parent block).run s =
        (registry.applyActivations b parent block).run s := by
  have hpast := ChainConfig.checkCompatible_eq_ok_iff.1 h
  refine ⟨fun env c ht => ?_, fun ctx t transactions ht => ?_, fun parent block s ht => ?_⟩
  · exact run_congr (ChainConfig.isEnabled_congr hpast ht)
  · exact BlockCheck.check_congr (ChainConfig.isEnabled_congr hpast ht) ctx transactions
  · rw [applyActivations, applyActivations, ChainConfig.activations_congr hpast ht,
      applyUpgrade_congr hregistry]

/-- Two schedules that part after 10. Both enable the messenger at 7, so that the transaction with the message of the
second validator passes; both disable it at 8, and a block at 10 shows that. -/
theorem indistinguishable_alternating_rescheduled :
    ofList [Messenger.precompile TwoValidators.scheme .standard TwoValidators.quorum] =
      .ok TwoValidators.registry ∧
    TwoValidators.alternating.checkCompatible TwoValidators.rescheduled 10 = .ok () ∧
    BlockCheck.check TwoValidators.registry TwoValidators.alternating TwoValidators.context 7
      [TwoValidators.accessList] = .ok [TwoValidators.payloads] ∧
    BlockCheck.check TwoValidators.registry TwoValidators.rescheduled TwoValidators.context 7
      [TwoValidators.accessList] = .ok [TwoValidators.payloads] ∧
    TwoValidators.alternating.activations (some 7) 10 = [{ timestamp := 8, disabled := true }] ∧
    ∀ s, (TwoValidators.registry.applyActivations TwoValidators.alternating (some 7) ⟨2, 10⟩).run s =
      (TwoValidators.registry.applyActivations TwoValidators.rescheduled (some 7) ⟨2, 10⟩).run s := by
  have hregistry := ofList_singleton
    (Messenger.precompile TwoValidators.scheme .standard TwoValidators.quorum)
  have hcompatible : TwoValidators.alternating.checkCompatible TwoValidators.rescheduled 10 = .ok () := by
    decide +kernel
  have hpasses : BlockCheck.check TwoValidators.registry TwoValidators.alternating
      TwoValidators.context 7 [TwoValidators.accessList] = .ok [TwoValidators.payloads] := by
    decide +kernel
  obtain ⟨-, hcheck, happly⟩ := indistinguishable_of_checkCompatible hregistry hcompatible
  exact ⟨hregistry, hcompatible, hpasses, (hcheck _ 7 _ (by decide)).symm.trans hpasses, by decide,
    fun s => happly (some 7) ⟨2, 10⟩ s (by decide)⟩

end Registry

end Interchain
