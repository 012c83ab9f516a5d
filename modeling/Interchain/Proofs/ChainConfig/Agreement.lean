import Interchain.Proofs.ChainConfig.Compatible
import Interchain.Proofs.ChainConfig.States
import Mathlib.Data.List.Sort

/-!
# Compatibility is agreement on the past

Two configurations are compatible at a head if the lists of their upgrades up to the head are equal. Where the
timestamps increase, such a list is known from what it answers: each upgrade is the active one at its own timestamp.
So schedules that are accepted are compatible exactly if the same upgrades are active at all times up to the head.

Without increasing timestamps this fails, as an upgrade may never be the active one. That compatibility is an
equivalence, and passes to earlier heads, holds in any case.
-/

namespace Interchain.ChainConfig

variable {a b c : ChainConfig} {us vs : List Upgrade} {u : Upgrade} {head earlier : UInt64}

/-! ### A schedule from its answers -/

/-- An upgrade is the active one at its own timestamp. -/
theorem mem_of_getLast?_eq (hus : us.Pairwise fun u v => u.timestamp < v.timestamp)
    (h : ∀ t ≤ head, (us.filter fun u => u.timestamp ≤ t).getLast? =
      (vs.filter fun u => u.timestamp ≤ t).getLast?)
    (hu : u ∈ us) (hle : u.timestamp ≤ head) : u ∈ vs := by
  have hlast : (us.filter fun v => v.timestamp ≤ u.timestamp).getLast? = some u :=
    (getLast?_filter_le_eq_some_iff hus).2 ⟨hu, UInt64.le_refl _, fun _ _ hv => hv⟩
  rw [h u.timestamp hle] at hlast
  exact (List.mem_filter.1 (List.mem_of_getLast? hlast)).1

theorem filter_le_eq_of_getLast?_eq (hus : us.Pairwise fun u v => u.timestamp < v.timestamp)
    (hvs : vs.Pairwise fun u v => u.timestamp < v.timestamp)
    (h : ∀ t ≤ head, (us.filter fun u => u.timestamp ≤ t).getLast? =
      (vs.filter fun u => u.timestamp ≤ t).getLast?) :
    us.filter (fun u => u.timestamp ≤ head) = vs.filter fun u => u.timestamp ≤ head := by
  have : Std.Irrefl fun u v : Upgrade => u.timestamp < v.timestamp := ⟨fun u => UInt64.lt_irrefl _⟩
  have : Std.Antisymm fun u v : Upgrade => u.timestamp < v.timestamp :=
    ⟨fun _ _ huv hvu => absurd hvu (UInt64.lt_asymm huv)⟩
  refine (hus.filter _).eq_of_mem_iff (hvs.filter _) fun u => ?_
  simp only [List.mem_filter, decide_eq_true_eq]
  exact ⟨fun ⟨hu, hle⟩ => ⟨mem_of_getLast?_eq hus h hu hle, hle⟩,
    fun ⟨hu, hle⟩ => ⟨mem_of_getLast?_eq hvs (fun t ht => (h t ht).symm) hu hle, hle⟩⟩

/-! ### Compatibility as a relation -/

theorem checkCompatible_equivalence (head : UInt64) :
    Equivalence fun a b : ChainConfig => a.checkCompatible b head = .ok () where
  refl _ := checkCompatible_eq_ok_iff.2 rfl
  symm hab := checkCompatible_eq_ok_iff.2 (checkCompatible_eq_ok_iff.1 hab).symm
  trans hab hbc := checkCompatible_eq_ok_iff.2
    ((checkCompatible_eq_ok_iff.1 hab).trans (checkCompatible_eq_ok_iff.1 hbc))

theorem checkCompatible_of_le (hle : earlier ≤ head) (h : a.checkCompatible b head = .ok ()) :
    a.checkCompatible b earlier = .ok () := by
  refine checkCompatible_eq_ok_iff.2 (filter_upgrades_congr (checkCompatible_eq_ok_iff.1 h) fun u hu => ?_)
  exact UInt64.le_trans (of_decide_eq_true hu) hle

/-- Two schedules that are accepted are compatible at a head if and only if the same upgrades are active in both at every
time up to the head. In general, compatibility at a head is an equivalence, and implies compatibility at every earlier
head. -/
theorem checkCompatible_iff_samePast :
    (∀ (a b : ChainConfig) (head : UInt64), a.verifyUpgrades = .ok () → b.verifyUpgrades = .ok () →
      (a.checkCompatible b head = .ok () ↔
        ∀ (k : BuiltIn) (t : UInt64), t ≤ head → a.activeAt k.key t = b.activeAt k.key t)) ∧
    (∀ head, Equivalence fun a b : ChainConfig => a.checkCompatible b head = .ok ()) ∧
    ∀ (a b : ChainConfig) (earlier head : UInt64), earlier ≤ head →
      a.checkCompatible b head = .ok () → a.checkCompatible b earlier = .ok () := by
  refine ⟨fun a b head ha hb => ⟨fun h k t ht => ?_, fun h => ?_⟩, checkCompatible_equivalence,
    fun _ _ _ _ => checkCompatible_of_le⟩
  · exact activeAt_congr (checkCompatible_eq_ok_iff.1 h) ht k.key
  · have hanswers := h .warpMessenger
    simp only [activeAt_eq_getLast?_appliedAt] at hanswers
    exact checkCompatible_eq_ok_iff.2 (filter_le_eq_of_getLast?_eq
      (verifyUpgrades_eq_ok_iff.1 ha).increasing (verifyUpgrades_eq_ok_iff.1 hb).increasing hanswers)

/-- A schedule and the same with its last upgrade put off: they part at 12. -/
theorem checkCompatible_iff_samePast_postponed :
    TwoValidators.alternating.verifyUpgrades = .ok () ∧
    TwoValidators.postponed.verifyUpgrades = .ok () ∧
    TwoValidators.alternating.checkCompatible TwoValidators.postponed 11 = .ok () ∧
    (∀ (k : BuiltIn) (t : UInt64), t ≤ 11 →
      TwoValidators.alternating.activeAt k.key t = TwoValidators.postponed.activeAt k.key t) ∧
    TwoValidators.alternating.checkCompatible TwoValidators.postponed 7 = .ok () ∧
    TwoValidators.alternating.checkCompatible TwoValidators.postponed 12 ≠ .ok () := by
  obtain ⟨hagree, -, hearlier⟩ := checkCompatible_iff_samePast
  have h : TwoValidators.alternating.verifyUpgrades = .ok () := rfl
  have h' : TwoValidators.postponed.verifyUpgrades = .ok () := rfl
  have hcompatible : TwoValidators.alternating.checkCompatible TwoValidators.postponed 11 = .ok () := by
    decide
  refine ⟨h, h', hcompatible, (hagree _ _ 11 h h').1 hcompatible, hearlier _ _ 7 11 (by decide) hcompatible,
    fun hlater => ?_⟩
  have hsame := (hagree _ _ 12 h h').1 hlater .warpMessenger 12 (by decide)
  exact absurd hsame (by decide)

end Interchain.ChainConfig
