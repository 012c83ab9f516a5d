import Interchain.Proofs.ChainConfig.Windows
import Interchain.Proofs.TwoValidators

/-!
# The state of a contract at a time

The schedule is searched by place: the last upgrade among those in effect decides. In a well-formed schedule this is
also the latest one, and the contract is enabled exactly if the number of upgrades so far is odd. Hence its state
changes at each timestamp of the schedule and nowhere else.

To speak of a change at a time one needs the state before it. `ChainConfig.enabledBefore` takes it from the second
before, and nothing is enabled before time 0.
-/

namespace Interchain

/-! ### The last of some upgrades -/

/-- Of an odd number of upgrades the last one enables. -/
theorem Upgrade.WellFormed.any_getLast?_iff_odd {us : List Upgrade} (h : WellFormed us) :
    (us.getLast?.any fun u => !u.disabled) = true ↔ Odd us.length := by
  rcases us.eq_nil_or_concat' with rfl | ⟨vs, u, rfl⟩
  · simp
  · have hu : u.disabled = true ↔ Odd vs.length := h.alternating _ u List.getElem?_concat_length
    rw [List.getLast?_concat, Option.any_some, List.length_append, List.length_singleton,
      Nat.odd_add_one, ← hu, Bool.not_eq_true', Bool.not_eq_true]

namespace ChainConfig

variable {c : ChainConfig} {us : List Upgrade} {u : Upgrade} {t : UInt64}

/-- The last upgrade in effect is the one with the greatest timestamp. -/
theorem getLast?_filter_le_eq_some_iff (h : us.Pairwise fun u v => u.timestamp < v.timestamp) :
    (us.filter fun u => u.timestamp ≤ t).getLast? = some u ↔
      u ∈ us ∧ u.timestamp ≤ t ∧ ∀ v ∈ us, v.timestamp ≤ t → v.timestamp ≤ u.timestamp := by
  have hmem : ∀ v, v ∈ (us.filter fun u => u.timestamp ≤ t) ↔ v ∈ us ∧ v.timestamp ≤ t := by
    simp
  rcases (us.filter fun u => u.timestamp ≤ t).eq_nil_or_concat' with hnil | ⟨vs, w, hvs⟩
  · rw [hnil] at hmem ⊢
    exact ⟨nofun, fun ⟨hu, hut, _⟩ => nomatch (hmem u).2 ⟨hu, hut⟩⟩
  · -- all others in effect are before the last one
    have hearlier : ∀ v ∈ vs, v.timestamp < w.timestamp := by
      have hsorted := h.filter fun u => u.timestamp ≤ t
      rw [hvs] at hsorted
      exact fun v hv => (List.pairwise_append.1 hsorted).2.2 v hv w (List.mem_singleton_self w)
    rw [hvs] at hmem ⊢
    rw [List.getLast?_concat, Option.some.injEq]
    constructor
    · rintro rfl
      obtain ⟨hw, hwt⟩ := (hmem w).1 (by simp)
      refine ⟨hw, hwt, fun v hv hvt => ?_⟩
      rcases List.mem_append.1 ((hmem v).2 ⟨hv, hvt⟩) with hv | hv
      · exact UInt64.le_of_lt (hearlier v hv)
      · exact List.mem_singleton.1 hv ▸ UInt64.le_refl _
    · rintro ⟨hu, hut, hgreatest⟩
      obtain ⟨hw, hwt⟩ := (hmem w).1 (by simp)
      rcases List.mem_append.1 ((hmem u).2 ⟨hu, hut⟩) with hu | hu
      · exact absurd (hearlier u hu) (UInt64.not_lt.2 (hgreatest w hw hwt))
      · exact (List.mem_singleton.1 hu).symm

/-! ### Counting -/

theorem countP_le_eq (us : List Upgrade) (t : UInt64) :
    us.countP (fun u => u.timestamp ≤ t) =
      us.countP (fun u => u.timestamp < t) + us.countP (fun u => u.timestamp = t) := by
  induction us with
  | nil => rfl
  | cons u us ih =>
    simp only [List.countP_cons, ih]
    grind

/-- At most one of increasing timestamps is at a given time. -/
theorem countP_eq_le_one (h : us.Pairwise fun u v => u.timestamp < v.timestamp) (t : UInt64) :
    us.countP (fun u => u.timestamp = t) ≤ 1 := by
  induction us with
  | nil => exact Nat.zero_le 1
  | cons u us ih =>
    obtain ⟨hu, hus⟩ := List.pairwise_cons.1 h
    rw [List.countP_cons]
    split
    · next heq =>
      have hnone : us.countP (fun v => v.timestamp = t) = 0 := by
        refine List.countP_eq_zero.2 fun v hv => ?_
        have huv := hu v hv
        grind
      omega
    · exact ih hus

theorem upgradesFor_key (c : ChainConfig) (k : BuiltIn) : c.upgradesFor k.key = c.upgrades :=
  List.filter_eq_self.2 fun u _ => decide_eq_true (key_eq u k)

/-- Whether the contract was enabled just before a time; nothing is enabled before time 0. -/
def enabledBefore (c : ChainConfig) (key : String) (t : UInt64) : Bool :=
  t ≠ 0 && c.isEnabled key (t - 1)

section Counting

variable (h : Upgrade.WellFormed c.upgrades) (k : BuiltIn) (t : UInt64)
include h

theorem isEnabled_iff_odd :
    c.isEnabled k.key t = true ↔ Odd (c.upgrades.countP fun u => u.timestamp ≤ t) := by
  have hprefix : (c.upgrades.filter fun u => u.timestamp ≤ t) <+: c.upgrades :=
    ⟨_, filter_le_append_filter_gt h.increasing t⟩
  rw [isEnabled_eq_getLast?_appliedAt, List.countP_eq_length_filter]
  exact (h.of_isPrefix hprefix).any_getLast?_iff_odd

theorem enabledBefore_iff_odd :
    c.enabledBefore k.key t = true ↔ Odd (c.upgrades.countP fun u => u.timestamp < t) := by
  by_cases ht : t = 0
  · subst ht
    simp [enabledBefore]
  · have hcount : (c.upgrades.countP fun u => u.timestamp ≤ t - 1) =
        c.upgrades.countP fun u => u.timestamp < t := by
      refine List.countP_congr fun u _ => ?_
      grind
    rw [enabledBefore, ← hcount, ← isEnabled_iff_odd h k (t - 1)]
    simp [ht]

/-- The state changes at the timestamps of the upgrades only. -/
theorem isEnabled_ne_enabledBefore_iff :
    c.isEnabled k.key t ≠ c.enabledBefore k.key t ↔ ∃ u ∈ c.upgrades, u.timestamp = t := by
  have hnow := isEnabled_iff_odd h k t
  have hbefore := enabledBefore_iff_odd h k t
  have hone := countP_eq_le_one h.increasing t
  have hsome : 0 < c.upgrades.countP (fun u => u.timestamp = t) ↔ ∃ u ∈ c.upgrades, u.timestamp = t := by
    simp [List.countP_pos_iff]
  rw [countP_le_eq] at hnow
  rw [← hsome, ne_eq, Bool.eq_iff_iff, hnow, hbefore]
  rcases Nat.le_one_iff_eq_zero_or_eq_one.1 hone with hzero | hone
  · simp [hzero]
  · rw [hone, Nat.odd_add_one]
    exact iff_of_true (fun hsame => iff_not_self hsame.symm) Nat.one_pos

end Counting

/-! ### Every time -/

theorem isEnabled_iff_isActive (c : ChainConfig) (key : String) (t : UInt64) :
    c.isEnabled key t = true ↔ ∃ u, c.activeAt key t = some u ∧ u.isActive t = true := by
  rw [isEnabled, Option.any_eq_true]
  refine exists_congr fun u => and_congr_right fun hu => ?_
  have hineffect := (List.mem_filter.1 (List.mem_of_getLast? hu)).2
  rw [Bool.and_eq_true] at hineffect
  rw [Upgrade.isActive, hineffect.2, Bool.true_and]

/-- In a schedule that is accepted, the upgrade that is active at a time is the latest one up to that time. The contract is
enabled while their number is odd: the state changes at every timestamp of the schedule and at no other time, and it is
that of the active upgrade. -/
theorem state_of_verifyUpgrades (h : c.verifyUpgrades = .ok ()) (k : BuiltIn) (t : UInt64) :
    (∀ u, c.activeAt k.key t = some u ↔
      u ∈ c.upgradesFor k.key ∧ u.timestamp ≤ t ∧
        ∀ v ∈ c.upgradesFor k.key, v.timestamp ≤ t → v.timestamp ≤ u.timestamp) ∧
    (c.activeAt k.key t = none ↔ ∀ u ∈ c.upgradesFor k.key, t < u.timestamp) ∧
    (c.isEnabled k.key t = true ↔ Odd ((c.upgradesFor k.key).countP fun u => u.timestamp ≤ t)) ∧
    (c.isEnabled k.key t ≠ c.enabledBefore k.key t ↔ ∃ u ∈ c.upgradesFor k.key, u.timestamp = t) ∧
    (c.isEnabled k.key t = true ↔ ∃ u, c.activeAt k.key t = some u ∧ u.isActive t = true) := by
  have hwell := verifyUpgrades_eq_ok_iff.1 h
  rw [upgradesFor_key]
  refine ⟨fun u => ?_, ?_, isEnabled_iff_odd hwell k t, isEnabled_ne_enabledBefore_iff hwell k t,
    isEnabled_iff_isActive c k.key t⟩
  · rw [activeAt_eq_getLast?_appliedAt]
    exact getLast?_filter_le_eq_some_iff hwell.increasing
  · rw [activeAt_eq_getLast?_appliedAt, List.getLast?_eq_none_iff, appliedAt_eq_nil_iff]

/-- Before the first upgrade, at the second and after the third. -/
theorem state_of_verifyUpgrades_alternating :
    TwoValidators.alternating.verifyUpgrades = .ok () ∧
    TwoValidators.alternating.activeAt BuiltIn.warpMessenger.key 4 = none ∧
    TwoValidators.alternating.activeAt BuiltIn.warpMessenger.key 8 =
      some { timestamp := 8, disabled := true } ∧
    TwoValidators.alternating.isEnabled BuiltIn.warpMessenger.key 8 ≠
      TwoValidators.alternating.enabledBefore BuiltIn.warpMessenger.key 8 ∧
    TwoValidators.alternating.isEnabled BuiltIn.warpMessenger.key 13 = true ∧
    TwoValidators.alternating.isEnabled BuiltIn.warpMessenger.key 13 =
      TwoValidators.alternating.enabledBefore BuiltIn.warpMessenger.key 13 := by
  have h : TwoValidators.alternating.verifyUpgrades = .ok () := rfl
  obtain ⟨-, hbefore, -⟩ := state_of_verifyUpgrades h .warpMessenger 4
  obtain ⟨hlatest, -, -, hchange, -⟩ := state_of_verifyUpgrades h .warpMessenger 8
  obtain ⟨-, -, hcount, hsame, -⟩ := state_of_verifyUpgrades h .warpMessenger 13
  rw [upgradesFor_key] at hbefore hlatest hchange hcount hsame
  refine ⟨h, hbefore.2 (by decide), (hlatest _).2 (by decide), hchange.2 (by decide), hcount.2 ?_, ?_⟩
  · decide
  · exact not_not.1 fun hne => absurd (hsame.1 hne) (by decide)

end ChainConfig

end Interchain
