import Interchain.ChainConfig.Schedule
import Interchain.Proofs.Steps
import Mathlib.Algebra.Ring.Parity
import Mathlib.Data.List.Basic
import Mathlib.Data.List.Induction
import Mathlib.Order.Bounds.Defs

/-!
# Well-formed schedules

The upgrades of a contract are checked in their order, each against the one before it. What these checks come to is
that the timestamps increase and that every second upgrade disables; the first one that breaks this decides the
error.

The induction is on the schedule from its end. One upgrade more is one check more behind all others
(`ChainConfig.verifySequence_concat`), and well-formedness grows by the same check
(`ChainConfig.wellFormed_concat_iff`), so the two sides of each equivalence go step by step.

`ChainConfig.verifyUpgrades_accepts_exactly` is the result for configurations. There is one contract so far, so that
its sequence is the whole schedule.
-/

namespace Interchain

/-! ### Increasing timestamps, alternating states -/

/-- Upgrades of one contract in a proper order. -/
structure Upgrade.WellFormed (us : List Upgrade) : Prop where
  increasing : us.Pairwise fun u v => u.timestamp < v.timestamp
  /-- The first upgrade enables, the second disables, and so on. -/
  alternating : ∀ (i : Nat) (u : Upgrade), us[i]? = some u → (u.disabled = true ↔ Odd i)

namespace Upgrade.WellFormed

variable {us vs : List Upgrade}

theorem nil : WellFormed [] := ⟨.nil, nofun⟩

theorem of_isPrefix (h : WellFormed us) (hvs : vs <+: us) : WellFormed vs := by
  obtain ⟨ws, rfl⟩ := hvs
  refine ⟨(List.pairwise_append.1 h.increasing).1, fun i u hu => h.alternating i u ?_⟩
  obtain ⟨hi, -⟩ := List.getElem?_eq_some_iff.1 hu
  rw [List.getElem?_append_left hi, hu]

end Upgrade.WellFormed

open Upgrade (WellFormed)

namespace ChainConfig

variable {c : ChainConfig} {contract : BuiltIn} {us : List Upgrade} {u p : Upgrade} {e : ConfigError}

/-! ### One upgrade behind another -/

/-- What is wrong with an upgrade behind another, or with the first one. -/
def checkNext (contract : BuiltIn) : Option Upgrade → Upgrade → Except ConfigError Unit
  | none, u => if u.disabled then .error (.disableBeforeEnable contract u.timestamp) else .ok ()
  | some p, u =>
    if u.timestamp ≤ p.timestamp then .error (.upgradeOutOfOrder contract p.timestamp u.timestamp)
    else if u.disabled = p.disabled then .error (.repeatedState contract u.timestamp u.disabled)
    else .ok ()

theorem checkNext_none_eq_ok_iff : checkNext contract none u = .ok () ↔ u.disabled = false := by
  cases hu : u.disabled <;> simp [checkNext, hu]

theorem checkNext_some_eq_ok_iff :
    checkNext contract (some p) u = .ok () ↔ p.timestamp < u.timestamp ∧ u.disabled ≠ p.disabled := by
  rw [checkNext]
  split
  · next hle => exact ⟨nofun, fun h => absurd h.1 (UInt64.not_lt.2 hle)⟩
  · next hlt =>
    split
    · next heq => exact ⟨nofun, fun h => absurd heq h.2⟩
    · next hne => exact ⟨fun _ => ⟨UInt64.not_le.1 hlt, hne⟩, fun _ => rfl⟩

theorem checkNext_none_of_ne_ok (h : checkNext contract none u ≠ .ok ()) :
    checkNext contract none u = .error (.disableBeforeEnable contract u.timestamp) :=
  if_pos (by simpa [checkNext_none_eq_ok_iff] using h)

theorem checkNext_some_of_ne_ok (h : checkNext contract (some p) u ≠ .ok ()) :
    checkNext contract (some p) u =
      .error (if u.timestamp ≤ p.timestamp then .upgradeOutOfOrder contract p.timestamp u.timestamp
        else .repeatedState contract u.timestamp u.disabled) := by
  rw [checkNext] at h ⊢
  split
  · rfl
  · next hlt =>
    rw [if_neg hlt] at h
    split
    · rfl
    · next hne => exact absurd (if_neg hne) h

theorem pairwise_concat_iff :
    (us ++ [p] ++ [u]).Pairwise (fun v w : Upgrade => v.timestamp < w.timestamp) ↔
      (us ++ [p]).Pairwise (fun v w : Upgrade => v.timestamp < w.timestamp) ∧ p.timestamp < u.timestamp := by
  rw [List.pairwise_append]
  constructor
  · rintro ⟨hus, -, hlt⟩
    exact ⟨hus, hlt p (by simp) u (by simp)⟩
  · rintro ⟨hus, hpu⟩
    refine ⟨hus, List.pairwise_singleton _ _, ?_⟩
    intro v hv w hw
    obtain rfl := List.mem_singleton.1 hw
    rcases List.mem_append.1 hv with hv | hv
    · exact UInt64.lt_trans ((List.pairwise_append.1 hus).2.2 v hv p (by simp)) hpu
    · exact List.mem_singleton.1 hv ▸ hpu

/-- The elements of a list that has grown by one, with their places. -/
theorem getElem?_concat_eq_some_iff {i : Nat} {v : Upgrade} :
    (us ++ [u])[i]? = some v ↔ us[i]? = some v ∨ i = us.length ∧ v = u := by
  rcases Nat.lt_trichotomy i us.length with hlt | rfl | hgt
  · rw [List.getElem?_append_left hlt]
    exact ⟨.inl, fun h => h.resolve_right fun hend => Nat.ne_of_lt hlt hend.1⟩
  · simp [eq_comm]
  · have hout : (us ++ [u]).length ≤ i := by
      rw [List.length_append]
      exact hgt
    simp [List.getElem?_eq_none hout, Nat.le_of_lt hgt, Nat.ne_of_gt hgt]

theorem alternating_concat_iff :
    (∀ (i : Nat) (v : Upgrade), (us ++ [u])[i]? = some v → (v.disabled = true ↔ Odd i)) ↔
      (∀ (i : Nat) (v : Upgrade), us[i]? = some v → (v.disabled = true ↔ Odd i)) ∧
        (u.disabled = true ↔ Odd us.length) := by
  constructor
  · intro h
    exact ⟨fun i v hv => h i v (getElem?_concat_eq_some_iff.2 (.inl hv)),
      h _ u (getElem?_concat_eq_some_iff.2 (.inr ⟨rfl, rfl⟩))⟩
  · intro ⟨hus, hu⟩ i v hv
    rcases getElem?_concat_eq_some_iff.1 hv with hv | ⟨rfl, rfl⟩
    · exact hus i v hv
    · exact hu

/-- One upgrade more: it is compared with the last one only. -/
theorem wellFormed_concat_iff (contract : BuiltIn) :
    WellFormed (us ++ [u]) ↔ WellFormed us ∧ checkNext contract us.getLast? u = .ok () := by
  rcases us.eq_nil_or_concat' with rfl | ⟨vs, p, rfl⟩
  · rw [List.getLast?_nil, checkNext_none_eq_ok_iff]
    have hfirst := @alternating_concat_iff [] u
    constructor
    · intro h
      have hu := (hfirst.1 h.alternating).2
      exact ⟨.nil, by simpa using hu⟩
    · intro ⟨_, hu⟩
      exact ⟨List.pairwise_singleton _ _, hfirst.2 ⟨nofun, by simp [hu]⟩⟩
  · rw [List.getLast?_concat, checkNext_some_eq_ok_iff]
    -- the states of the last two upgrades differ because the parities of their places do
    have hturn : (p.disabled = true ↔ Odd vs.length) →
        ((u.disabled = true ↔ Odd (vs ++ [p]).length) ↔ u.disabled ≠ p.disabled) := by
      intro hp
      rw [List.length_append, List.length_singleton, Nat.odd_add_one, ← hp]
      cases u.disabled <;> cases p.disabled <;> simp
    constructor
    · intro h
      obtain ⟨hincreasing, hlt⟩ := pairwise_concat_iff.1 h.increasing
      obtain ⟨halternating, hu⟩ := alternating_concat_iff.1 h.alternating
      exact ⟨⟨hincreasing, halternating⟩, hlt, (hturn (alternating_concat_iff.1 halternating).2).1 hu⟩
    · intro ⟨h, hlt, hne⟩
      have hp := (alternating_concat_iff.1 h.alternating).2
      exact ⟨pairwise_concat_iff.2 ⟨h.increasing, hlt⟩,
        alternating_concat_iff.2 ⟨h.alternating, (hturn hp).2 hne⟩⟩

/-! ### A sequence of upgrades -/

theorem verifyAfter_cons (contract : BuiltIn) (p u : Upgrade) (us : List Upgrade) :
    verifyAfter contract p (u :: us) =
      (checkNext contract (some p) u >>= fun _ => verifyAfter contract u us) := by
  rw [verifyAfter, checkNext]
  split
  · rfl
  · split
    · rfl
    · rfl

theorem verifySequence_cons (contract : BuiltIn) (u : Upgrade) (us : List Upgrade) :
    verifySequence contract (u :: us) =
      (checkNext contract none u >>= fun _ => verifyAfter contract u us) := by
  rw [verifySequence, checkNext]
  split
  · rfl
  · rfl

theorem verifyAfter_concat (contract : BuiltIn) (p u : Upgrade) (us : List Upgrade) :
    verifyAfter contract p (us ++ [u]) =
      (verifyAfter contract p us >>= fun _ => checkNext contract (p :: us).getLast? u) := by
  induction us generalizing p with
  | nil =>
    rw [List.nil_append, verifyAfter_cons]
    exact bind_pure _
  | cons v us ih =>
    rw [List.cons_append, verifyAfter_cons, verifyAfter_cons, List.getLast?_cons_cons, bind_assoc]
    exact bind_congr fun _ => ih v

/-- One upgrade more is one check more, behind all others. -/
theorem verifySequence_concat (contract : BuiltIn) (us : List Upgrade) (u : Upgrade) :
    verifySequence contract (us ++ [u]) =
      (verifySequence contract us >>= fun _ => checkNext contract us.getLast? u) := by
  cases us with
  | nil =>
    rw [List.nil_append, verifySequence_cons]
    exact bind_pure _
  | cons v us =>
    rw [List.cons_append, verifySequence_cons, verifySequence_cons, bind_assoc]
    exact bind_congr fun _ => verifyAfter_concat contract v u us

theorem verifySequence_eq_ok_iff : verifySequence contract us = .ok () ↔ WellFormed us := by
  induction us using List.reverseRecOn with
  | nil => exact ⟨fun _ => .nil, fun _ => rfl⟩
  | append_singleton us u ih =>
    rw [verifySequence_concat, wellFormed_concat_iff contract, ← ih, Steps.bind_eq_ok_iff]
    exact ⟨fun ⟨_, hus, hu⟩ => ⟨hus, hu⟩, fun ⟨hus, hu⟩ => ⟨(), hus, hu⟩⟩

/-- The error is that of the first upgrade that does not fit behind those before it. -/
theorem verifySequence_eq_error_iff :
    verifySequence contract us = .error e ↔
      ∃ i u, us[i]? = some u ∧ WellFormed (us.take i) ∧
        checkNext contract (us.take i).getLast? u = .error e := by
  induction us using List.reverseRecOn with
  | nil => exact ⟨nofun, fun ⟨_, _, hu, _⟩ => nomatch hu⟩
  | append_singleton us u ih =>
    rw [verifySequence_concat, Steps.bind_eq_error_iff, ih]
    constructor
    · rintro (⟨i, v, hv, h⟩ | ⟨_, hus, herror⟩)
      · have hi := (List.getElem?_eq_some_iff.1 hv).1
        refine ⟨i, v, getElem?_concat_eq_some_iff.2 (.inl hv), ?_⟩
        rwa [List.take_append_of_le_length (Nat.le_of_lt hi)]
      · refine ⟨us.length, u, getElem?_concat_eq_some_iff.2 (.inr ⟨rfl, rfl⟩), ?_⟩
        rw [List.take_left]
        exact ⟨verifySequence_eq_ok_iff.1 hus, herror⟩
    · rintro ⟨i, v, hv, h⟩
      rcases getElem?_concat_eq_some_iff.1 hv with hv | ⟨rfl, rfl⟩
      · have hi := (List.getElem?_eq_some_iff.1 hv).1
        rw [List.take_append_of_le_length (Nat.le_of_lt hi)] at h
        exact .inl ⟨i, v, hv, h⟩
      · rw [List.take_left] at h
        exact .inr ⟨(), verifySequence_eq_ok_iff.2 h.1, h.2⟩

/-! ### The first prefix that is not well formed -/

theorem isLeast_not_wellFormed_iff {j : Nat} (hj : j < us.length) :
    IsLeast {i | i < us.length ∧ ¬ WellFormed (us.take (i + 1))} j ↔
      WellFormed (us.take j) ∧ ¬ WellFormed (us.take (j + 1)) := by
  constructor
  · intro ⟨⟨_, hnot⟩, hlower⟩
    refine ⟨?_, hnot⟩
    cases j with
    | zero => exact .nil
    | succ i =>
      by_contra hi
      have hle : i + 1 ≤ i := hlower ⟨Nat.lt_of_succ_lt hj, hi⟩
      omega
  · intro ⟨hwell, hnot⟩
    refine ⟨⟨hj, hnot⟩, fun i ⟨_, hi⟩ => ?_⟩
    by_contra hlt
    exact hi (hwell.of_isPrefix (List.take_prefix_take_left (by omega)))

/-- The error of the upgrade that ends the first prefix that is not well formed. -/
theorem checkNext_getElem {j : Nat} (hj : j < us.length) (hwell : WellFormed (us.take j))
    (hnot : ¬ WellFormed (us.take (j + 1))) :
    checkNext contract (us.take j).getLast? us[j] =
      .error (if j = 0 then .disableBeforeEnable contract us[j].timestamp
        else if us[j].timestamp ≤ us[j - 1].timestamp then
          .upgradeOutOfOrder contract us[j - 1].timestamp us[j].timestamp
        else .repeatedState contract us[j].timestamp us[j].disabled) := by
  have hcheck : checkNext contract (us.take j).getLast? us[j] ≠ .ok () := by
    intro hok
    rw [List.take_succ_eq_append_getElem hj, wellFormed_concat_iff contract] at hnot
    exact hnot ⟨hwell, hok⟩
  cases j with
  | zero => exact checkNext_none_of_ne_ok hcheck
  | succ i =>
    have hlast : (us.take (i + 1)).getLast? = some us[i] := by
      rw [List.take_succ_eq_append_getElem (Nat.lt_of_succ_lt hj), List.getLast?_concat]
    rw [hlast] at hcheck ⊢
    exact checkNext_some_of_ne_ok hcheck

/-! ### The schedule of a configuration -/

/-- All upgrades of a schedule are for the same contract. -/
theorem filter_contract_eq (us : List Upgrade) (contract : BuiltIn) :
    us.filter (fun u => u.contract = contract) = us := by
  refine List.filter_eq_self.2 fun u _ => ?_
  cases contract
  cases hu : u.contract
  rfl

theorem verifyUpgrades_eq (c : ChainConfig) :
    c.verifyUpgrades = verifySequence .warpMessenger c.upgrades := by
  have hsequence : c.verifyUpgrades = (verifySequence .warpMessenger
      (c.upgrades.filter fun u => u.contract = .warpMessenger) >>= fun _ => pure ()) := rfl
  rw [hsequence, filter_contract_eq]
  exact bind_pure _

theorem verifyUpgrades_eq_ok_iff : c.verifyUpgrades = .ok () ↔ WellFormed c.upgrades := by
  rw [verifyUpgrades_eq, verifySequence_eq_ok_iff]

theorem wellFormed_of_validate (h : c.validate = .ok ()) : WellFormed c.upgrades := by
  unfold validate at h
  obtain ⟨-, h⟩ := Steps.guard_eq_ok_iff.1 h
  obtain ⟨_, -, hupgrades⟩ := Steps.bind_eq_ok_iff.1 h
  exact verifyUpgrades_eq_ok_iff.1 hupgrades

/-- Exactly the well-formed schedules are accepted. Of any other, the first prefix that is not well formed decides the
error: its last upgrade disables what was never enabled, or does not come after the upgrade before it, or repeats the
state of that upgrade. -/
theorem verifyUpgrades_accepts_exactly (c : ChainConfig) :
    (c.verifyUpgrades = .ok () ↔ WellFormed c.upgrades) ∧
    ∀ e, c.verifyUpgrades = .error e ↔
      ∃ (j : Nat) (hj : j < c.upgrades.length),
        IsLeast {i | i < c.upgrades.length ∧ ¬ WellFormed (c.upgrades.take (i + 1))} j ∧
        e = if j = 0 then .disableBeforeEnable .warpMessenger c.upgrades[j].timestamp
          else if c.upgrades[j].timestamp ≤ c.upgrades[j - 1].timestamp then
            .upgradeOutOfOrder .warpMessenger c.upgrades[j - 1].timestamp c.upgrades[j].timestamp
          else .repeatedState .warpMessenger c.upgrades[j].timestamp c.upgrades[j].disabled := by
  refine ⟨verifyUpgrades_eq_ok_iff, fun e => ?_⟩
  rw [verifyUpgrades_eq, verifySequence_eq_error_iff]
  constructor
  · rintro ⟨j, u, hu, hwell, herror⟩
    obtain ⟨hj, rfl⟩ := List.getElem?_eq_some_iff.1 hu
    have hnot : ¬ WellFormed (c.upgrades.take (j + 1)) := by
      intro hmore
      rw [List.take_succ_eq_append_getElem hj, wellFormed_concat_iff .warpMessenger, herror] at hmore
      cases hmore.2
    refine ⟨j, hj, (isLeast_not_wellFormed_iff hj).2 ⟨hwell, hnot⟩, ?_⟩
    rw [checkNext_getElem hj hwell hnot] at herror
    exact (Except.error.inj herror).symm
  · rintro ⟨j, hj, hleast, rfl⟩
    obtain ⟨hwell, hnot⟩ := (isLeast_not_wellFormed_iff hj).1 hleast
    exact ⟨j, c.upgrades[j], List.getElem?_eq_getElem hj, hwell, checkNext_getElem hj hwell hnot⟩

/-- Of two faults at one place, the timestamp is reported. -/
example : verifyUpgrades ⟨.zero, 0, .standard, [{ timestamp := 5 }, { timestamp := 5 }]⟩ =
    .error (.upgradeOutOfOrder .warpMessenger 5 5) := rfl

end ChainConfig

end Interchain
