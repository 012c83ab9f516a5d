import Interchain.Proofs.Precompile.Activation
import Interchain.Proofs.TwoValidators

/-!
# Activations that fail

The upgrades of a block are applied one after the other, and nothing is undone when one of them fails. Still no
failure leaves a trace: only the first upgrade of a window can fail, since it leaves the account of the messenger
pending, where every later upgrade finds it.

This rests on there being one account. All upgrades of a schedule are for the messenger, and a registry holds it or
nothing; with a second contract the later upgrades of a window could fail on their own. Counts of reads may have
changed after a failure, as the database was asked.
-/

namespace Interchain.Registry

variable {registry : Registry} {config : ChainConfig} {block : Block} {s t : Overlay} {u : Upgrade}
  {us : List Upgrade} {p : Precompile} {e : PrecompileError}

/-! ### Contracts without a configuration -/

/-- The contracts of a registry leave the state as it is when an upgrade enables them. -/
def NeedsNoConfiguration (registry : Registry) : Prop :=
  ∀ a p, registry.get? a = some p → ∀ config u block, p.configure config u block = pure ()

theorem needsNoConfiguration_empty : NeedsNoConfiguration Table.empty := nofun

theorem needsNoConfiguration_messenger (scheme : SignatureScheme) (costs : GasCosts) (quorum : Quorum) :
    NeedsNoConfiguration
      (Table.empty.insert Messenger.address (Messenger.precompile scheme costs quorum)) := by
  intro a p hp config u block
  rw [Table.get?_insert, Table.get?_empty] at hp
  split at hp
  · cases hp
    rfl
  · cases hp

/-! ### One upgrade -/

/-- Why an upgrade cannot be applied to a state. -/
inductive Blocks (registry : Registry) (s : Overlay) (u : Upgrade) : PrecompileError → Prop where
  | notRegistered (h : registry.get? u.address = none) : Blocks registry s u (.notRegistered u.address)
  | unreadable {cause : DatabaseError} (henables : u.disabled = false)
    (h : s.account u.address = .error cause) : Blocks registry s u (.state cause)

theorem applyUpgrade_of_notRegistered (h : registry.get? u.address = none) (s : Overlay) :
    (registry.applyUpgrade config block u).run s = (.error (.notRegistered u.address), s) := by
  unfold applyUpgrade
  rw [h]
  rfl

theorem applyUpgrade_of_disabled (hp : registry.get? u.address = some p) (hu : u.disabled = true)
    (s : Overlay) : (registry.applyUpgrade config block u).run s = (.ok (), s.clear u.address) := by
  unfold applyUpgrade
  rw [hp, hu]
  rfl

/-- An upgrade that enables a contract without a configuration marks its account, and that is all. -/
theorem applyUpgrade_of_enabled (hr : registry.NeedsNoConfiguration) (hp : registry.get? u.address = some p)
    (hu : u.disabled = false) (s : Overlay) :
    (registry.applyUpgrade config block u).run s =
      (((Overlay.markActive u.address).run s).1.mapError .state, ((Overlay.markActive u.address).run s).2) := by
  unfold applyUpgrade
  rw [hp]
  simp only [hu, hr u.address p hp, Bool.false_eq_true, if_false]
  rw [Steps.run_bind, Steps.run_adapt]
  cases (Overlay.markActive u.address).run s with
  | mk r t =>
    cases r with
    | ok _ => rfl
    | error _ => rfl

/-- An upgrade fails and changes nothing, or it leaves the account of its contract pending. -/
theorem applyUpgrade_outcome (hr : registry.NeedsNoConfiguration) (config : ChainConfig) (block : Block)
    (u : Upgrade) (s : Overlay) :
    (∃ e reads, Blocks registry s u e ∧
      (registry.applyUpgrade config block u).run s = (.error e, { s with reads })) ∨
    ∃ t, (registry.applyUpgrade config block u).run s = (.ok (), t) ∧ t.accounts.contains u.address = true := by
  cases hp : registry.get? u.address with
  | none => exact .inl ⟨_, s.reads, .notRegistered hp, applyUpgrade_of_notRegistered hp s⟩
  | some p =>
    cases hu : u.disabled with
    | true =>
      refine .inr ⟨s.clear u.address, applyUpgrade_of_disabled hp hu s, ?_⟩
      rw [Overlay.clear, Table.contains, Table.get?_insert, if_pos rfl, Option.isSome_some]
    | false =>
      rw [applyUpgrade_of_enabled hr hp hu]
      cases haccount : s.account u.address with
      | error cause =>
        obtain ⟨reads, hmark⟩ := Overlay.run_markActive_of_error haccount
        refine .inl ⟨_, reads, .unreadable hu haccount, ?_⟩
        rw [hmark]
        rfl
      | ok account =>
        obtain ⟨reads, hmark⟩ := Overlay.run_markActive haccount
        refine .inr ⟨{ s.withMarker u.address account with reads }, ?_, ?_⟩
        · rw [hmark]
          rfl
        · rw [Overlay.withMarker, Table.contains, Table.get?_insert, if_pos rfl, Option.isSome_some]

/-! ### A window of upgrades -/

/-- A registered contract whose account is pending can be enabled and disabled at will. -/
theorem not_blocks_of_contains (hp : registry.get? u.address = some p)
    (hs : s.accounts.contains u.address = true) : ¬ Blocks registry s u e := by
  intro h
  cases h with
  | notRegistered hnone =>
    rw [hp] at hnone
    cases hnone
  | unreadable _ herror =>
    obtain ⟨account, haccount⟩ := Option.isSome_iff_exists.1 hs
    rw [Overlay.account_of_get? haccount] at herror
    cases herror

/-- With the account pending, no upgrade of the window fails. -/
theorem forM_applyUpgrade_of_contains (hr : registry.NeedsNoConfiguration) (config : ChainConfig)
    (block : Block) (hp : registry.get? Messenger.address = some p)
    (hs : s.accounts.contains Messenger.address = true) (us : List Upgrade) :
    ∃ t, (us.forM (registry.applyUpgrade config block)).run s = (.ok (), t) := by
  induction us generalizing s with
  | nil => exact ⟨s, rfl⟩
  | cons u us ih =>
    rcases applyUpgrade_outcome hr config block u s with ⟨e, reads, hblocks, -⟩ | ⟨s', hu, hs'⟩
    · rw [← u.address_eq] at hp hs
      exact absurd hblocks (not_blocks_of_contains hp hs)
    · rw [u.address_eq] at hs'
      obtain ⟨t, hus⟩ := ih hs'
      refine ⟨t, ?_⟩
      show (registry.applyUpgrade config block u >>= fun _ =>
        us.forM (registry.applyUpgrade config block)).run s = _
      rw [Steps.run_bind, hu]
      exact hus

/-- If a list of upgrades fails, then at its first, and nothing has changed. -/
theorem forM_applyUpgrade_eq_error (hr : registry.NeedsNoConfiguration)
    (h : (us.forM (registry.applyUpgrade config block)).run s = (.error e, t)) :
    ∃ u rest reads, us = u :: rest ∧ Blocks registry s u e ∧ t = { s with reads } := by
  cases us with
  | nil => cases h
  | cons u us =>
    change (registry.applyUpgrade config block u >>= fun _ =>
      us.forM (registry.applyUpgrade config block)).run s = _ at h
    rw [Steps.run_bind] at h
    rcases applyUpgrade_outcome hr config block u s with ⟨e', reads, hblocks, hu⟩ | ⟨s', hu, hs'⟩
    · rw [hu] at h
      cases h
      exact ⟨u, us, reads, rfl, hblocks, rfl⟩
    · -- the contract is registered, for the first upgrade went through
      cases hp : registry.get? u.address with
      | none =>
        rw [applyUpgrade_of_notRegistered hp] at hu
        cases hu
      | some p =>
        rw [u.address_eq] at hp hs'
        obtain ⟨t', hus⟩ := forM_applyUpgrade_of_contains hr config block hp hs' us
        rw [hu] at h
        change (us.forM (registry.applyUpgrade config block)).run s' = _ at h
        rw [hus] at h
        cases h

/-- In a registry that is empty or holds the messenger alone, activations that fail leave the state as it was, whatever
upgrades stand in the window and in whatever order: at most the database was asked. It is the first upgrade of the window
that cannot be applied. -/
theorem applyActivations_leaves_no_trace {parent : Option UInt64}
    (hregistry : registry = Table.empty ∨ ∃ scheme costs quorum,
      registry = Table.empty.insert Messenger.address (Messenger.precompile scheme costs quorum))
    (h : (registry.applyActivations config parent block).run s = (.error e, t)) :
    (∃ reads, t = { s with reads }) ∧
    ∃ u rest, config.activations parent block.timestamp = u :: rest ∧ Blocks registry s u e := by
  have hr : registry.NeedsNoConfiguration := by
    rcases hregistry with rfl | ⟨scheme, costs, quorum, rfl⟩
    · exact needsNoConfiguration_empty
    · exact needsNoConfiguration_messenger scheme costs quorum
  obtain ⟨u, rest, reads, hwindow, hblocks, ht⟩ := forM_applyUpgrade_eq_error hr h
  exact ⟨⟨reads, ht⟩, u, rest, hwindow, hblocks⟩

/-- A window that enables, disables and enables the messenger, over a database that cannot read accounts: the log, the slot and
the payload that were there stay. -/
theorem applyActivations_leaves_no_trace_alternating :
    let database : Database :=
      { Tables.toDatabase {} with account := fun _ => .error .accountUnavailable }
    let s := ({ TwoValidators.stateWith TwoValidators.attachment with database }.setSlot
      Messenger.address 1 7).addLog ⟨Messenger.address, [], [1]⟩
    let r := (TwoValidators.registry.applyActivations TwoValidators.alternating none ⟨3, 12⟩).run s
    (TwoValidators.alternating.activations none 12).length = 3 ∧
    r.1 = .error (.state .accountUnavailable) ∧ ∃ reads, r.2 = { s with reads } := by
  intro database s r
  have hr : r = (.error (.state .accountUnavailable), r.2) := rfl
  exact ⟨rfl, rfl, (applyActivations_leaves_no_trace (.inr ⟨_, _, _, rfl⟩) hr).1⟩

end Interchain.Registry
