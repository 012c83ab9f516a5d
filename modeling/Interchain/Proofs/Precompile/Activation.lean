import Interchain.Proofs.ChainConfig.Windows
import Interchain.Proofs.Precompile.Active
import Interchain.Proofs.State.Overlay

/-!
# Applying upgrades

Upgrades are applied to the state one after the other, and what the state shows of the messenger's account is
decided by the last of them: `Overlay.Shows` has one case for each kind of upgrade, and one for none. With the list
of upgrades and the account in the database this is `Overlay.Follows`, which one more upgrade keeps and so does the
window of a block.

In this situation no upgrade fails, as the messenger is registered and its account can be read. Other changes of a
state are harmless as long as database, accounts and codes stay (`Overlay.SameAccounts`).
-/

namespace Interchain

theorem Upgrade.address_eq (u : Upgrade) : u.address = Messenger.address := by
  cases hu : u.contract
  rw [Upgrade.address, hu, Messenger.address]

namespace Overlay

/-! ### States with the same accounts -/

/-- Two states have the same database, accounts and codes. -/
structure SameAccounts (s t : Overlay) : Prop where
  database : t.database = s.database
  accounts : t.accounts = s.accounts
  codes : t.codes = s.codes

variable {s t u : Overlay}

theorem SameAccounts.refl (s : Overlay) : s.SameAccounts s := ⟨rfl, rfl, rfl⟩

theorem SameAccounts.trans (hst : s.SameAccounts t) (htu : t.SameAccounts u) : s.SameAccounts u where
  database := htu.database.trans hst.database
  accounts := htu.accounts.trans hst.accounts
  codes := htu.codes.trans hst.codes

/-! ### The account of the messenger after some upgrades -/

/-- What a state shows of the messenger, by the upgrade that has taken effect last. Nothing is pending before the first
upgrade. -/
inductive Shows (s : Overlay) : Option Upgrade → Prop where
  | untouched (h : s.accounts.get? Messenger.address = none) : Shows s none
  | enabled {u : Upgrade} {account : Account} (hu : u.disabled = false)
    (h : s.accounts.get? Messenger.address = some account) (hmarked : account.IsMarked)
    (hcode : s.codes.get? markerHash = some markerCode) : Shows s (some u)
  | disabled {u : Upgrade} (hu : u.disabled = true)
    (h : s.accounts.get? Messenger.address = some .empty) : Shows s (some u)

/-- A state shows the messenger's account after these upgrades, over a database that has `stored` for it. -/
structure Follows (stored : Option Account) (us : List Upgrade) (s : Overlay) : Prop where
  database : s.database.account Messenger.address = .ok stored
  shows : s.Shows us.getLast?

variable {stored : Option Account} {us : List Upgrade} {a : Address} {account : Account}

theorem Shows.of_sameAccounts {last : Option Upgrade} (h : s.Shows last) (hst : s.SameAccounts t) :
    t.Shows last := by
  cases h with
  | untouched h => exact .untouched (hst.accounts ▸ h)
  | enabled hu h hmarked hcode => exact .enabled hu (hst.accounts ▸ h) hmarked (hst.codes ▸ hcode)
  | disabled hu h => exact .disabled hu (hst.accounts ▸ h)

theorem Follows.of_sameAccounts (h : s.Follows stored us) (hst : s.SameAccounts t) :
    t.Follows stored us where
  database := hst.database ▸ h.database
  shows := h.shows.of_sameAccounts hst

theorem account_of_get? (h : s.accounts.get? a = some account) : s.account a = .ok account := by
  rw [Overlay.account, h]

/-- The account can be read at any time. -/
theorem Follows.exists_account (h : s.Follows stored us) :
    ∃ account, s.account Messenger.address = .ok account := by
  unfold Overlay.account
  cases s.accounts.get? Messenger.address with
  | some account => exact ⟨account, rfl⟩
  | none =>
    rw [h.database]
    exact ⟨stored.getD .empty, rfl⟩

end Overlay

/-! ### One upgrade, and a window of them -/

namespace Registry

variable {registry : Registry} {config : ChainConfig} {scheme : SignatureScheme}
  {stored : Option Account} {us : List Upgrade} {s : Overlay}

/-- An upgrade can be applied, and the state shows it. -/
theorem applyUpgrade_follows (h : ofConfig scheme config = .ok registry) (hs : s.Follows stored us)
    (block : Block) (u : Upgrade) :
    ∃ t, (registry.applyUpgrade config block u).run s = (.ok (), t) ∧ t.Follows stored (us ++ [u]) := by
  have hget : registry.get? u.address = some (Messenger.precompile scheme .standard config.quorum) := by
    rw [get?_ofConfig h, if_pos u.address_eq]
  unfold applyUpgrade
  rw [hget]
  cases hu : u.disabled with
  | true =>
    refine ⟨s.clear u.address, rfl, hs.database, ?_⟩
    rw [List.getLast?_concat]
    refine .disabled hu ?_
    show (s.accounts.insert u.address .empty).get? Messenger.address = _
    rw [Table.get?_insert, if_pos u.address_eq.symm]
  | false =>
    obtain ⟨account, haccount⟩ := hs.exists_account
    rw [u.address_eq]
    obtain ⟨reads, hmark⟩ := Overlay.run_markActive haccount
    refine ⟨{ s.withMarker Messenger.address account with reads }, ?_, hs.database, ?_⟩
    · show (ExceptT.adapt PrecompileError.state (Overlay.markActive Messenger.address) >>= fun _ =>
        pure ()).run s = _
      rw [Steps.run_bind, Steps.run_adapt, hmark]
      rfl
    · rw [List.getLast?_concat]
      refine .enabled hu ?_ account.isMarked_withMarker ?_
      · rw [Overlay.withMarker, Table.get?_insert, if_pos rfl]
      · rw [Overlay.withMarker, Table.get?_insert, if_pos rfl]

/-- A list of upgrades, one after the other. -/
theorem forM_applyUpgrade_follows (h : ofConfig scheme config = .ok registry) (block : Block)
    (hs : s.Follows stored us) (vs : List Upgrade) :
    ∃ t, (vs.forM (registry.applyUpgrade config block)).run s = (.ok (), t) ∧
      t.Follows stored (us ++ vs) := by
  induction vs generalizing us s with
  | nil =>
    rw [List.append_nil]
    exact ⟨s, rfl, hs⟩
  | cons v vs ih =>
    obtain ⟨s', hv, hs'⟩ := applyUpgrade_follows h hs block v
    obtain ⟨t, hvs, ht⟩ := ih hs'
    refine ⟨t, ?_, ?_⟩
    · show (registry.applyUpgrade config block v >>= fun _ =>
        vs.forM (registry.applyUpgrade config block)).run s = _
      rw [Steps.run_bind, hv]
      exact hvs
    · rw [List.append_assoc] at ht
      exact ht

theorem validate_of_ofConfig (h : ofConfig scheme config = .ok registry) : config.validate = .ok () :=
  (ofConfig_eq_ok_iff.1 h).1

/-- A block brings the state from its parent's timestamp to its own. -/
theorem applyActivations_follows (h : ofConfig scheme config = .ok registry) {parent : Option UInt64}
    {block : Block} (hparent : ∀ p ∈ parent, p ≤ block.timestamp)
    (hs : s.Follows stored (config.appliedAt parent)) :
    ∃ t, (registry.applyActivations config parent block).run s = (.ok (), t) ∧
      t.Follows stored (config.appliedAt (some block.timestamp)) := by
  have hwell := ChainConfig.wellFormed_of_validate (validate_of_ofConfig h)
  rw [← ChainConfig.appliedAt_append_activations hwell.increasing hparent]
  exact forM_applyUpgrade_follows h block hs _

end Registry

end Interchain
