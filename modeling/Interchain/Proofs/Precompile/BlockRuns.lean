import Interchain.Proofs.Precompile.Activation
import Interchain.Proofs.Precompile.Effects
import Interchain.Proofs.TwoValidators

/-!
# Activation follows the schedule

Each block applies the upgrades of its window to the state, while calls run by what the schedule says about the
block's timestamp. The account of the messenger shows that the two agree.

* `Interlude`: what may happen between two blocks; it leaves accounts alone. Calls of the messenger are among them.
* `Registry.runBlocks`: a chain of blocks; `Registry.runBlocks_follows` goes along it, block by block.
* `Registry.MessengerAccount`: what the account shows at a timestamp; calls run while it carries the marker.
* `Registry.runBlocks_account`: it does so after every chain of blocks whose timestamps do not decrease.

Before the first upgrade the account is that of the database, which might carry the marker by itself. All that is
assumed of the database is that it can read this one account.
-/

namespace Interchain

/-! ### Between two blocks -/

/-- What may happen to the state between two blocks. -/
inductive Interlude where
  | setSlot (a : Address) (slot value : Word)
  | addLog (log : Log)
  | takeLogs
  | attach (payloads : Table Address Bytes)
  | call (env : Environment) (c : Call)

/-- The state after it, whatever a call has answered. -/
def Interlude.apply (registry : Registry) (config : ChainConfig) (s : Overlay) : Interlude → Overlay
  | .setSlot a slot value => s.setSlot a slot value
  | .addLog log => s.addLog log
  | .takeLogs => s.dropLogs
  | .attach payloads => s.attach payloads
  | .call env c =>
    match registry.run config env c with
    | none => s
    | some action => (action.run s).2

section Interludes

variable {registry : Registry} {config : ChainConfig} {scheme : SignatureScheme} {s t : Overlay}

theorem Overlay.AddsLogs.sameAccounts (h : s.AddsLogs t) : s.SameAccounts t := by
  obtain ⟨added, rfl⟩ := h
  exact ⟨rfl, rfl, rfl⟩

theorem Interlude.sameAccounts_apply (h : Registry.ofConfig scheme config = .ok registry) (s : Overlay)
    (x : Interlude) : s.SameAccounts (x.apply registry config s) := by
  cases x with
  | setSlot a slot value => exact ⟨rfl, rfl, rfl⟩
  | addLog log => exact ⟨rfl, rfl, rfl⟩
  | takeLogs => exact ⟨rfl, rfl, rfl⟩
  | attach payloads => exact ⟨rfl, rfl, rfl⟩
  | call env c =>
    rw [Interlude.apply]
    cases hrun : registry.run config env c with
    | none => exact .refl s
    | some action => exact (Registry.addsLogs_run s h hrun).sameAccounts

theorem Interlude.sameAccounts_foldl (h : Registry.ofConfig scheme config = .ok registry)
    (xs : List Interlude) (s : Overlay) :
    s.SameAccounts (xs.foldl (Interlude.apply registry config) s) := by
  induction xs generalizing s with
  | nil => exact .refl s
  | cons x xs ih => exact (Interlude.sameAccounts_apply h s x).trans (ih _)

end Interludes

/-! ### Chains of blocks -/

/-- A block, and what happens before the next one. -/
structure BlockRun where
  block : Block
  after : List Interlude

namespace Registry

variable {registry : Registry} {config : ChainConfig} {scheme : SignatureScheme}
  {stored : Option Account} {s : Overlay} {parent : Option UInt64}

def runBlock (registry : Registry) (config : ChainConfig) (parent : Option UInt64) (b : BlockRun) :
    ConfigureM Unit := do
  registry.applyActivations config parent b.block
  modify fun s => b.after.foldl (Interlude.apply registry config) s

/-- The blocks after a parent. It fails as soon as the upgrades of one of them cannot be applied. -/
def runBlocks (registry : Registry) (config : ChainConfig) : Option UInt64 → List BlockRun → ConfigureM Unit
  | _, [] => pure ()
  | parent, b :: bs => do
    registry.runBlock config parent b
    registry.runBlocks config (some b.block.timestamp) bs

/-- The timestamp of the last block, or of the parent if there is none. -/
def headTime : Option UInt64 → List BlockRun → Option UInt64
  | parent, [] => parent
  | _, b :: bs => headTime (some b.block.timestamp) bs

theorem headTime_of_getLast? {bs : List BlockRun} {b : BlockRun} (h : bs.getLast? = some b) :
    headTime parent bs = some b.block.timestamp := by
  induction bs generalizing parent with
  | nil => cases h
  | cons x bs ih =>
    cases bs with
    | nil =>
      cases h
      rfl
    | cons y bs =>
      rw [List.getLast?_cons_cons] at h
      rw [headTime]
      exact ih h

theorem runBlock_follows (h : ofConfig scheme config = .ok registry) {b : BlockRun}
    (hparent : ∀ p ∈ parent, p ≤ b.block.timestamp) (hs : s.Follows stored (config.appliedAt parent)) :
    ∃ t, (registry.runBlock config parent b).run s = (.ok (), t) ∧
      t.Follows stored (config.appliedAt (some b.block.timestamp)) := by
  obtain ⟨t, hrun, ht⟩ := applyActivations_follows h hparent hs
  refine ⟨b.after.foldl (Interlude.apply registry config) t, ?_,
    ht.of_sameAccounts (Interlude.sameAccounts_foldl h b.after t)⟩
  rw [runBlock, Steps.run_bind, hrun]
  rfl

/-- A chain of blocks whose timestamps do not decrease. -/
theorem runBlocks_follows (h : ofConfig scheme config = .ok registry) (bs : List BlockRun)
    (hparent : ∀ p ∈ parent, ∀ b ∈ bs, p ≤ b.block.timestamp)
    (horder : bs.Pairwise fun b b' => b.block.timestamp ≤ b'.block.timestamp)
    (hs : s.Follows stored (config.appliedAt parent)) :
    ∃ t, (registry.runBlocks config parent bs).run s = (.ok (), t) ∧
      t.Follows stored (config.appliedAt (headTime parent bs)) := by
  induction bs generalizing parent s with
  | nil => exact ⟨s, rfl, hs⟩
  | cons b bs ih =>
    obtain ⟨hb, hbs⟩ := List.pairwise_cons.1 horder
    obtain ⟨s', hrun, hs'⟩ := runBlock_follows h (fun p hp => hparent p hp b List.mem_cons_self) hs
    have hnext : ∀ p ∈ some b.block.timestamp, ∀ b' ∈ bs, p ≤ b'.block.timestamp := by
      intro p hp b' hb'
      cases hp
      exact hb b' hb'
    obtain ⟨t, hruns, ht⟩ := ih hnext hbs hs'
    refine ⟨t, ?_, ht⟩
    rw [runBlocks, Steps.run_bind, hrun]
    exact hruns

/-! ### The account at a timestamp -/

/-- What a state shows of the messenger at a timestamp, over a database that has `stored` for its account. -/
structure MessengerAccount (registry : Registry) (config : ChainConfig) (stored : Option Account)
    (now : UInt64) (s : Overlay) : Prop where
  /-- Before the first upgrade it is the account of the database. -/
  untouched : (∀ u ∈ config.upgrades, now < u.timestamp) →
    s.account Messenger.address = .ok (stored.getD .empty)
  active : registry.isActive config Messenger.address now = true →
    ∃ account, s.account Messenger.address = .ok account ∧ account.IsMarked ∧
      s.code Overlay.markerHash = .ok Overlay.markerCode
  inactive : (∃ u ∈ config.upgrades, u.timestamp ≤ now) →
    registry.isActive config Messenger.address now = false →
    s.account Messenger.address = .ok .empty

variable {now : UInt64}

theorem isSome_run_iff_isActive {env : Environment} {c : Call} :
    (registry.run config env c).isSome = true ↔
      registry.isActive config c.address env.block.timestamp = true := by
  unfold run active? isActive
  cases registry.get? c.address with
  | none => simp
  | some p => simp

/-- Once an upgrade has taken effect, calls run exactly while the account carries the marker. -/
theorem MessengerAccount.isSome_run_iff (hs : MessengerAccount registry config stored now s)
    (hsome : ∃ u ∈ config.upgrades, u.timestamp ≤ now) {env : Environment} {c : Call}
    (htime : env.block.timestamp = now) (haddress : c.address = Messenger.address) :
    (registry.run config env c).isSome = true ↔
      ∃ account, s.account Messenger.address = .ok account ∧ account.IsMarked := by
  rw [isSome_run_iff_isActive, htime, haddress]
  constructor
  · intro hon
    obtain ⟨account, haccount, hmarked, -⟩ := hs.active hon
    exact ⟨account, haccount, hmarked⟩
  · intro ⟨account, haccount, hmarked⟩
    by_contra hoff
    have hempty := hs.inactive hsome (Bool.eq_false_iff.2 hoff)
    obtain rfl : account = .empty := Except.ok.inj (haccount.symm.trans hempty)
    exact Account.not_isMarked_empty hmarked

theorem isActive_ofConfig (h : ofConfig scheme config = .ok registry) (now : UInt64) :
    registry.isActive config Messenger.address now =
      (config.appliedAt (some now)).getLast?.any fun u => !u.disabled := by
  rw [isActive, get?_ofConfig h, if_pos rfl, ← ChainConfig.isEnabled_eq_getLast?_appliedAt config .warpMessenger now]
  rfl

/-- A state after all upgrades up to a timestamp shows the account of that timestamp. -/
theorem messengerAccount_of_follows (h : ofConfig scheme config = .ok registry)
    (hs : s.Follows stored (config.appliedAt (some now))) :
    MessengerAccount registry config stored now s := by
  obtain ⟨hdatabase, hshows⟩ := hs
  have hactive := isActive_ofConfig h now
  have hlate : (∀ u ∈ config.upgrades, now < u.timestamp) ↔
      (config.appliedAt (some now)).getLast? = none := by
    rw [List.getLast?_eq_none_iff, ChainConfig.appliedAt_eq_nil_iff]
  generalize (config.appliedAt (some now)).getLast? = last at hshows hactive hlate
  cases hshows with
  | untouched hpending =>
    refine ⟨fun _ => ?_, fun hon => ?_, fun hsome => ?_⟩
    · rw [Overlay.account, hpending, hdatabase]
      rfl
    · rw [hactive] at hon
      cases hon
    · obtain ⟨u, hu, hle⟩ := hsome
      exact absurd hle (UInt64.not_le.2 (hlate.2 rfl u hu))
  | @enabled u account hu hpending hmarked hcode =>
    rw [Option.any_some, hu] at hactive
    refine ⟨fun hnone => ?_, fun _ => ⟨account, ?_, hmarked, ?_⟩, fun _ hoff => ?_⟩
    · cases hlate.1 hnone
    · exact Overlay.account_of_get? hpending
    · rw [Overlay.code, hcode]
    · rw [hactive] at hoff
      cases hoff
  | @disabled u hu hpending =>
    rw [Option.any_some, hu] at hactive
    refine ⟨fun hnone => ?_, fun hon => ?_, fun _ _ => ?_⟩
    · cases hlate.1 hnone
    · rw [hactive] at hon
      cases hon
    · exact Overlay.account_of_get? hpending

/-- After a chain of blocks whose timestamps do not decrease, with whatever in between, all upgrades have been applied.
The messenger's account shows the schedule at the last timestamp, and calls run at that timestamp exactly while the
account carries the marker, once an upgrade has taken effect. -/
theorem runBlocks_account (h : ofConfig scheme config = .ok registry)
    (hdatabase : s.database.account Messenger.address = .ok stored)
    (hfresh : s.accounts.get? Messenger.address = none) {bs : List BlockRun} {b : BlockRun}
    (horder : bs.Pairwise fun b b' => b.block.timestamp ≤ b'.block.timestamp)
    (hlast : bs.getLast? = some b) :
    ∃ t, (registry.runBlocks config none bs).run s = (.ok (), t) ∧
      MessengerAccount registry config stored b.block.timestamp t ∧
      ((∃ u ∈ config.upgrades, u.timestamp ≤ b.block.timestamp) →
        ∀ env c, env.block.timestamp = b.block.timestamp → c.address = Messenger.address →
          ((registry.run config env c).isSome = true ↔
            ∃ account, t.account Messenger.address = .ok account ∧ account.IsMarked)) := by
  have hstart : s.Follows stored (config.appliedAt none) := ⟨hdatabase, .untouched hfresh⟩
  have hnone : ∀ p ∈ (none : Option UInt64), ∀ b ∈ bs, p ≤ b.block.timestamp := by
    intro p hp
    cases hp
  obtain ⟨t, hrun, ht⟩ := runBlocks_follows h bs hnone horder hstart
  rw [headTime_of_getLast? hlast] at ht
  have haccount := messengerAccount_of_follows h ht
  exact ⟨t, hrun, haccount, fun hsome _ _ => haccount.isSome_run_iff hsome⟩

/-- Blocks before, between and after the upgrades of an alternating schedule; the messenger is called in between. -/
def someBlocks : List BlockRun :=
  [⟨⟨1, 3⟩, [.call TwoValidators.environment TwoValidators.sendCall]⟩, ⟨⟨2, 9⟩, [.takeLogs]⟩,
    ⟨⟨3, 9⟩, [.setSlot Messenger.address 0 1]⟩, ⟨⟨4, 20⟩, []⟩]

/-- The account of the messenger after the first of these blocks, the first three and all. -/
theorem runBlocks_account_alternating :
    ofConfig TwoValidators.scheme TwoValidators.alternating = .ok TwoValidators.registry ∧
    (∃ t, (TwoValidators.registry.runBlocks TwoValidators.alternating none (someBlocks.take 1)).run
        (TwoValidators.stateWith []) = (.ok (), t) ∧ t.account Messenger.address = .ok .empty) ∧
    (∃ t, (TwoValidators.registry.runBlocks TwoValidators.alternating none (someBlocks.take 3)).run
        (TwoValidators.stateWith []) = (.ok (), t) ∧ t.account Messenger.address = .ok .empty ∧
      ((TwoValidators.registry.run TwoValidators.alternating ⟨⟨3, 9⟩, TwoValidators.chain⟩
          (TwoValidators.call 0)).isSome = true ↔
        ∃ account, t.account Messenger.address = .ok account ∧ account.IsMarked)) ∧
    ∃ t account, (TwoValidators.registry.runBlocks TwoValidators.alternating none someBlocks).run
        (TwoValidators.stateWith []) = (.ok (), t) ∧
      t.account Messenger.address = .ok account ∧ account.IsMarked ∧
      t.code Overlay.markerHash = .ok Overlay.markerCode := by
  have h : ofConfig TwoValidators.scheme TwoValidators.alternating = .ok TwoValidators.registry := rfl
  have horder : someBlocks.Pairwise fun b b' => b.block.timestamp ≤ b'.block.timestamp := by decide
  have hafter : ∀ n b, (someBlocks.take n).getLast? = some b →
      ∃ t, (TwoValidators.registry.runBlocks TwoValidators.alternating none (someBlocks.take n)).run
        (TwoValidators.stateWith []) = (.ok (), t) ∧
        MessengerAccount TwoValidators.registry TwoValidators.alternating none b.block.timestamp t ∧
        ((∃ u ∈ TwoValidators.alternating.upgrades, u.timestamp ≤ b.block.timestamp) →
          ∀ env c, env.block.timestamp = b.block.timestamp → c.address = Messenger.address →
            ((TwoValidators.registry.run TwoValidators.alternating env c).isSome = true ↔
              ∃ account, t.account Messenger.address = .ok account ∧ account.IsMarked)) := fun n b hb =>
    runBlocks_account h rfl rfl (horder.sublist (List.take_sublist n _)) hb
  obtain ⟨t₁, hrun₁, h₁, -⟩ := hafter 1 _ rfl
  obtain ⟨t₃, hrun₃, h₃, hiff₃⟩ := hafter 3 _ rfl
  obtain ⟨t₄, hrun₄, h₄, -⟩ := hafter 4 _ rfl
  have hsome₃ : ∃ u ∈ TwoValidators.alternating.upgrades, u.timestamp ≤ 9 := by decide
  obtain ⟨account, haccount, hmarked, hcode⟩ := h₄.active (by decide +kernel)
  refine ⟨h, ⟨t₁, hrun₁, h₁.untouched (by decide)⟩, ⟨t₃, hrun₃, ?_, ?_⟩, t₄, account, hrun₄, haccount,
    hmarked, hcode⟩
  · exact h₃.inactive hsome₃ (by decide +kernel)
  · exact hiff₃ hsome₃ _ _ rfl rfl

end Registry

end Interchain
