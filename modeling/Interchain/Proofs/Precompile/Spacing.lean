import Interchain.Proofs.Precompile.BlockRuns

/-!
# The spacing of blocks

A chain may reach a time in many small steps or in one. Where no contract looks at the block in which it is
configured, the state after the upgrades up to that time is the same.

The windows of a chain of blocks are the schedule up to its last block, each upgrade once
(`Registry.windows_partition`), and a window that is split is applied in two parts with the same result, an error
included. Without the assumption on contracts the two parts still have to be given the same block. For calls between
the blocks nothing is claimed.
-/

namespace Interchain.Registry

variable {registry : Registry} {config : ChainConfig} {scheme : SignatureScheme}
  {parent : Option UInt64}

/-! ### Contracts that ignore the block -/

/-- No contract looks at the block in which an upgrade configures it. -/
def IgnoresBlock (registry : Registry) : Prop :=
  ∀ a p, registry.get? a = some p → ∀ config u (b b' : Block), p.configure config u b = p.configure config u b'

/-- The messenger needs no configuration. -/
theorem ignoresBlock_of_ofConfig (h : ofConfig scheme config = .ok registry) : registry.IgnoresBlock := by
  intro a p hp config' u b b'
  rw [get?_ofConfig h] at hp
  split at hp
  · cases hp
    rfl
  · cases hp

theorem applyUpgrade_block_congr (h : registry.IgnoresBlock) (b b' : Block) :
    registry.applyUpgrade config b = registry.applyUpgrade config b' := by
  funext u
  unfold applyUpgrade
  cases hget : registry.get? u.address with
  | none => rfl
  | some p => simp only [h u.address p hget config u b b']

/-! ### Two blocks in place of one -/

/-- Whatever is done with each upgrade is done for a whole window if it is done for its two parts. -/
theorem forM_activations_split (h : config.verifyUpgrades = .ok ()) (step : Upgrade → ConfigureM Unit)
    {m t : UInt64} (hparent : ∀ p ∈ parent, p ≤ m) (hm : m ≤ t) :
    (config.activations parent t).forM step =
      ((config.activations parent m).forM step >>= fun _ => (config.activations (some m) t).forM step) := by
  have hincreasing := (ChainConfig.verifyUpgrades_eq_ok_iff.1 h).increasing
  rw [← ChainConfig.activations_append_activations hincreasing hparent hm]
  exact List.forM_append

theorem applyActivations_split (h : config.verifyUpgrades = .ok ()) (hblock : registry.IgnoresBlock)
    {middle last : Block} (hparent : ∀ p ∈ parent, p ≤ middle.timestamp)
    (hlast : middle.timestamp ≤ last.timestamp) :
    registry.applyActivations config parent last =
      (registry.applyActivations config parent middle >>= fun _ =>
        registry.applyActivations config (some middle.timestamp) last) := by
  unfold applyActivations
  rw [applyUpgrade_block_congr hblock middle last]
  exact forM_activations_split h _ hparent hlast

/-! ### Chains of blocks -/

theorem runBlock_of_after_eq_nil {b : BlockRun} (hb : b.after = []) :
    registry.runBlock config parent b = registry.applyActivations config parent b.block := by
  rw [runBlock, hb]
  exact bind_pure _

/-- Blocks with nothing in between do what the last of them does alone. -/
theorem runBlocks_eq_applyActivations (h : config.verifyUpgrades = .ok ()) (hblock : registry.IgnoresBlock)
    {bs : List BlockRun} {last : BlockRun} (hafter : ∀ b ∈ bs, b.after = [])
    (hparent : ∀ p ∈ parent, ∀ b ∈ bs, p ≤ b.block.timestamp)
    (horder : bs.Pairwise fun b b' => b.block.timestamp ≤ b'.block.timestamp)
    (hlast : bs.getLast? = some last) :
    registry.runBlocks config parent bs = registry.applyActivations config parent last.block := by
  induction bs generalizing parent with
  | nil => cases hlast
  | cons b bs ih =>
    obtain ⟨hb, hbs⟩ := List.pairwise_cons.1 horder
    rw [runBlocks, runBlock_of_after_eq_nil (hafter b List.mem_cons_self)]
    cases bs with
    | nil =>
      cases hlast
      exact bind_pure _
    | cons b' bs =>
      rw [List.getLast?_cons_cons] at hlast
      have hnext : ∀ p ∈ some b.block.timestamp, ∀ x ∈ b' :: bs, p ≤ x.block.timestamp := by
        rintro p ⟨⟩
        exact hb
      have hrest := ih (fun x hx => hafter x (List.mem_cons_of_mem b hx)) hnext hbs hlast
      rw [hrest, ← applyActivations_split h hblock (fun p hp => hparent p hp b List.mem_cons_self)
        (hb last (List.mem_of_getLast? hlast))]

/-- In a schedule that is accepted, the windows of blocks whose timestamps do not decrease are the upgrades up to the last
block, in the order of the schedule. So a window may be applied in two parts: for any registry, if the contracts are given
the same block; for a registry whose contracts ignore the block, by two blocks. That of the chain itself is one. -/
theorem windows_partition (h : config.verifyUpgrades = .ok ()) :
    (∀ (ts : List UInt64) (t : UInt64), ts.Pairwise (· ≤ ·) → ts.getLast? = some t →
      config.windows none ts = config.upgrades.filter fun u => u.timestamp ≤ t) ∧
    (∀ (registry : Registry) (block : Block) (parent : Option UInt64) (m t : UInt64),
      (∀ p ∈ parent, p ≤ m) → m ≤ t → ∀ s,
      ((config.activations parent t).forM (registry.applyUpgrade config block)).run s =
        ((config.activations parent m).forM (registry.applyUpgrade config block) >>= fun _ =>
          (config.activations (some m) t).forM (registry.applyUpgrade config block)).run s) ∧
    (∀ (registry : Registry), registry.IgnoresBlock → ∀ (parent : Option UInt64) (middle last : Block),
      (∀ p ∈ parent, p ≤ middle.timestamp) → middle.timestamp ≤ last.timestamp → ∀ s,
      (registry.applyActivations config parent last).run s =
        (registry.applyActivations config parent middle >>= fun _ =>
          registry.applyActivations config (some middle.timestamp) last).run s) ∧
    ∀ scheme registry, ofConfig scheme config = .ok registry → registry.IgnoresBlock := by
  refine ⟨fun ts t horder hlast => ?_, fun registry block parent m t hparent hm s => ?_,
    fun registry hblock parent middle last hparent hlast s => ?_, fun _ _ => ignoresBlock_of_ofConfig⟩
  · have hincreasing := (ChainConfig.verifyUpgrades_eq_ok_iff.1 h).increasing
    have hnone : ∀ p ∈ (none : Option UInt64), ∀ t ∈ ts, p ≤ t := nofun
    have hall := ChainConfig.appliedAt_append_windows hincreasing hnone horder
    rw [hlast] at hall
    exact hall
  · rw [forM_activations_split h _ hparent hm]
  · rw [applyActivations_split h hblock hparent hlast]

/-- Blocks before, at and after the upgrades of an alternating schedule; the last two of the upgrades in one block or in
two. -/
theorem windows_partition_alternating :
    TwoValidators.alternating.verifyUpgrades = .ok () ∧
    TwoValidators.alternating.windows none [3, 8, 8, 20] = TwoValidators.alternating.upgrades ∧
    TwoValidators.alternating.activations (some 8) 8 = [] ∧
    TwoValidators.registry.IgnoresBlock ∧
    ∀ s, (TwoValidators.registry.applyActivations TwoValidators.alternating (some 5) ⟨3, 12⟩).run s =
      (TwoValidators.registry.applyActivations TwoValidators.alternating (some 5) ⟨2, 8⟩ >>= fun _ =>
        TwoValidators.registry.applyActivations TwoValidators.alternating (some 8) ⟨3, 12⟩).run s := by
  have h : TwoValidators.alternating.verifyUpgrades = .ok () := rfl
  obtain ⟨hwindows, -, hsplit, hchain⟩ := windows_partition h
  have hblock := hchain TwoValidators.scheme TwoValidators.registry rfl
  refine ⟨h, ?_, rfl, hblock, hsplit _ hblock (some 5) ⟨2, 8⟩ ⟨3, 12⟩ ?_ (by decide)⟩
  · rw [hwindows [3, 8, 8, 20] 20 (by decide) rfl]
    decide
  · rintro p ⟨⟩
    decide

end Interchain.Registry
