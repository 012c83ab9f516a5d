import Interchain.Proofs.ChainConfig.WellFormed

/-!
# Windows of a schedule

A block applies the upgrades between its parent and itself. In a schedule whose timestamps increase, the windows of
successive blocks follow one another without a gap: with the upgrades that have taken effect by the parent in front,
they are those that have taken effect by the last block.

Blocks may have equal timestamps, whose windows are empty, but must not go back in time. The first block of a chain
has no parent and takes all upgrades up to it. What upgrades do to the state is left to other modules.
-/

namespace Interchain

namespace ChainConfig

variable {c : ChainConfig} {us : List Upgrade} {p t : UInt64}

/-! ### Windows -/

/-- Of increasing timestamps, those up to `t` come first. -/
theorem filter_le_append_filter_gt (h : us.Pairwise fun u v => u.timestamp < v.timestamp) (t : UInt64) :
    us.filter (fun u => u.timestamp ≤ t) ++ us.filter (fun u => t < u.timestamp) = us := by
  induction us with
  | nil => rfl
  | cons u us ih =>
    obtain ⟨hu, hus⟩ := List.pairwise_cons.1 h
    by_cases hut : u.timestamp ≤ t
    · rw [List.filter_cons_of_pos (by simpa using hut), List.filter_cons_of_neg (by simpa using hut),
        List.cons_append, ih hus]
    · -- from here on nothing is early enough for `t`
      have hlate : ∀ v ∈ u :: us, t < v.timestamp := by
        intro v hv
        rcases List.mem_cons.1 hv with rfl | hv
        · exact UInt64.not_le.1 hut
        · exact UInt64.lt_trans (UInt64.not_le.1 hut) (hu v hv)
      have hnone : (u :: us).filter (fun u => u.timestamp ≤ t) = [] := by
        refine List.filter_eq_nil_iff.2 fun v hv => ?_
        simpa using hlate v hv
      have hall : (u :: us).filter (fun u => t < u.timestamp) = u :: us := by
        refine List.filter_eq_self.2 fun v hv => ?_
        simpa using hlate v hv
      rw [hnone, hall, List.nil_append]

/-- Of increasing timestamps, those up to `p` come first, then those between `p` and `t`. -/
theorem filter_le_append_window (h : us.Pairwise fun u v => u.timestamp < v.timestamp) (hpt : p ≤ t) :
    us.filter (fun u => u.timestamp ≤ p) ++ us.filter (fun u => u.timestamp ≤ t && p < u.timestamp) =
      us.filter (fun u => u.timestamp ≤ t) := by
  have hearly : (us.filter fun u => u.timestamp ≤ p).filter (fun u => u.timestamp ≤ t) =
      us.filter fun u => u.timestamp ≤ p := by
    refine List.filter_eq_self.2 fun u hu => ?_
    have hup : u.timestamp ≤ p := by simpa using (List.mem_filter.1 hu).2
    exact decide_eq_true (UInt64.le_trans hup hpt)
  calc
    _ = (us.filter fun u => u.timestamp ≤ p).filter (fun u => u.timestamp ≤ t) ++
        (us.filter fun u => p < u.timestamp).filter (fun u => u.timestamp ≤ t) := by
      rw [hearly, List.filter_filter]
    _ = us.filter fun u => u.timestamp ≤ t := by
      rw [← List.filter_append, filter_le_append_filter_gt h p]

/-- The upgrades that have taken effect by a block with this timestamp; none before the first block. -/
def appliedAt (c : ChainConfig) : Option UInt64 → List Upgrade
  | none => []
  | some t => c.upgrades.filter fun u => u.timestamp ≤ t

/-- A block adds the upgrades of its window to those of its parent. -/
theorem appliedAt_append_activations (h : c.upgrades.Pairwise fun u v => u.timestamp < v.timestamp)
    {parent : Option UInt64} (hparent : ∀ p ∈ parent, p ≤ t) :
    c.appliedAt parent ++ c.activations parent t = c.appliedAt (some t) := by
  cases parent with
  | none => simp [appliedAt, activations]
  | some p => exact filter_le_append_window h (hparent p rfl)

/-- A time in a window cuts it in two. -/
theorem activations_append_activations (h : c.upgrades.Pairwise fun u v => u.timestamp < v.timestamp)
    {parent : Option UInt64} {m : UInt64} (hparent : ∀ p ∈ parent, p ≤ m) (hm : m ≤ t) :
    c.activations parent m ++ c.activations (some m) t = c.activations parent t := by
  have hwhole : ∀ p ∈ parent, p ≤ t := fun p hp => UInt64.le_trans (hparent p hp) hm
  have hmiddle : ∀ p ∈ some m, p ≤ t := by
    rintro p ⟨⟩
    exact hm
  -- behind the same upgrades both come to the same
  refine List.append_cancel_left (?_ : c.appliedAt parent ++ _ = c.appliedAt parent ++ _)
  rw [← List.append_assoc, appliedAt_append_activations h hparent, appliedAt_append_activations h hmiddle,
    appliedAt_append_activations h hwhole]

/-- The windows of successive blocks with these timestamps, one after the other. -/
def windows (c : ChainConfig) : Option UInt64 → List UInt64 → List Upgrade
  | _, [] => []
  | parent, t :: ts => c.activations parent t ++ c.windows (some t) ts

/-- Blocks whose timestamps do not decrease add all upgrades up to the last of them. -/
theorem appliedAt_append_windows (h : c.upgrades.Pairwise fun u v => u.timestamp < v.timestamp)
    {parent : Option UInt64} {ts : List UInt64} (hparent : ∀ p ∈ parent, ∀ t ∈ ts, p ≤ t)
    (horder : ts.Pairwise (· ≤ ·)) :
    c.appliedAt parent ++ c.windows parent ts = c.appliedAt (ts.getLast?.or parent) := by
  induction ts generalizing parent with
  | nil => exact List.append_nil _
  | cons t ts ih =>
    obtain ⟨ht, hts⟩ := List.pairwise_cons.1 horder
    have hnext : ∀ p ∈ some t, ∀ t' ∈ ts, p ≤ t' := by
      rintro p ⟨⟩
      exact ht
    have hlast : ts.getLast?.or (some t) = (t :: ts).getLast?.or parent := by
      rw [List.getLast?_cons]
      cases ts.getLast? with
      | none => rfl
      | some t' => rfl
    rw [windows, ← List.append_assoc,
      appliedAt_append_activations h fun p hp => hparent p hp t List.mem_cons_self, ih hnext hts, hlast]

/-! ### The state of the contract -/

theorem key_eq (u : Upgrade) (k : BuiltIn) : u.key = k.key := by
  cases k
  cases hu : u.contract
  rw [Upgrade.key, hu]

/-- The last upgrade that has taken effect is that of the contract. -/
theorem activeAt_eq_getLast?_appliedAt (c : ChainConfig) (k : BuiltIn) (t : UInt64) :
    c.activeAt k.key t = (c.appliedAt (some t)).getLast? := by
  have hfilter : (c.upgrades.filter fun u => u.key = k.key && u.timestamp ≤ t) = c.appliedAt (some t) := by
    refine List.filter_congr fun u _ => ?_
    simp [key_eq u k]
  rw [activeAt, hfilter]

/-- It decides whether the contract is enabled. -/
theorem isEnabled_eq_getLast?_appliedAt (c : ChainConfig) (k : BuiltIn) (t : UInt64) :
    c.isEnabled k.key t = (c.appliedAt (some t)).getLast?.any fun u => !u.disabled := by
  rw [isEnabled, activeAt_eq_getLast?_appliedAt]

theorem appliedAt_eq_nil_iff :
    c.appliedAt (some t) = [] ↔ ∀ u ∈ c.upgrades, t < u.timestamp := by
  simp only [appliedAt, List.filter_eq_nil_iff, decide_eq_true_eq, UInt64.not_le]

end ChainConfig

end Interchain
