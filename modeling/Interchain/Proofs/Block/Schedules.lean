import Interchain.Block.Workers
import Interchain.Proofs.Block.Verdict
import Interchain.Proofs.TwoValidators
import Mathlib.Algebra.GroupWithZero.Nat

/-!
# The answer of a block under every schedule

Whatever the order in which the workers of a block load the shared index and finish their checks, and however old
the values that they load, the block gets the answer of checking its transactions one after the other.

The invariant is `Workers.Consistent`: the shared index has only had values of checks that failed and are done, and
a worker that was skipped lies behind one of them. A step keeps it, so a schedule does. When all workers are done,
no transaction before the first failure was skipped, so no check is made again for the answer, whatever `recompute`
would say (`Workers.collect_eq_mapM`).

That schedules can be completed is proved from the same invariant: workers never get stuck. It is not proved that a
fair scheduler completes them in some time, as schedules are just lists here.
-/

namespace Interchain

namespace Workers

variable {ε α : Type} {check : Nat → Except ε α} {n : Nat} {w w' : Workers ε α}

/-! ### Steps -/

/-- The values of the shared index after a check at `i` that came out as `r`. -/
def record (i : Nat) (r : Except ε α) (seen : List (Option Nat)) : List (Option Nat) :=
  match r, seen with
  | .error _, latest :: earlier => lower i latest :: latest :: earlier
  | _, _ => seen

theorem mem_record_of_mem {i : Nat} {r : Except ε α} {seen : List (Option Nat)} {v : Option Nat}
    (h : v ∈ seen) : v ∈ record i r seen := by
  unfold record
  split
  · exact List.mem_cons_of_mem _ h
  · exact h

theorem some_mem_record {i j : Nat} {r : Except ε α} {seen : List (Option Nat)}
    (h : some j ∈ record i r seen) : some j ∈ seen ∨ (j = i ∧ ∃ e, r = .error e) := by
  unfold record at h
  split at h
  · next e latest earlier =>
    rcases List.mem_cons.1 h with h | h
    · cases latest with
      | none =>
        rw [lower, Option.some.injEq] at h
        exact .inr ⟨h, e, rfl⟩
      | some k =>
        rw [lower, Option.some.injEq] at h
        rcases Nat.le_total i k with hik | hik
        · rw [Nat.min_eq_left hik] at h
          exact .inr ⟨h, e, rfl⟩
        · rw [Nat.min_eq_right hik] at h
          exact .inl (h ▸ List.mem_cons_self)
    · exact .inl h
  · exact .inl h

/-- A step is a load by a worker that waits, or the end of a check that is under way. -/
theorem step_eq_some_iff {event : Event} :
    step check w event = some w' ↔
      (∃ i age index, event = .load i age ∧ w.progress[i]? = some .waiting ∧
        w.seen[age]? = some index ∧
        w' = ⟨w.seen, w.progress.set i (if index.any (· < i) then .skipped else .checking)⟩) ∨
      (∃ i, event = .finish i ∧ w.progress[i]? = some .checking ∧ w.seen ≠ [] ∧
        w' = ⟨record i (check i) w.seen, w.progress.set i (.finished (check i))⟩) := by
  obtain ⟨seen, progress⟩ := w
  cases event with
  | load i age =>
    simp only [step, Event.load.injEq, reduceCtorEq, false_and, exists_false, or_false]
    constructor
    · intro h
      split at h
      · next index hw hs =>
        cases h
        exact ⟨i, age, index, ⟨rfl, rfl⟩, hw, hs, rfl⟩
      · cases h
    · rintro ⟨_, _, index, ⟨rfl, rfl⟩, hw, hs, rfl⟩
      simp only [hw, hs]
  | finish i =>
    simp only [step, Event.finish.injEq, reduceCtorEq, false_and, exists_false, false_or]
    constructor
    · intro h
      split at h
      · next latest earlier hw =>
        cases h
        refine ⟨i, rfl, hw, nofun, ?_⟩
        cases hc : check i with
        | ok a => rfl
        | error e => rfl
      · cases h
    · rintro ⟨_, rfl, hw, hs, rfl⟩
      cases seen with
      | nil => exact absurd rfl hs
      | cons latest earlier =>
        simp only [hw]
        cases hc : check i with
        | ok a => rfl
        | error e => rfl

/-! ### The invariant -/

/-- What holds of the workers of `n` transactions at all times. -/
structure Consistent (check : Nat → Except ε α) (n : Nat) (w : Workers ε α) : Prop where
  length_progress : w.progress.length = n
  seen_ne_nil : w.seen ≠ []
  /-- The shared index only names checks that failed and are done. -/
  failed_of_seen : ∀ j, some j ∈ w.seen →
    ∃ e, check j = .error e ∧ w.progress[j]? = some (.finished (.error e))
  finished_eq : ∀ i r, w.progress[i]? = some (.finished r) → r = check i
  /-- A worker is only skipped behind an index that the shared index has named. -/
  seen_of_skipped : ∀ i, w.progress[i]? = some .skipped → ∃ j < i, some j ∈ w.seen

theorem start_consistent (check : Nat → Except ε α) (n : Nat) : Consistent check n (start n) where
  length_progress := List.length_replicate
  seen_ne_nil := nofun
  failed_of_seen j h := by
    rw [start, List.mem_singleton] at h
    cases h
  finished_eq i r h := by
    rw [start, List.getElem?_replicate] at h
    split at h <;> cases h
  seen_of_skipped i h := by
    rw [start, List.getElem?_replicate] at h
    split at h <;> cases h

/-- The progress of one worker changes and that of the others does not. -/
theorem getElem?_set_eq {ps : List (Progress ε α)} {i j : Nat} {p q : Progress ε α}
    (h : (ps.set i p)[j]? = some q) : (j = i ∧ q = p) ∨ (j ≠ i ∧ ps[j]? = some q) := by
  by_cases hj : j = i
  · subst hj
    rw [List.getElem?_set_self'] at h
    cases hp : ps[j]? with
    | none => rw [hp] at h; cases h
    | some p' => rw [hp] at h; cases h; exact .inl ⟨rfl, rfl⟩
  · rw [List.getElem?_set_ne (Ne.symm hj)] at h
    exact .inr ⟨hj, h⟩

theorem load_consistent {i age : Nat} {index : Option Nat} (h : Consistent check n w)
    (hw : w.progress[i]? = some .waiting) (hs : w.seen[age]? = some index) :
    Consistent check n
      ⟨w.seen, w.progress.set i (if index.any (· < i) then .skipped else .checking)⟩ where
  length_progress := by rw [List.length_set, h.length_progress]
  seen_ne_nil := h.seen_ne_nil
  failed_of_seen j hj := by
    obtain ⟨e, he, hp⟩ := h.failed_of_seen j hj
    refine ⟨e, he, ?_⟩
    have hij : i ≠ j := fun hij => by
      rw [← hij, hw] at hp
      cases hp
    rw [List.getElem?_set_ne hij, hp]
  finished_eq j r hj := by
    rcases getElem?_set_eq hj with ⟨-, hr⟩ | ⟨-, hj⟩
    · split at hr <;> cases hr
    · exact h.finished_eq j r hj
  seen_of_skipped j hj := by
    rcases getElem?_set_eq hj with ⟨rfl, hr⟩ | ⟨-, hj⟩
    · split at hr
      · next hlt =>
        -- the loaded value itself is the failure that the worker lies behind
        obtain ⟨k, rfl, hk⟩ := (Option.any_eq_true _ _).1 hlt
        exact ⟨k, of_decide_eq_true hk, List.mem_of_getElem? hs⟩
      · cases hr
    · exact h.seen_of_skipped j hj

theorem finish_consistent {i : Nat} (h : Consistent check n w)
    (hw : w.progress[i]? = some .checking) :
    Consistent check n ⟨record i (check i) w.seen, w.progress.set i (.finished (check i))⟩ where
  length_progress := by rw [List.length_set, h.length_progress]
  seen_ne_nil hn := by
    obtain ⟨v, hv⟩ := List.exists_mem_of_ne_nil _ h.seen_ne_nil
    have hm : v ∈ record i (check i) w.seen := mem_record_of_mem hv
    exact List.ne_nil_of_mem hm hn
  failed_of_seen j hj := by
    have hi : i < w.progress.length := (List.getElem?_eq_some_iff.1 hw).1
    rcases some_mem_record hj with hj | ⟨rfl, e, he⟩
    · obtain ⟨e, he, hp⟩ := h.failed_of_seen j hj
      refine ⟨e, he, ?_⟩
      have hij : i ≠ j := fun hij => by
        rw [← hij, hw] at hp
        cases hp
      rw [List.getElem?_set_ne hij, hp]
    · exact ⟨e, he, by rw [List.getElem?_set_self hi, he]⟩
  finished_eq j r hj := by
    rcases getElem?_set_eq hj with ⟨rfl, hr⟩ | ⟨-, hj⟩
    · cases hr
      rfl
    · exact h.finished_eq j r hj
  seen_of_skipped j hj := by
    rcases getElem?_set_eq hj with ⟨-, hr⟩ | ⟨-, hj⟩
    · cases hr
    · obtain ⟨k, hk, hs⟩ := h.seen_of_skipped j hj
      exact ⟨k, hk, mem_record_of_mem hs⟩

theorem step_consistent {event : Event} (h : Consistent check n w)
    (hs : step check w event = some w') : Consistent check n w' := by
  rcases step_eq_some_iff.1 hs with ⟨i, age, index, -, hw, hv, rfl⟩ | ⟨i, -, hw, -, rfl⟩
  · exact load_consistent h hw hv
  · exact finish_consistent h hw

theorem run_consistent {schedule : List Event} (h : Consistent check n w)
    (hr : run check schedule w = some w') : Consistent check n w' := by
  induction schedule generalizing w with
  | nil =>
    cases hr
    exact h
  | cons event schedule ih =>
    rw [run, List.foldlM_cons] at hr
    obtain ⟨v, hv, hr⟩ := Option.bind_eq_some_iff.1 hr
    exact ih (step_consistent h hv) hr

/-! ### Every schedule can be completed -/

/-- How many events a worker still needs at most. -/
def Progress.cost : Progress ε α → Nat
  | .waiting => 2
  | .checking => 1
  | .skipped => 0
  | .finished _ => 0

/-- How many events the workers still need at most. -/
def pending (w : Workers ε α) : Nat := (w.progress.map Progress.cost).sum

theorem sum_cost_set_lt {ps : List (Progress ε α)} {i : Nat} {p q : Progress ε α}
    (hp : ps[i]? = some p) (hq : q.cost < p.cost) :
    ((ps.set i q).map Progress.cost).sum < (ps.map Progress.cost).sum := by
  induction ps generalizing i with
  | nil => cases hp
  | cons p' ps ih =>
    cases i with
    | zero =>
      cases hp
      simp only [List.set_cons_zero, List.map_cons, List.sum_cons]
      omega
    | succ i =>
      have := ih (i := i) hp
      simp only [List.set_cons_succ, List.map_cons, List.sum_cons]
      omega

/-- While some worker is not done, some worker can go on. -/
theorem exists_step (h : Consistent check n w) (hc : w.isComplete = false) :
    ∃ event w', step check w event = some w' ∧ w'.pending < w.pending := by
  obtain ⟨p, hp, hn⟩ := List.all_eq_false.1 hc
  obtain ⟨i, hi⟩ := List.getElem?_of_mem hp
  cases p with
  | waiting =>
    obtain ⟨index, hs⟩ : ∃ index, w.seen[0]? = some index := by
      obtain ⟨latest, earlier, hs⟩ := List.exists_cons_of_ne_nil h.seen_ne_nil
      exact ⟨latest, by rw [hs]; rfl⟩
    refine ⟨.load i 0, _, step_eq_some_iff.2 (.inl ⟨i, 0, index, rfl, hi, hs, rfl⟩), ?_⟩
    refine sum_cost_set_lt hi ?_
    split
    · exact Nat.zero_lt_two
    · exact Nat.one_lt_two
  | checking =>
    refine ⟨.finish i, _, step_eq_some_iff.2 (.inr ⟨i, rfl, hi, h.seen_ne_nil, rfl⟩), ?_⟩
    exact sum_cost_set_lt hi Nat.zero_lt_one
  | skipped => exact absurd rfl hn
  | finished r => exact absurd rfl hn

theorem run_append (s t : List Event) (w : Workers ε α) :
    run check (s ++ t) w = (run check s w).bind (run check t) :=
  List.foldlM_append

/-- Whatever the workers have done so far, they can come to an end. -/
theorem exists_completion (h : Consistent check n w) :
    ∃ schedule w', run check schedule w = some w' ∧ w'.isComplete = true := by
  -- each event that `exists_step` finds leaves fewer for the rest
  induction hm : w.pending using Nat.strongRecOn generalizing w with
  | ind m ih =>
    cases hc : w.isComplete with
    | true => exact ⟨[], w, rfl, hc⟩
    | false =>
      obtain ⟨event, v, hs, hlt⟩ := exists_step h hc
      obtain ⟨schedule, w', hr, hw'⟩ := ih v.pending (hm ▸ hlt) (step_consistent h hs) rfl
      refine ⟨event :: schedule, w', ?_, hw'⟩
      rw [← List.singleton_append, run_append]
      show ((step check w event).bind some).bind (run check schedule) = some w'
      rw [hs]
      exact hr

/-! ### The answer -/

/-- The first failure in the order of the block is never skipped, and no check before it is. -/
theorem outcome_eq_check {i : Nat} {p : Progress ε α} (h : Consistent check n w)
    (hc : w.isComplete = true) (hp : w.progress[i]? = some p)
    (hok : ∀ j < i, ∃ a, check j = .ok a) (recompute : Nat → Except ε α) :
    outcome recompute i p = check i := by
  have hdone := List.all_eq_true.1 hc p (List.mem_of_getElem? hp)
  cases p with
  | waiting => cases hdone
  | checking => cases hdone
  | skipped =>
    obtain ⟨j, hj, hs⟩ := h.seen_of_skipped i hp
    obtain ⟨e, he, -⟩ := h.failed_of_seen j hs
    obtain ⟨a, ha⟩ := hok j hj
    rw [ha] at he
    cases he
  | finished r => exact h.finished_eq i r hp

theorem collect_eq_mapM (h : Consistent check n w) (hc : w.isComplete = true)
    (recompute : Nat → Except ε α) : collect recompute w = (List.range n).mapM check := by
  refine Steps.mapM_congr_until (by simp [h.length_progress]) fun i x z hx hz hok => ?_
  obtain ⟨hi, rfl⟩ := List.getElem?_eq_some_iff.1 hx
  rw [List.getElem_range]
  rw [List.length_range] at hi
  obtain ⟨p, hp, rfl⟩ := Steps.getElem?_zipIdx_eq.1 hz
  refine outcome_eq_check h hc hp (fun j hj => ?_) recompute
  exact hok j hj j (by rw [List.getElem?_range (Nat.lt_trans hj hi)])

/-- A worker that was skipped lies behind one that has found a failure. -/
theorem exists_failure_of_skipped {i : Nat} (h : Consistent check n w)
    (hi : w.progress[i]? = some .skipped) :
    ∃ j < i, ∃ e, w.progress[j]? = some (.finished (.error e)) := by
  obtain ⟨j, hj, hs⟩ := h.seen_of_skipped i hi
  obtain ⟨e, -, hp⟩ := h.failed_of_seen j hs
  exact ⟨j, hj, e, hp⟩

/-! ### Blocks -/

variable {registry : Registry} {config : ChainConfig} {ctx : PredicateContext} {timestamp : UInt64}
  {transactions : List AccessList}

theorem checkAt_eq {i : Nat} {items : AccessList} (h : transactions[i]? = some items) :
    checkAt registry config ctx timestamp transactions i =
      BlockCheck.checkTransaction registry config ctx timestamp i items := by
  rw [checkAt, List.getD_eq_getElem?_getD, h, Option.getD_some]

theorem check_eq_mapM_checkAt :
    BlockCheck.check registry config ctx timestamp transactions =
      (List.range transactions.length).mapM
        (checkAt registry config ctx timestamp transactions) := by
  refine Steps.mapM_congr_until (by simp) fun i x z hx hz _ => ?_
  obtain ⟨-, rfl⟩ := List.getElem?_eq_some_iff.1 hx
  obtain ⟨items, hi, rfl⟩ := Steps.getElem?_zipIdx_eq.1 hz
  rw [List.getElem_range, checkAt_eq hi]

/-- Under every schedule that brings all workers to their end, a block gets the answer of the sequential check. What a
second check of a skipped transaction would say has no influence, since a lower failure is found before. A failure is
the one of the first transaction that fails, with its index. -/
theorem collect_run_eq_check {schedule : List Event} {w : Workers BlockCheckError VerifiedPayloads}
    (hr : run (checkAt registry config ctx timestamp transactions) schedule
      (start transactions.length) = some w)
    (hc : w.isComplete = true) :
    (∀ recompute, collect recompute w =
      BlockCheck.check registry config ctx timestamp transactions) ∧
    (∀ i : Nat, w.progress[i]? = some .skipped →
      ∃ j < i, ∃ e, w.progress[j]? = some (.finished (.error e))) ∧
    (∀ recompute e, collect recompute w = .error e →
      ∃ items, transactions[e.transaction]? = some items ∧
        BlockCheck.checkTransaction registry config ctx timestamp e.transaction items = .error e ∧
        ∀ i < e.transaction, ∀ items', transactions[i]? = some items' → ∃ payloads,
          BlockCheck.checkTransaction registry config ctx timestamp i items' = .ok payloads) := by
  have hw := run_consistent (start_consistent _ _) hr
  have hcollect : ∀ recompute, collect recompute w =
      BlockCheck.check registry config ctx timestamp transactions := fun recompute => by
    rw [collect_eq_mapM hw hc recompute, check_eq_mapM_checkAt]
  refine ⟨hcollect, fun i hi => exists_failure_of_skipped hw hi, fun recompute e he => ?_⟩
  rw [hcollect recompute] at he
  exact BlockCheck.check_eq_error_iff.1 he

/-- A schedule for three workers: the second finishes first, the third is skipped for its failure, and the first loads
the index as it was before. -/
def staleSchedule : List Event := [.load 1 0, .finish 1, .load 2 0, .load 0 1, .finish 0]

theorem collect_staleSchedule :
    ∃ w, run (checkAt TwoValidators.registry TwoValidators.config TwoValidators.context 10
        TwoValidators.transactions) staleSchedule (start 3) = some w ∧
      w.isComplete = true ∧ ∀ recompute, collect recompute w =
        BlockCheck.check TwoValidators.registry TwoValidators.config TwoValidators.context 10
          TwoValidators.transactions := by
  obtain ⟨w, hr, hc⟩ : ∃ w, run (checkAt TwoValidators.registry TwoValidators.config
      TwoValidators.context 10 TwoValidators.transactions) staleSchedule (start 3) = some w ∧
      w.isComplete = true := ⟨_, rfl, rfl⟩
  exact ⟨w, hr, hc, (collect_run_eq_check hr hc).1⟩

end Workers

end Interchain
