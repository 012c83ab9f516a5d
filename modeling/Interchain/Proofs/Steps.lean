/-!
# Sequences of steps that may fail

Sequences of steps that may fail: what they have established when they succeed, and which step is to blame when they
fail. Functions in the monad of exceptions are taken apart by these equivalences and never unfolded. Those on single
steps are simp lemmas.

* `Steps.bind_eq_ok_iff`, `Steps.guard_eq_ok_iff`: two steps, and a check before a step.
* `Steps.mapM_eq_ok_iff`, `Steps.mapM_eq_error_iff`: a step for each element of a list; the first that fails decides.
* `Steps.mapM_congr_until`: what follows the first failure does not matter.
* `Steps.forM_eq_ok_iff`, `Steps.forM_eq_error_iff`: the same for steps without a result.
* `Steps.foldlM_eq_error_iff`: steps that hand a value on.
* `Steps.run_bind`, `Steps.run_bind_eq_ok_iff`: two steps that also change a state.
-/

namespace Interchain.Steps

variable {ε ε' α β : Type}

/-! ### Two steps -/

@[simp] theorem ok_bind (a : α) (f : α → Except ε β) : (Except.ok a >>= f) = f a := rfl

@[simp] theorem mapError_ok (f : ε → ε') (a : α) : (Except.ok a).mapError f = .ok a := rfl

@[simp] theorem mapError_error (f : ε → ε') (e : ε) :
    (Except.error e : Except ε α).mapError f = .error (f e) := rfl

@[simp] theorem bind_eq_ok_iff {x : Except ε α} {f : α → Except ε β} {b : β} :
    (x >>= f) = .ok b ↔ ∃ a, x = .ok a ∧ f a = .ok b := by
  cases x with
  | ok a => simp [bind, Except.bind]
  | error e => simp [bind, Except.bind]

@[simp] theorem bind_eq_error_iff {x : Except ε α} {f : α → Except ε β} {e : ε} :
    (x >>= f) = .error e ↔ x = .error e ∨ ∃ a, x = .ok a ∧ f a = .error e := by
  cases x with
  | ok a => simp [bind, Except.bind]
  | error e => simp [bind, Except.bind]

@[simp] theorem pure_eq_ok_iff {a b : α} : (pure a : Except ε α) = .ok b ↔ a = b := by
  simp [pure, Except.pure]

@[simp] theorem pure_ne_error {a : α} {e : ε} : (pure a : Except ε α) ≠ .error e := nofun

@[simp] theorem throw_ne_ok {e : ε} {a : α} : (throw e : Except ε α) ≠ .ok a := nofun

@[simp] theorem mapError_eq_ok_iff {x : Except ε α} {f : ε → ε'} {a : α} :
    x.mapError f = .ok a ↔ x = .ok a := by
  cases x with
  | ok a => simp
  | error e => simp

@[simp] theorem mapError_eq_error_iff {x : Except ε α} {f : ε → ε'} {e' : ε'} :
    x.mapError f = .error e' ↔ ∃ e, x = .error e ∧ f e = e' := by
  cases x with
  | ok a => simp
  | error e => simp

@[simp] theorem elim_eq_ok_iff {o : Option α} {e : ε} {a : α} :
    (o.elim (.error e) .ok : Except ε α) = .ok a ↔ o = some a := by
  cases o with
  | none => simp
  | some a => simp

/-- A check before the rest of a sequence. -/
@[simp] theorem guard_eq_ok_iff {p : Prop} [Decidable p] {e : ε} {f : α → Except ε β}
    {x : Except ε β} {b : β} :
    (if p then (throw e : Except ε α) >>= f else x) = .ok b ↔ ¬p ∧ x = .ok b := by
  by_cases h : p
  · simp [h]
  · simp [h]

/-! ### A step for each element -/

theorem getElem?_zipIdx_eq {xs : List α} {i : Nat} {z : α × Nat} :
    xs.zipIdx[i]? = some z ↔ ∃ x, xs[i]? = some x ∧ z = (x, i) := by
  rw [List.getElem?_zipIdx, Option.map_eq_some_iff]
  simp only [Nat.zero_add, eq_comm]

theorem mapM_eq_ok_iff {f : α → Except ε β} {xs : List α} {ys : List β} :
    xs.mapM f = .ok ys ↔
      ys.length = xs.length ∧
        ∀ (i : Nat) x, xs[i]? = some x → ∃ y, ys[i]? = some y ∧ f x = .ok y := by
  induction xs generalizing ys with
  | nil =>
    rw [List.mapM_nil, pure_eq_ok_iff]
    constructor
    · rintro rfl
      exact ⟨rfl, nofun⟩
    · rintro ⟨h, -⟩
      exact (List.length_eq_zero_iff.1 h).symm
  | cons x xs ih =>
    rw [List.mapM_cons]
    simp only [bind_eq_ok_iff, pure_eq_ok_iff]
    constructor
    · rintro ⟨y, hy, zs, hz, rfl⟩
      obtain ⟨hl, hzs⟩ := ih.1 hz
      refine ⟨congrArg (· + 1) hl, fun i x' hx' => ?_⟩
      cases i with
      | zero => cases hx'; exact ⟨y, rfl, hy⟩
      | succ i => exact hzs i x' hx'
    · rintro ⟨hl, h⟩
      cases ys with
      | nil => cases hl
      | cons y zs =>
        obtain ⟨y', hy', hf⟩ := h 0 x rfl
        cases hy'
        exact ⟨y, hf, zs, ih.2 ⟨Nat.succ.inj hl, fun i x' hx' => h (i + 1) x' hx'⟩, rfl⟩

/-- A list of steps fails with the error of its first step that fails. -/
theorem mapM_eq_error_iff {f : α → Except ε β} {xs : List α} {e : ε} :
    xs.mapM f = .error e ↔
      ∃ (i : Nat) (x : α), xs[i]? = some x ∧ f x = .error e ∧
        ∀ j < i, ∀ x', xs[j]? = some x' → ∃ y, f x' = .ok y := by
  induction xs with
  | nil =>
    rw [List.mapM_nil]
    exact ⟨nofun, fun ⟨i, x, hx, _⟩ => nomatch hx⟩
  | cons x xs ih =>
    rw [List.mapM_cons]
    simp only [bind_eq_error_iff, pure_ne_error, and_false, exists_false, or_false]
    constructor
    · rintro (hx | ⟨y, hy, hxs⟩)
      · exact ⟨0, x, rfl, hx, nofun⟩
      · obtain ⟨i, x', hx', hf, hlt⟩ := ih.1 hxs
        refine ⟨i + 1, x', hx', hf, fun j hj z hz => ?_⟩
        cases j with
        | zero => cases hz; exact ⟨y, hy⟩
        | succ j => exact hlt j (Nat.lt_of_succ_lt_succ hj) z hz
    · rintro ⟨i, x', hx', hf, hlt⟩
      cases i with
      | zero => cases hx'; exact .inl hf
      | succ i =>
        obtain ⟨y, hy⟩ := hlt 0 (Nat.succ_pos i) x rfl
        exact .inr ⟨y, hy, ih.2 ⟨i, x', hx', hf, fun j hj => hlt (j + 1) (Nat.succ_lt_succ hj)⟩⟩

/-- Two lists of steps come to the same end if they agree as far as the first goes without a failure. -/
theorem mapM_congr_until {γ : Type} {f : α → Except ε β} {g : γ → Except ε β} {xs : List α}
    {zs : List γ} (hl : zs.length = xs.length)
    (h : ∀ (i : Nat) x z, xs[i]? = some x → zs[i]? = some z →
      (∀ j < i, ∀ x', xs[j]? = some x' → ∃ y, f x' = .ok y) → g z = f x) :
    zs.mapM g = xs.mapM f := by
  induction xs generalizing zs with
  | nil =>
    rw [List.length_eq_zero_iff.1 hl]
    rfl
  | cons x xs ih =>
    cases zs with
    | nil => cases hl
    | cons z zs =>
      rw [List.mapM_cons, List.mapM_cons, h 0 x z rfl rfl nofun]
      cases hx : f x with
      | error e => rfl
      | ok y =>
        -- only now is the rest of the list reached, and the agreement there may use that `f x` succeeds
        have hrest : zs.mapM g = xs.mapM f := by
          refine ih (Nat.succ.inj hl) fun i x' z' hx' hz' hok => ?_
          refine h (i + 1) x' z' hx' hz' fun j hj v hv => ?_
          cases j with
          | zero => cases hv; exact ⟨y, hx⟩
          | succ j => exact hok j (Nat.lt_of_succ_lt_succ hj) v hv
        rw [hrest]

/-- Steps that all succeed on what another function has made. -/
theorem mapM_map_eq_ok {γ : Type} {f : β → Except ε γ} {g : α → β} {k : α → γ} {xs : List α}
    (h : ∀ x ∈ xs, f (g x) = .ok (k x)) : (xs.map g).mapM f = .ok (xs.map k) := by
  induction xs with
  | nil => rfl
  | cons x xs ih =>
    obtain ⟨hx, hrest⟩ := List.forall_mem_cons.1 h
    rw [List.map_cons, List.mapM_cons, hx, ok_bind, ih hrest]
    rfl

/-- If each result tells what it comes from, all of them together do. -/
theorem eq_map_of_mapM_eq_ok {f : α → Except ε β} {g : β → α} {xs : List α} {ys : List β}
    (h : ∀ x ∈ xs, ∀ y, f x = .ok y → x = g y) (hm : xs.mapM f = .ok ys) : xs = ys.map g := by
  induction xs generalizing ys with
  | nil =>
    obtain rfl := pure_eq_ok_iff.1 hm
    rfl
  | cons x xs ih =>
    obtain ⟨hx, hrest⟩ := List.forall_mem_cons.1 h
    rw [List.mapM_cons] at hm
    obtain ⟨y, hy, hm⟩ := bind_eq_ok_iff.1 hm
    obtain ⟨zs, hzs, hm⟩ := bind_eq_ok_iff.1 hm
    obtain rfl := pure_eq_ok_iff.1 hm
    rw [List.map_cons, ← hx y hy, ← ih hrest hzs]

theorem mapM_map_result {γ : Type} (f : α → Except ε β) (k : β → γ) (xs : List α) :
    (xs.mapM fun x => (f x).map k) = (xs.mapM f).map (List.map k) := by
  induction xs with
  | nil => rfl
  | cons x xs ih =>
    rw [List.mapM_cons, List.mapM_cons, ih]
    cases f x with
    | error e => rfl
    | ok y =>
      cases xs.mapM f with
      | error e => rfl
      | ok ys => rfl

theorem forM_eq_ok_iff {f : α → Except ε Unit} {xs : List α} :
    xs.forM f = .ok () ↔ ∀ x ∈ xs, f x = .ok () := by
  induction xs with
  | nil => exact ⟨fun _ => nofun, fun _ => rfl⟩
  | cons x xs ih =>
    show (f x >>= fun _ => xs.forM f) = .ok () ↔ _
    rw [bind_eq_ok_iff, ih, List.forall_mem_cons]
    exact ⟨fun ⟨_, hx, hxs⟩ => ⟨hx, hxs⟩, fun ⟨hx, hxs⟩ => ⟨_, hx, hxs⟩⟩

/-- The first step that fails decides, whatever follows it. -/
theorem forM_eq_error_iff {f : α → Except ε Unit} {xs : List α} {e : ε} :
    xs.forM f = .error e ↔
      ∃ (i : Nat) (x : α), xs[i]? = some x ∧ f x = .error e ∧
        ∀ j < i, ∀ x', xs[j]? = some x' → f x' = .ok () := by
  induction xs with
  | nil => exact ⟨nofun, fun ⟨_, _, hx, _⟩ => nomatch hx⟩
  | cons x xs ih =>
    show (f x >>= fun _ => xs.forM f) = .error e ↔ _
    rw [bind_eq_error_iff, ih]
    constructor
    · rintro (hx | ⟨_, hx, i, x', hx', hf, hlt⟩)
      · exact ⟨0, x, rfl, hx, nofun⟩
      · refine ⟨i + 1, x', hx', hf, fun j hj z hz => ?_⟩
        cases j with
        | zero => cases hz; exact hx
        | succ j => exact hlt j (Nat.lt_of_succ_lt_succ hj) z hz
    · rintro ⟨i, x', hx', hf, hlt⟩
      cases i with
      | zero => cases hx'; exact .inl hf
      | succ i =>
        have hx := hlt 0 (Nat.succ_pos i) x rfl
        exact .inr ⟨(), hx, i, x', hx', hf, fun j hj => hlt (j + 1) (Nat.succ_lt_succ hj)⟩

/-- A value is handed on as far as the first step that fails. -/
theorem foldlM_eq_error_iff {f : β → α → Except ε β} {xs : List α} {s : β} {e : ε} :
    xs.foldlM f s = .error e ↔
      ∃ front x rest t, xs = front ++ x :: rest ∧ front.foldlM f s = .ok t ∧ f t x = .error e := by
  constructor
  · intro h
    induction xs generalizing s with
    | nil => cases h
    | cons x xs ih =>
      rw [List.foldlM_cons, bind_eq_error_iff] at h
      rcases h with hx | ⟨t, hx, h⟩
      · exact ⟨[], x, xs, s, rfl, rfl, hx⟩
      · obtain ⟨front, y, rest, u, rfl, hfront, hy⟩ := ih h
        refine ⟨x :: front, y, rest, u, rfl, ?_, hy⟩
        rw [List.foldlM_cons, hx]
        exact hfront
  · rintro ⟨front, x, rest, t, rfl, hfront, hx⟩
    rw [List.foldlM_append, hfront]
    show (x :: rest).foldlM f t = .error e
    rw [List.foldlM_cons, hx]
    rfl

/-! ### Steps on a state -/

section State

variable {σ : Type} {s t : σ}

theorem run_bind (x : ExceptT ε (StateM σ) α) (f : α → ExceptT ε (StateM σ) β) (s : σ) :
    (x >>= f).run s =
      match x.run s with
      | (.ok a, t) => (f a).run t
      | (.error e, t) => (.error e, t) := by
  rw [ExceptT.run_bind]
  show StateT.bind x.run _ s = _
  unfold StateT.bind
  show (match x.run s with | (r, t) => _ : Id _) = _
  cases x.run s with
  | mk r t =>
    cases r with
    | ok a => rfl
    | error e => rfl

theorem run_bind_eq_ok_iff {x : ExceptT ε (StateM σ) α} {f : α → ExceptT ε (StateM σ) β} {b : β} :
    (x >>= f).run s = (.ok b, t) ↔ ∃ a u, x.run s = (.ok a, u) ∧ (f a).run u = (.ok b, t) := by
  rw [run_bind]
  cases x.run s with
  | mk r u =>
    cases r with
    | ok a =>
      constructor
      · intro h
        exact ⟨a, u, rfl, h⟩
      · intro ⟨_, _, hx, h⟩
        cases hx
        exact h
    | error e => exact ⟨nofun, fun ⟨_, _, hx, _⟩ => nomatch hx⟩

theorem run_pure_eq_ok_iff {a b : α} :
    (pure a : ExceptT ε (StateM σ) α).run s = (.ok b, t) ↔ a = b ∧ s = t := by
  show ((Except.ok a, s) : Except ε α × σ) = (.ok b, t) ↔ _
  rw [Prod.mk.injEq, Except.ok.injEq]

/-- Another kind of error for the same steps. -/
theorem run_adapt (f : ε → ε') (x : ExceptT ε (StateM σ) α) (s : σ) :
    (ExceptT.adapt f x).run s = ((x.run s).1.mapError f, (x.run s).2) := rfl

/-- A check before the rest of a sequence. -/
theorem run_guard_eq_ok_iff {p : Prop} [Decidable p] {e : ε} {f : α → ExceptT ε (StateM σ) β}
    {x : ExceptT ε (StateM σ) β} {b : β} :
    (if p then (throw e : ExceptT ε (StateM σ) α) >>= f else x).run s = (.ok b, t) ↔
      ¬p ∧ x.run s = (.ok b, t) := by
  by_cases h : p
  · rw [if_pos h]
    exact ⟨nofun, fun hx => absurd h hx.1⟩
  · rw [if_neg h]
    exact ⟨fun hx => ⟨h, hx⟩, fun hx => hx.2⟩

end State

end Interchain.Steps
