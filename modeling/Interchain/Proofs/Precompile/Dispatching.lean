import Interchain.Proofs.Precompile.Running
import Interchain.Proofs.TwoValidators

/-!
# What a table does with a call

Any table of functions, with or without a fallback, and any handlers.

* `DispatchTable.ofFunctions_eq_error_iff`: a list of functions is refused for the first selector that repeats.
* `DispatchTable.Selects`: the function that an input selects, in the three ways in which one can be selected. It does
  not mention the order of the table, and at most one function fits.
* `ContractFunction.Answers`: the order of charging, protecting the state and running the handler.
* `DispatchTable.table_serves`: a table is built exactly if the selectors differ, does not depend on the order of its
  functions, and answers each call by the function that is selected.

Between a selector and the signature behind it nothing is assumed: functions of different signatures may well
collide, and are then refused.
-/

namespace Interchain

/-! ### The answer of a function -/

/-- The answer `r` of a function that is called with some arguments. Short of its base cost the call loses all gas; behind it
the state is protected in a read-only call; and only then the handler runs, on the arguments and what is left of the gas. -/
structure ContractFunction.Answers (f : ContractFunction) (env : Environment) (c : Call) (args : Bytes)
    (s : Overlay) (r : Except CallFailure CallOutput × Overlay) : Prop where
  outOfGas : c.gas < f.baseGas → r = (.error ⟨.outOfGas, 0⟩, s)
  isProtected : f.baseGas ≤ c.gas → c.readOnly = true → f.mutability = .nonPayable →
    r = (.error ⟨.writeProtection, c.gas - f.baseGas⟩, s)
  handled : f.baseGas ≤ c.gas → (c.readOnly = true → f.mutability = .view) →
    r = (f.handler env { c with input := args, gas := c.gas - f.baseGas }).run s

namespace DispatchTable

variable {t : DispatchTable} {fs fs' : List ContractFunction} {fallback : Option ContractFunction}
  {f : ContractFunction} {input args : Bytes} {sel : Selector}

/-! ### Tables that are refused -/

/-- A selector that stands earlier in the list once more, and none before it does. -/
def IsFirstRepeat (ss : List Selector) (s : Selector) : Prop :=
  ∃ front rest, ss = front ++ s :: rest ∧ s ∈ front ∧ front.Nodup

/-- The search goes on as long as a selector neither stands in front nor was seen before. -/
theorem firstRepeat_eq_some_iff {seen ss : List Selector} {s : Selector} :
    firstRepeat seen ss = some s ↔
      ∃ front rest, ss = front ++ s :: rest ∧ (s ∈ front ∨ s ∈ seen) ∧ front.Nodup ∧
        ∀ x ∈ front, x ∉ seen := by
  induction ss generalizing seen with
  | nil =>
    refine ⟨fun h => (by cases h), ?_⟩
    rintro ⟨front, rest, h, -⟩
    cases front with
    | nil => cases h
    | cons x front => cases h
  | cons x ss ih =>
    rw [firstRepeat]
    by_cases hx : x ∈ seen
    · rw [if_pos hx, Option.some.injEq]
      constructor
      · rintro rfl
        exact ⟨[], ss, rfl, .inr hx, List.nodup_nil, List.forall_mem_nil _⟩
      · rintro ⟨front, rest, h, -, -, hnew⟩
        cases front with
        | nil => exact (List.cons.inj h).1
        | cons y front =>
          obtain ⟨rfl, -⟩ := List.cons.inj h
          exact absurd hx (hnew x List.mem_cons_self)
    · rw [if_neg hx, ih]
      constructor
      · rintro ⟨front, rest, rfl, hs, hnodup, hnew⟩
        have hfront : x ∉ front := fun hmem => hnew x hmem List.mem_cons_self
        refine ⟨x :: front, rest, rfl, ?_, List.nodup_cons.2 ⟨hfront, hnodup⟩, ?_⟩
        · rcases hs with hs | hs
          · exact .inl (List.mem_cons_of_mem x hs)
          · rcases List.mem_cons.1 hs with rfl | hs
            · exact .inl List.mem_cons_self
            · exact .inr hs
        · intro y hy hseen
          rcases List.mem_cons.1 hy with rfl | hy
          · exact hx hseen
          · exact hnew y hy (List.mem_cons_of_mem x hseen)
      · rintro ⟨front, rest, h, hs, hnodup, hnew⟩
        cases front with
        | nil =>
          obtain ⟨rfl, -⟩ := List.cons.inj h
          exact absurd (hs.resolve_left List.not_mem_nil) hx
        | cons y front =>
          obtain ⟨rfl, rfl⟩ := List.cons.inj h
          obtain ⟨hfront, hnodup⟩ := List.nodup_cons.1 hnodup
          refine ⟨front, rest, rfl, ?_, hnodup, fun z hz hseen => ?_⟩
          · rcases hs with hs | hs
            · rcases List.mem_cons.1 hs with rfl | hs
              · exact .inr List.mem_cons_self
              · exact .inl hs
            · exact .inr (List.mem_cons_of_mem x hs)
          · rcases List.mem_cons.1 hseen with rfl | hseen
            · exact hfront hz
            · exact hnew z (List.mem_cons_of_mem x hz) hseen

theorem ofFunctions_eq_error_iff {e : PrecompileError} :
    ofFunctions fs = .error e ↔
      ∃ s, IsFirstRepeat (fs.map (·.selector)) s ∧ e = .duplicateSelector s := by
  have hrepeat : ∀ s, firstRepeat [] (fs.map (·.selector)) = some s ↔
      IsFirstRepeat (fs.map (·.selector)) s := by
    intro s
    simp [firstRepeat_eq_some_iff, IsFirstRepeat]
  rw [ofFunctions]
  cases h : firstRepeat [] (fs.map (·.selector)) with
  | none =>
    refine ⟨fun h => (by cases h), ?_⟩
    rintro ⟨s, hs, -⟩
    rw [← hrepeat, h] at hs
    cases hs
  | some s =>
    simp only [Except.error.injEq]
    constructor
    · rintro rfl
      exact ⟨s, (hrepeat s).1 h, rfl⟩
    · rintro ⟨s', hs', rfl⟩
      rw [← hrepeat, h] at hs'
      cases hs'
      rfl

/-! ### The order of the functions -/

/-- Functions whose selectors differ are found by their selectors. -/
theorem find?_eq_some_iff (h : (t.functions.map (·.selector)).Nodup) :
    t.find? sel = some f ↔ f ∈ t.functions ∧ f.selector = sel := by
  constructor
  · intro hf
    have hsel : f.selector = sel := by simpa using List.find?_some hf
    exact ⟨List.mem_of_find?_eq_some hf, hsel⟩
  · rintro ⟨hf, rfl⟩
    exact find?_of_mem (t := { functions := t.functions }) (ofFunctions_eq_ok_iff.2 ⟨h, rfl⟩) hf

theorem find?_of_perm (h : (fs.map (·.selector)).Nodup) (hperm : fs.Perm fs') (sel : Selector) :
    find? ⟨fs', fallback⟩ sel = find? ⟨fs, fallback⟩ sel := by
  have h' : (fs'.map (·.selector)).Nodup := (hperm.map (·.selector)).nodup_iff.1 h
  refine Option.ext fun f => ?_
  rw [find?_eq_some_iff h', find?_eq_some_iff h, hperm.mem_iff]

theorem route_of_perm (h : (fs.map (·.selector)).Nodup) (hperm : fs.Perm fs') (input : Bytes) :
    route ⟨fs', fallback⟩ input = route ⟨fs, fallback⟩ input := by
  unfold route
  simp only [find?_of_perm h hperm]

theorem dispatch_of_perm (h : (fs.map (·.selector)).Nodup) (hperm : fs.Perm fs') :
    dispatch ⟨fs', fallback⟩ = dispatch ⟨fs, fallback⟩ := by
  funext env c
  unfold dispatch
  rw [route_of_perm h hperm]

/-! ### The selected function -/

/-- The function that an input selects, and the arguments that it is given: by the first four bytes, or the fallback where
there is no input or no function has this selector. -/
inductive Selects (fs : List ContractFunction) (fallback : Option ContractFunction) (input : Bytes) :
    ContractFunction → Bytes → Prop where
  | empty {f : ContractFunction} (hinput : input = []) (hf : fallback = some f) :
    Selects fs fallback input f []
  | selector {f : ContractFunction} (hf : f ∈ fs) (hsel : input.take 4 = f.selector.bytes) :
    Selects fs fallback input f (input.drop 4)
  | unmatched {f : ContractFunction} (hlen : 4 ≤ input.length)
    (hnone : ∀ g ∈ fs, input.take 4 ≠ g.selector.bytes) (hf : fallback = some f) :
    Selects fs fallback input f input

theorem selector?_eq_some_iff : Abi.selector? input = some sel ↔ sel.bytes = input.take 4 :=
  FixedBytes.ofBytes?_eq_some_iff

theorem selector?_eq_none_iff : Abi.selector? input = none ↔ input.length < 4 := by
  rw [Abi.selector?, FixedBytes.ofBytes?]
  split
  · next h =>
    rw [List.length_take] at h
    exact ⟨fun h => absurd h (Option.some_ne_none _), fun hlt => by omega⟩
  · next h =>
    rw [List.length_take] at h
    exact ⟨fun _ => by omega, fun _ => rfl⟩

/-- Why an input selects nothing: it is too short for a selector, or no function has it. -/
def unselected (input : Bytes) : PrecompileError :=
  (Abi.selector? input).elim (.inputTooShort input.length) .unknownSelector

/-- No function of the table has the selector. -/
theorem find?_eq_none_iff_take (hsel : sel.bytes = input.take 4) :
    find? ⟨fs, fallback⟩ sel = none ↔ ∀ g ∈ fs, input.take 4 ≠ g.selector.bytes := by
  simp only [find?, List.find?_eq_none, decide_eq_true_eq]
  refine forall₂_congr fun g _ => not_congr ?_
  rw [← hsel]
  exact ⟨fun h => congrArg FixedBytes.bytes h.symm, fun h => FixedBytes.ext h.symm⟩

/-- Unless the fallback takes the empty input, the selector decides, and then the fallback. -/
theorem route_of_ne_nil (h : input ≠ [] ∨ t.fallback = none) :
    t.route input =
      (Abi.selector? input).elim (.error (.inputTooShort input.length)) fun sel =>
        ((t.find? sel).map (·, input.drop 4) <|> t.fallback.map (·, input)).elim
          (.error (.unknownSelector sel)) .ok := by
  obtain ⟨fs, fallback⟩ := t
  unfold route
  cases input with
  | nil =>
    obtain rfl : fallback = none := h.resolve_left fun hne => hne rfl
    rfl
  | cons b rest =>
    cases Abi.selector? (b :: rest) with
    | none => simp
    | some sel => cases hf : find? ⟨fs, fallback⟩ sel <;> cases fallback <;> simp [hf]

/-- A table calls the function that is selected. -/
theorem route_of_selects (h : (fs.map (·.selector)).Nodup) (hsel : Selects fs fallback input f args) :
    route ⟨fs, fallback⟩ input = .ok (f, args) := by
  cases hsel with
  | empty hinput hf =>
    subst hinput hf
    rfl
  | selector hf hsel =>
    have hne : input ≠ [] := by
      rintro rfl
      have hlen := f.selector.length_bytes
      rw [← hsel] at hlen
      cases hlen
    have hfind : find? ⟨fs, fallback⟩ f.selector = some f := (find?_eq_some_iff h).2 ⟨hf, rfl⟩
    rw [route_of_ne_nil (.inl hne), selector?_eq_some_iff.2 hsel.symm, Option.elim_some, hfind]
    rfl
  | unmatched hlen hnone hf =>
    have hne : input ≠ [] := by
      rintro rfl
      cases hlen
    cases hs : Abi.selector? input with
    | none => exact absurd (selector?_eq_none_iff.1 hs) (Nat.not_lt.2 hlen)
    | some sel =>
      have hfind : find? ⟨fs, fallback⟩ sel = none :=
        (find?_eq_none_iff_take (selector?_eq_some_iff.1 hs)).2 hnone
      rw [route_of_ne_nil (.inl hne), hs, Option.elim_some, hfind, hf]
      rfl

/-- Where nothing is selected, a table fails. -/
theorem route_of_not_selects (h : ∀ f args, ¬ Selects fs fallback input f args) :
    route ⟨fs, fallback⟩ input = .error (unselected input) := by
  have hne : input ≠ [] ∨ fallback = none := by
    cases fallback with
    | none => exact .inr rfl
    | some g => exact .inl fun hinput => h g [] (.empty hinput rfl)
  rw [route_of_ne_nil hne, unselected]
  cases hs : Abi.selector? input with
  | none => rfl
  | some sel =>
    have hbytes := selector?_eq_some_iff.1 hs
    have hlen : 4 ≤ input.length := by
      rw [← Nat.not_lt, ← selector?_eq_none_iff, hs]
      exact Option.some_ne_none sel
    have hfind : find? ⟨fs, fallback⟩ sel = none := by
      refine (find?_eq_none_iff_take hbytes).2 fun g hg htake => ?_
      exact h g _ (.selector hg htake)
    have hfallback : fallback = none := by
      cases fallback with
      | none => rfl
      | some g => exact absurd (.unmatched hlen ((find?_eq_none_iff_take hbytes).1 hfind) rfl) (h g input)
    rw [Option.elim_some, Option.elim_some, hfind, hfallback]
    rfl

/-! ### Calls -/

/-- The function that was chosen answers as it should. -/
theorem answers_of_route {env : Environment} {c : Call} (s : Overlay) (h : t.route c.input = .ok (f, args)) :
    f.Answers env c args s ((t.dispatch env c).run s) := by
  rw [run_dispatch h, Gas.charge]
  constructor
  · intro hlt
    rw [if_neg (UInt64.not_le.2 hlt)]
    rfl
  · intro hle hreadOnly hmutability
    rw [if_pos hle]
    simp only [hreadOnly, hmutability, decide_true, Bool.and_true, if_true]
  · intro hle hview
    rw [if_pos hle]
    have hallowed : (c.readOnly && decide (f.mutability = .nonPayable)) = false := by
      cases hreadOnly : c.readOnly with
      | false => rfl
      | true =>
        rw [hview hreadOnly]
        rfl
    simp only [hallowed, Bool.false_eq_true, if_false]

/-- Functions make a table exactly if their selectors differ, and otherwise the first that repeats is reported. The order of the
functions does not matter to the table, whatever its fallback. A call is answered by the function that its input selects, and
keeps its gas and the state where there is none. -/
theorem table_serves (fs : List ContractFunction) :
    ((∃ t, ofFunctions fs = .ok t) ↔ (fs.map (·.selector)).Nodup) ∧
    (∀ e, ofFunctions fs = .error e ↔
      ∃ s, IsFirstRepeat (fs.map (·.selector)) s ∧ e = .duplicateSelector s) ∧
    ∀ t, ofFunctions fs = .ok t →
      (∀ fs', fs.Perm fs' → ∃ t', ofFunctions fs' = .ok t' ∧ ∀ fallback env c s,
        (dispatch { t' with fallback } env c).run s = (dispatch { t with fallback } env c).run s) ∧
      ∀ fallback env c s,
        (∀ f args, Selects fs fallback c.input f args →
          f.Answers env c args s ((dispatch { t with fallback } env c).run s)) ∧
        ((∀ f args, ¬ Selects fs fallback c.input f args) →
          (dispatch { t with fallback } env c).run s = (.error ⟨unselected c.input, c.gas⟩, s)) := by
  refine ⟨?_, fun e => ofFunctions_eq_error_iff, fun t ht => ?_⟩
  · constructor
    · rintro ⟨t, ht⟩
      exact (ofFunctions_eq_ok_iff.1 ht).1
    · intro h
      exact ⟨{ functions := fs }, ofFunctions_eq_ok_iff.2 ⟨h, rfl⟩⟩
  · obtain ⟨hnodup, rfl⟩ := ofFunctions_eq_ok_iff.1 ht
    refine ⟨fun fs' hperm => ?_, fun fallback env c s => ⟨fun f args hsel => ?_, fun hnone => ?_⟩⟩
    · have hnodup' := (hperm.map (·.selector)).nodup_iff.1 hnodup
      refine ⟨{ functions := fs' }, ofFunctions_eq_ok_iff.2 ⟨hnodup', rfl⟩, fun fallback env c s => ?_⟩
      show (dispatch ⟨fs', fallback⟩ env c).run s = (dispatch ⟨fs, fallback⟩ env c).run s
      rw [dispatch_of_perm hnodup hperm]
    · exact answers_of_route s (route_of_selects hnodup hsel)
    · exact run_dispatch_of_error (route_of_not_selects hnone)

/-- Writes to the state and answers with its arguments. -/
def scribble (sel : Selector) (baseGas : UInt64) (mutability : Mutability) : ContractFunction where
  selector := sel
  signature := "scribble(bytes)"
  baseGas := baseGas
  mutability := mutability
  handler _ c := do
    modify (·.setSlot c.address 0 1)
    return ⟨c.input, c.gas⟩

/-- A read-only call of the second of two functions that write. In another order the table is the same to it, and with the
first function once more there is no table. -/
theorem table_serves_scribble :
    let env := TwoValidators.environment
    let s := TwoValidators.stateWith TwoValidators.attachment
    let reader := scribble (.ofNat 4 0x01020304) 100 .view
    let writer := scribble (.ofNat 4 0x05060708) 200 .nonPayable
    let c : Call := { caller := .zero, address := .zero, input := [5, 6, 7, 8, 9], gas := 250, readOnly := true }
    (∃ t, ofFunctions [reader, writer] = .ok t) ∧
    ofFunctions [reader, writer, reader] = .error (.duplicateSelector reader.selector) ∧
    Selects [reader, writer] none c.input writer [9] ∧
    (dispatch ⟨[reader, writer], none⟩ env c).run s = (.error ⟨.writeProtection, 50⟩, s) ∧
    (dispatch ⟨[writer, reader], none⟩ env c).run s = (.error ⟨.writeProtection, 50⟩, s) := by
  intro env s reader writer c
  obtain ⟨-, -, hserves⟩ := table_serves [reader, writer]
  have ht : ofFunctions [reader, writer] = .ok { functions := [reader, writer] } := rfl
  have hsel : Selects [reader, writer] none c.input writer [9] :=
    .selector (List.mem_cons_of_mem _ List.mem_cons_self) rfl
  obtain ⟨horder, hcalls⟩ := hserves _ ht
  have hrest : c.gas - writer.baseGas = 50 := by decide
  have hrun : (dispatch ⟨[reader, writer], none⟩ env c).run s = (.error ⟨.writeProtection, 50⟩, s) := by
    rw [← hrest]
    exact ((hcalls none env c s).1 writer [9] hsel).isProtected (by decide) rfl rfl
  obtain ⟨t', ht', hsame⟩ := horder [writer, reader] (List.Perm.swap _ _ _)
  obtain ⟨-, rfl⟩ := ofFunctions_eq_ok_iff.1 ht'
  refine ⟨⟨_, ht⟩, ?_, hsel, hrun, (hsame none env c s).trans hrun⟩
  exact ((table_serves [reader, writer, reader]).2.1 _).2
    ⟨reader.selector, ⟨[reader.selector, writer.selector], [], rfl, List.mem_cons_self, by decide⟩, rfl⟩

end DispatchTable

end Interchain
