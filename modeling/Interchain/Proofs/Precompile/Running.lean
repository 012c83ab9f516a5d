import Interchain.Precompile.Dispatch
import Interchain.Proofs.Steps
import Mathlib.Data.List.Nodup

/-!
# Running a call

A call of a contract, from the choice of the function to its handler. Routing, charging and the protection of the
state need no state, so they are brought in front (`CallM.lift`), and a call is a case distinction on them before
the handler runs on the state it was given.

For a table that was accepted, each function is found by its own selector. Tables with a fallback are not treated,
as the messenger has none.
-/

namespace Interchain

/-! ### Steps on a state -/

namespace CallM

variable {α β ε : Type} {s : Overlay}

theorem exists_run_eq {x : CallM α} {r : Except CallFailure α} (h : (x.run s).1 = r) :
    ∃ s', x.run s = (r, s') := ⟨(x.run s).2, Prod.ext h rfl⟩

/-- A result that neither needs nor changes the state. -/
def lift (r : Except CallFailure α) : CallM α := ExceptT.mk (pure r)

@[simp] theorem run_lift (r : Except CallFailure α) (s : Overlay) : (lift r).run s = (r, s) := rfl

theorem lift_pure (a : α) : (lift (pure a) : CallM α) = pure a := rfl

theorem lift_bind (r : Except CallFailure α) (f : α → Except CallFailure β) :
    lift (r >>= f) = lift r >>= fun a => lift (f a) := by
  cases r with
  | ok a => rfl
  | error e => rfl

theorem ofExcept_eq_lift (gas : UInt64) (cause : ε → PrecompileError) (r : Except ε α) :
    ofExcept gas cause r = lift (r.mapError fun e => ⟨cause e, gas⟩) := by
  cases r with
  | ok a => rfl
  | error e => rfl

theorem ofOption_eq_lift (failure : CallFailure) (o : Option α) :
    ofOption failure o = lift (o.elim (.error failure) .ok) := by
  cases o with
  | none => rfl
  | some a => rfl

end CallM

/-! ### Dispatch -/

namespace ContractFunction

variable (signature : String) (baseGas : UInt64) (mutability : Mutability)
  (handler : Environment → Call → CallM CallOutput)

@[simp] theorem selector_ofSignature :
    (ofSignature signature baseGas mutability handler).selector = Selector.ofSignature signature :=
  rfl

@[simp] theorem signature_ofSignature :
    (ofSignature signature baseGas mutability handler).signature = signature := rfl

@[simp] theorem baseGas_ofSignature :
    (ofSignature signature baseGas mutability handler).baseGas = baseGas := rfl

@[simp] theorem mutability_ofSignature :
    (ofSignature signature baseGas mutability handler).mutability = mutability := rfl

@[simp] theorem handler_ofSignature :
    (ofSignature signature baseGas mutability handler).handler = handler := rfl

end ContractFunction

namespace DispatchTable

variable {t : DispatchTable} {env : Environment} {c : Call} {s : Overlay} {f : ContractFunction}
  {fs : List ContractFunction} {input args : Bytes}

/-- Nothing repeats if the selectors differ from each other and from those that were seen. -/
theorem firstRepeat_eq_none_iff {seen ss : List Selector} :
    firstRepeat seen ss = none ↔ ss.Nodup ∧ ∀ s ∈ ss, s ∉ seen := by
  induction ss generalizing seen with
  | nil => simp [firstRepeat]
  | cons s ss ih =>
    rw [firstRepeat]
    by_cases h : s ∈ seen
    · simp [h]
    · rw [if_neg h, ih, List.nodup_cons, List.forall_mem_cons]
      constructor
      · intro ⟨hnodup, hnew⟩
        have hs : s ∉ ss := fun hmem => hnew s hmem List.mem_cons_self
        exact ⟨⟨hs, hnodup⟩, h, fun x hx hseen => hnew x hx (List.mem_cons_of_mem s hseen)⟩
      · intro ⟨⟨hs, hnodup⟩, _, hnew⟩
        refine ⟨hnodup, fun x hx hseen => ?_⟩
        rcases List.mem_cons.1 hseen with rfl | hseen
        · exact hs hx
        · exact hnew x hx hseen

theorem ofFunctions_eq_ok_iff :
    ofFunctions fs = .ok t ↔ (fs.map (·.selector)).Nodup ∧ t = { functions := fs } := by
  have hnodup : firstRepeat [] (fs.map (·.selector)) = none ↔ (fs.map (·.selector)).Nodup := by
    simp [firstRepeat_eq_none_iff]
  rw [← hnodup, ofFunctions]
  cases firstRepeat [] (fs.map (·.selector)) with
  | none => exact ⟨fun h => ⟨rfl, (Except.ok.inj h).symm⟩, fun h => congrArg Except.ok h.2.symm⟩
  | some s => exact ⟨nofun, fun h => nomatch h.1⟩

/-- The selectors of a table differ, so that each function is found by its own. -/
theorem find?_of_mem (ht : ofFunctions fs = .ok t) (hf : f ∈ fs) : t.find? f.selector = some f := by
  obtain ⟨hnodup, rfl⟩ := ofFunctions_eq_ok_iff.1 ht
  show fs.find? (fun g => g.selector = f.selector) = some f
  cases hfind : fs.find? fun g => g.selector = f.selector with
  | none => simpa using List.find?_eq_none.1 hfind f hf
  | some g =>
    have hg : g ∈ fs := List.mem_of_find?_eq_some hfind
    have hselector : g.selector = f.selector := by simpa using List.find?_some hfind
    rw [List.inj_on_of_nodup_map hnodup hg hf hselector]

theorem find?_ofSignature {signature : String} {baseGas : UInt64} {mutability : Mutability}
    {handler : Environment → Call → CallM CallOutput} (ht : ofFunctions fs = .ok t)
    (hf : .ofSignature signature baseGas mutability handler ∈ fs) :
    t.find? (Selector.ofSignature signature) = some (.ofSignature signature baseGas mutability handler) := by
  have h := find?_of_mem ht hf
  rwa [ContractFunction.selector_ofSignature] at h

/-- Without a fallback, the selector at the front of an input chooses the function. -/
theorem route_eq_ok_iff (ht : t.fallback = none) :
    t.route input = .ok (f, args) ↔
      ∃ sel, Abi.selector? input = some sel ∧ t.find? sel = some f ∧ args = input.drop 4 := by
  unfold route
  rw [ht]
  cases Abi.selector? input with
  | none => simp
  | some sel =>
    cases hfind : t.find? sel with
    | none => simp [hfind]
    | some g => simp [hfind, eq_comm]

theorem mem_of_route (ht : t.fallback = none) (h : t.route input = .ok (f, args)) : f ∈ t.functions := by
  obtain ⟨sel, -, hfind, -⟩ := (route_eq_ok_iff ht).1 h
  exact List.mem_of_find?_eq_some hfind

theorem selector?_append (sel : Selector) (args : Bytes) : Abi.selector? (sel.bytes ++ args) = some sel := by
  rw [Abi.selector?, List.take_left' sel.length_eq]
  exact FixedBytes.ofBytes?_bytes sel

theorem drop_append (sel : Selector) (args : Bytes) : (sel.bytes ++ args).drop 4 = args :=
  List.drop_left' sel.length_eq

theorem route_of_find? {sel : Selector} (ht : t.fallback = none) (hf : t.find? sel = some f) :
    t.route (sel.bytes ++ args) = .ok (f, args) :=
  (route_eq_ok_iff ht).2 ⟨sel, selector?_append sel args, hf, (drop_append sel args).symm⟩

/-- A call that selects no function keeps its gas and leaves the state as it is. -/
theorem run_dispatch_of_error {e : PrecompileError} (h : t.route c.input = .error e) :
    (t.dispatch env c).run s = (.error ⟨e, c.gas⟩, s) := by
  rw [dispatch, Steps.run_bind, h]
  rfl

/-- The handler of the chosen function runs after its base cost is paid, and not in a read-only call if it may change
the state. Until then the state is not touched. -/
theorem run_dispatch (h : t.route c.input = .ok (f, args)) :
    (t.dispatch env c).run s =
      match Gas.charge c.gas f.baseGas with
      | none => (.error .outOfGas, s)
      | some gas =>
        if c.readOnly && f.mutability = .nonPayable then (.error ⟨.writeProtection, gas⟩, s)
        else (f.handler env { c with input := args, gas }).run s := by
  rw [dispatch, Steps.run_bind, h]
  show (f.call env c args).run s = _
  rw [ContractFunction.call, Steps.run_bind]
  cases Gas.charge c.gas f.baseGas with
  | none => rfl
  | some gas =>
    show (if c.readOnly && f.mutability = .nonPayable then CallM.fail .writeProtection gas
      else f.handler env { c with input := args, gas }).run s = _
    split
    · rfl
    · rfl

end DispatchTable

end Interchain
