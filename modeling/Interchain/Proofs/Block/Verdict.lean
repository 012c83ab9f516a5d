import Interchain.Block.Predicates
import Interchain.Proofs.Steps

/-!
# What a check of predicates has established

A check of predicates that succeeds has established something about every address: where it returns a payload, that
is the payload of the only item there, and it satisfies the predicate; where it returns none, no contract asks for
one or no item names the address. This is `BlockCheck.Verified`, and each item that is checked keeps it.

For the transactions of a block, the first that fails is the one that is reported. Which fault of a transaction that
is stays open here.
-/

namespace Interchain.BlockCheck

variable {registry : Registry} {config : ChainConfig} {ctx : PredicateContext} {timestamp : UInt64}

/-! ### One access list -/

theorem contains_eq_false_iff {v : VerifiedPayloads} {a : Address} :
    v.contains a = false ↔ v.get? a = none := by
  simp [Table.contains]

theorem checkItem_eq_ok_iff {v v' : VerifiedPayloads} {item : AccessItem} :
    checkItem registry config ctx timestamp v item = .ok v' ↔
      (predicateAt? registry config timestamp item.address = none ∧ v' = v) ∨
      ∃ predicate payload, predicateAt? registry config timestamp item.address = some predicate ∧
        v.get? item.address = none ∧ item.predicateBytes = .ok payload ∧
        predicate ctx payload = .ok () ∧ v' = v.insert item.address payload := by
  unfold checkItem
  cases predicateAt? registry config timestamp item.address with
  | none => simp [eq_comm]
  | some predicate =>
    simp only [Steps.guard_eq_ok_iff, Steps.bind_eq_ok_iff, Steps.mapError_eq_ok_iff,
      Steps.pure_eq_ok_iff, Bool.not_eq_true, contains_eq_false_iff, reduceCtorEq, false_and,
      false_or]
    constructor
    · rintro ⟨hv, payload, hp, _, hok, rfl⟩
      exact ⟨predicate, payload, rfl, hv, hp, hok, rfl⟩
    · rintro ⟨_, payload, hpred, hv, hp, hok, rfl⟩
      cases hpred
      exact ⟨hv, payload, hp, (), hok, rfl⟩

/-- What verified payloads say about the items of an access list. -/
structure Verified (registry : Registry) (config : ChainConfig) (ctx : PredicateContext)
    (timestamp : UInt64) (items : AccessList) (v : VerifiedPayloads) : Prop where
  /-- A payload comes from the only item at its address, and satisfies the predicate there. -/
  of_some : ∀ a payload, v.get? a = some payload → ∃ item predicate,
    items.filter (fun i => i.address = a) = [item] ∧
    predicateAt? registry config timestamp a = some predicate ∧
    item.predicateBytes = .ok payload ∧ predicate ctx payload = .ok ()
  /-- An address without a payload has no predicate or is not named. -/
  of_none : ∀ a, v.get? a = none →
    predicateAt? registry config timestamp a = none ∨ items.filter (fun i => i.address = a) = []

theorem verified_empty : Verified registry config ctx timestamp [] .empty where
  of_some _ _ h := nomatch h
  of_none _ _ := .inr rfl

theorem filter_append_of_ne {items : AccessList} {item : AccessItem} {a : Address}
    (h : item.address ≠ a) :
    (items ++ [item]).filter (fun i => i.address = a) = items.filter (fun i => i.address = a) := by
  rw [List.filter_append, List.filter_cons_of_neg (by simpa using h), List.filter_nil,
    List.append_nil]

theorem filter_append_of_eq {items : AccessList} {item : AccessItem} {a : Address}
    (h : item.address = a) :
    (items ++ [item]).filter (fun i => i.address = a) =
      items.filter (fun i => i.address = a) ++ [item] := by
  rw [List.filter_append, List.filter_cons_of_pos (by simpa using h), List.filter_nil]

theorem checkItem_verified {items : AccessList} {v v' : VerifiedPayloads} {item : AccessItem}
    (h : Verified registry config ctx timestamp items v)
    (hv : checkItem registry config ctx timestamp v item = .ok v') :
    Verified registry config ctx timestamp (items ++ [item]) v' := by
  rcases checkItem_eq_ok_iff.1 hv with ⟨hnone, rfl⟩ | ⟨predicate, payload, hpred, hnew, hp, hok, rfl⟩
  · -- an item without a predicate is at another address than every payload
    refine ⟨fun a q hq => ?_, fun a ha => ?_⟩
    · obtain ⟨i, predicate, hi, hpred, hrest⟩ := h.of_some a q hq
      refine ⟨i, predicate, ?_, hpred, hrest⟩
      rw [filter_append_of_ne (fun e => by rw [e, hpred] at hnone; cases hnone), hi]
    · rcases h.of_none a ha with hn | hn
      · exact .inl hn
      · by_cases e : item.address = a
        · exact .inl (e ▸ hnone)
        · exact .inr (by rw [filter_append_of_ne e, hn])
  · refine ⟨fun a q hq => ?_, fun a ha => ?_⟩
    · rw [Table.get?_insert] at hq
      split at hq
      · next e =>
        cases hq
        have hfirst : items.filter (fun i => i.address = a) = [] := by
          rcases h.of_none a (e ▸ hnew) with hn | hn
          · rw [e, hpred] at hn
            cases hn
          · exact hn
        refine ⟨item, predicate, ?_, e ▸ hpred, hp, hok⟩
        rw [filter_append_of_eq e.symm, hfirst, List.nil_append]
      · next e =>
        obtain ⟨i, predicate', hi, hrest⟩ := h.of_some a q hq
        exact ⟨i, predicate', by rw [filter_append_of_ne (Ne.symm e), hi], hrest⟩
    · rw [Table.get?_insert] at ha
      split at ha
      · cases ha
      · next e =>
        rw [filter_append_of_ne (Ne.symm e)]
        exact h.of_none a ha

theorem foldlM_checkItem_verified {items rest : AccessList} {v v' : VerifiedPayloads}
    (h : Verified registry config ctx timestamp items v)
    (hv : rest.foldlM (checkItem registry config ctx timestamp) v = .ok v') :
    Verified registry config ctx timestamp (items ++ rest) v' := by
  induction rest generalizing items v with
  | nil =>
    cases hv
    rwa [List.append_nil]
  | cons item rest ih =>
    rw [List.foldlM_cons, Steps.bind_eq_ok_iff] at hv
    obtain ⟨u, hu, hv⟩ := hv
    rw [List.append_cons]
    exact ih (checkItem_verified h hu) hv

theorem checkItems_verified {items : AccessList} {v : VerifiedPayloads}
    (h : checkItems registry config ctx timestamp items = .ok v) :
    Verified registry config ctx timestamp items v :=
  foldlM_checkItem_verified verified_empty h

theorem checkTransaction_eq_ok_iff {i : Nat} {items : AccessList} {v : VerifiedPayloads} :
    checkTransaction registry config ctx timestamp i items = .ok v ↔
      checkItems registry config ctx timestamp items = .ok v :=
  Steps.mapError_eq_ok_iff

/-- A fault carries the index of its transaction. -/
theorem transaction_of_checkTransaction {i : Nat} {items : AccessList} {e : BlockCheckError}
    (h : checkTransaction registry config ctx timestamp i items = .error e) : e.transaction = i := by
  obtain ⟨fault, -, rfl⟩ := Steps.mapError_eq_error_iff.1 h
  rfl

/-! ### All transactions of a block -/

variable {transactions : List AccessList}

theorem check_eq_ok_iff {verified : List VerifiedPayloads} :
    check registry config ctx timestamp transactions = .ok verified ↔
      verified.length = transactions.length ∧ ∀ i items, transactions[i]? = some items →
        ∃ payloads, verified[i]? = some payloads ∧
          checkTransaction registry config ctx timestamp i items = .ok payloads := by
  rw [check, Steps.mapM_eq_ok_iff, List.length_zipIdx]
  refine and_congr_right fun _ => ⟨fun h i items hi => ?_, fun h i z hz => ?_⟩
  · exact h i (items, i) (Steps.getElem?_zipIdx_eq.2 ⟨items, hi, rfl⟩)
  · obtain ⟨items, hi, rfl⟩ := Steps.getElem?_zipIdx_eq.1 hz
    exact h i items hi

theorem check_eq_error_iff {e : BlockCheckError} :
    check registry config ctx timestamp transactions = .error e ↔
      ∃ items, transactions[e.transaction]? = some items ∧
        checkTransaction registry config ctx timestamp e.transaction items = .error e ∧
        ∀ i < e.transaction, ∀ items', transactions[i]? = some items' →
          ∃ payloads, checkTransaction registry config ctx timestamp i items' = .ok payloads := by
  rw [check, Steps.mapM_eq_error_iff]
  constructor
  · rintro ⟨i, z, hz, he, hlt⟩
    obtain ⟨items, hi, rfl⟩ := Steps.getElem?_zipIdx_eq.1 hz
    obtain rfl : e.transaction = i := transaction_of_checkTransaction he
    exact ⟨items, hi, he, fun j hj items' hj' =>
      hlt j hj (items', j) (Steps.getElem?_zipIdx_eq.2 ⟨items', hj', rfl⟩)⟩
  · rintro ⟨items, hi, he, hlt⟩
    refine ⟨e.transaction, (items, e.transaction), Steps.getElem?_zipIdx_eq.2 ⟨items, hi, rfl⟩, he, ?_⟩
    intro j hj z hz
    obtain ⟨items', hj', rfl⟩ := Steps.getElem?_zipIdx_eq.1 hz
    exact hlt j hj items' hj'

end Interchain.BlockCheck
