import Interchain.Proofs.Block.Verdict
import Interchain.Proofs.Table
import Interchain.Proofs.TwoValidators
import Mathlib.Data.List.Induction

/-!
# The verdict on one access list

An access list passes or fails by its relevant items, those at whose address a contract with a predicate is active.
They are sound if no two share an address and each holds a payload that is accepted. The fold over the items is
taken apart at its end: what has passed so far is sound and recorded, and the next item extends it or raises a
fault.

* `BlockCheck.Sound`, `BlockCheck.Records`: when items pass, and what is then returned for them.
* `BlockCheck.Raises`: what is wrong with an item that follows sound ones. Three faults, tested in this order.
* `BlockCheck.checkItems_eq_ok_iff`, `BlockCheck.checkItems_eq_error_iff`: a whole access list.
* `BlockCheck.checkTransaction_verdict`: the order of the items and those that the check passes over do not matter to
  what is returned, and a failure is the one of the first item that has one.

A failure may well depend on the order, so nothing is said about it for items in another order.
-/

namespace Interchain.BlockCheck

variable (registry : Registry) (config : ChainConfig) (ctx : PredicateContext) (timestamp : UInt64)

/-! ### Items that matter -/

/-- The items at whose address a contract with a predicate is active. -/
def relevant (items : AccessList) : AccessList :=
  items.filter fun item => (predicateAt? registry config timestamp item.address).isSome

/-- The keys of an item hold this payload, and the predicate at its address accepts it. -/
def Fulfils (item : AccessItem) (payload : Bytes) : Prop :=
  ∃ predicate, predicateAt? registry config timestamp item.address = some predicate ∧
    item.predicateBytes = .ok payload ∧ predicate ctx payload = .ok ()

/-- An earlier item has the same address. -/
def Repeats (earlier : AccessList) (item : AccessItem) : Prop :=
  ∃ i ∈ earlier, i.address = item.address

/-- No two items share an address, and each holds a payload that is accepted. -/
structure Sound (items : AccessList) : Prop where
  distinct : (items.map (·.address)).Nodup
  fulfilled : ∀ item ∈ items, ∃ payload, Fulfils registry config ctx timestamp item payload

/-- The payloads of items by their addresses, and nothing else. -/
structure Records (items : AccessList) (v : VerifiedPayloads) : Prop where
  sorted : v.Sorted
  get?_eq_some_iff : ∀ a payload, v.get? a = some payload ↔
    ∃ item ∈ items, item.address = a ∧ item.predicateBytes = .ok payload

/-- What is wrong with an item. Its address is looked at before its keys, and these before the predicate. -/
inductive Raises (earlier : AccessList) (item : AccessItem) : PredicateFault → Prop
  | repeated (h : Repeats earlier item) : Raises earlier item (.duplicateAddress item.address)
  | malformed {cause : EncodingError} (first : ¬Repeats earlier item)
    (h : item.predicateBytes = .error cause) :
    Raises earlier item (.invalidPacking item.address cause)
  | refused {predicate : PredicateContext → Bytes → Except AdmissionError Unit} {payload : Bytes}
    {cause : AdmissionError} (first : ¬Repeats earlier item)
    (active : predicateAt? registry config timestamp item.address = some predicate)
    (keys : item.predicateBytes = .ok payload) (h : predicate ctx payload = .error cause) :
    Raises earlier item (.failed item.address cause)

variable {registry config ctx timestamp} {items items' : AccessList} {item : AccessItem}
  {v v' : VerifiedPayloads}

theorem checkItems_relevant (items : AccessList) :
    checkItems registry config ctx timestamp (relevant registry config timestamp items) =
      checkItems registry config ctx timestamp items := by
  unfold checkItems relevant
  rw [List.foldlM_filter]
  congr 1
  funext v item
  cases h : predicateAt? registry config timestamp item.address with
  | none =>
    rw [checkItem, h]
    rfl
  | some predicate => rfl

theorem relevant_append_of_none {front rest : AccessList}
    (h : predicateAt? registry config timestamp item.address = none) :
    relevant registry config timestamp (front ++ item :: rest) =
      relevant registry config timestamp (front ++ rest) := by
  simp [relevant, h]

/-! ### Sound items -/

theorem sound_nil : Sound registry config ctx timestamp [] := ⟨.nil, nofun⟩

theorem sound_append_singleton_iff : Sound registry config ctx timestamp (items ++ [item]) ↔
    Sound registry config ctx timestamp items ∧ ¬Repeats items item ∧
      ∃ payload, Fulfils registry config ctx timestamp item payload := by
  have hdistinct : ((items ++ [item]).map (·.address)).Nodup ↔
      (items.map (·.address)).Nodup ∧ ¬Repeats items item := by
    simp [List.nodup_append, Repeats]
  constructor
  · intro h
    obtain ⟨hitems, hfirst⟩ := hdistinct.1 h.distinct
    exact ⟨⟨hitems, fun i hi => h.fulfilled i (List.mem_append_left _ hi)⟩, hfirst,
      h.fulfilled item (by simp)⟩
  · rintro ⟨h, hfirst, hitem⟩
    refine ⟨hdistinct.2 ⟨h.distinct, hfirst⟩, fun i hi => ?_⟩
    rcases List.mem_append.1 hi with hi | hi
    · exact h.fulfilled i hi
    · rwa [List.mem_singleton.1 hi]

theorem Sound.of_perm (h : Sound registry config ctx timestamp items) (hp : items'.Perm items) :
    Sound registry config ctx timestamp items' where
  distinct := (hp.map _).nodup_iff.2 h.distinct
  fulfilled i hi := h.fulfilled i (hp.mem_iff.1 hi)

/-! ### What is recorded -/

theorem records_empty : Records [] .empty :=
  ⟨Table.sorted_empty, fun a payload => by simp⟩

theorem Records.of_perm (h : Records items v) (hp : items'.Perm items) : Records items' v :=
  ⟨h.sorted, fun a payload => by simp only [h.get?_eq_some_iff, hp.mem_iff]⟩

theorem Records.unique (h : Records items v) (h' : Records items v') : v = v' := by
  apply h.sorted.ext h'.sorted
  intro a
  apply Option.ext
  intro payload
  rw [h.get?_eq_some_iff, h'.get?_eq_some_iff]

/-- So the payloads that are recorded tell which addresses have occurred. -/
theorem Records.get?_eq_none_iff (h : Records items v)
    (hs : Sound registry config ctx timestamp items) :
    v.get? item.address = none ↔ ¬Repeats items item := by
  rw [Option.eq_none_iff_forall_ne_some]
  constructor
  · rintro hnone ⟨i, hi, he⟩
    obtain ⟨payload, -, -, hkeys, -⟩ := hs.fulfilled i hi
    exact hnone payload ((h.get?_eq_some_iff _ _).2 ⟨i, hi, he, hkeys⟩)
  · intro hfirst payload hsome
    obtain ⟨i, hi, he, -⟩ := (h.get?_eq_some_iff _ _).1 hsome
    exact hfirst ⟨i, hi, he⟩

theorem Records.insert (h : Records items v) {payload : Bytes} (hfirst : ¬Repeats items item)
    (hkeys : item.predicateBytes = .ok payload) :
    Records (items ++ [item]) (v.insert item.address payload) where
  sorted := h.sorted.insert _ _
  get?_eq_some_iff a q := by
    simp only [Table.get?_insert, List.mem_append, List.mem_singleton, or_and_right, exists_or,
      exists_eq_left]
    split
    · next he =>
      -- the address is new, so the earlier items say nothing about it
      have hearlier : ¬∃ i ∈ items, i.address = a ∧ i.predicateBytes = .ok q := by
        rintro ⟨i, hi, hia, -⟩
        exact hfirst ⟨i, hi, hia.trans he⟩
      rw [or_iff_right hearlier]
      simp [hkeys, he]
    · next he => simp [h.get?_eq_some_iff, Ne.symm he]

/-! ### One item -/

theorem checkItem_sound (hs : Sound registry config ctx timestamp items) (hr : Records items v)
    (hitem : (predicateAt? registry config timestamp item.address).isSome)
    (hv : checkItem registry config ctx timestamp v item = .ok v') :
    Sound registry config ctx timestamp (items ++ [item]) ∧ Records (items ++ [item]) v' := by
  rcases checkItem_eq_ok_iff.1 hv with
    ⟨hnone, -⟩ | ⟨predicate, payload, hpred, hnew, hkeys, hok, rfl⟩
  · rw [hnone] at hitem
    cases hitem
  · have hfirst := (hr.get?_eq_none_iff hs).1 hnew
    exact ⟨sound_append_singleton_iff.2 ⟨hs, hfirst, payload, predicate, hpred, hkeys, hok⟩,
      hr.insert hfirst hkeys⟩

theorem exists_checkItem (hr : Records items v)
    (h : Sound registry config ctx timestamp (items ++ [item])) :
    ∃ v', checkItem registry config ctx timestamp v item = .ok v' := by
  obtain ⟨hs, hfirst, payload, predicate, hpred, hkeys, hok⟩ := sound_append_singleton_iff.1 h
  have hnew := (hr.get?_eq_none_iff hs).2 hfirst
  exact ⟨v.insert item.address payload,
    checkItem_eq_ok_iff.2 (.inr ⟨predicate, payload, hpred, hnew, hkeys, hok, rfl⟩)⟩

theorem checkItem_eq_error_iff (hs : Sound registry config ctx timestamp items)
    (hr : Records items v) (hitem : (predicateAt? registry config timestamp item.address).isSome)
    {fault : PredicateFault} :
    checkItem registry config ctx timestamp v item = .error fault ↔
      Raises registry config ctx timestamp items item fault := by
  obtain ⟨predicate, hpred⟩ := Option.isSome_iff_exists.1 hitem
  have hseen : v.contains item.address = false ↔ ¬Repeats items item :=
    contains_eq_false_iff.trans (hr.get?_eq_none_iff hs)
  unfold checkItem
  simp only [hpred]
  by_cases hrep : Repeats items item
  · have hc : v.contains item.address = true := by
      simpa [hrep] using hseen
    rw [if_pos hc]
    constructor
    · intro h
      cases h
      exact .repeated hrep
    · intro h
      cases h with
      | repeated _ => rfl
      | malformed first _ => exact absurd hrep first
      | refused first _ _ _ => exact absurd hrep first
  · rw [if_neg (by simp [hseen.2 hrep])]
    simp only [Steps.bind_eq_error_iff, Steps.mapError_eq_error_iff, Steps.mapError_eq_ok_iff,
      Steps.pure_ne_error, and_false, exists_false, or_false]
    constructor
    · rintro (⟨cause, hkeys, rfl⟩ | ⟨payload, hkeys, cause, hcause, rfl⟩)
      · exact .malformed hrep hkeys
      · exact .refused hrep hpred hkeys hcause
    · intro h
      cases h with
      | repeated h => exact absurd h hrep
      | malformed _ hkeys => exact .inl ⟨_, hkeys, rfl⟩
      | refused _ active hkeys hcause =>
        rw [hpred] at active
        cases active
        exact .inr ⟨_, hkeys, _, hcause, rfl⟩

/-! ### A whole access list -/

theorem checkItems_append_singleton :
    checkItems registry config ctx timestamp (items ++ [item]) =
      checkItems registry config ctx timestamp items >>=
        fun v => checkItem registry config ctx timestamp v item := by
  unfold checkItems
  rw [List.foldlM_append]
  simp only [List.foldlM_cons, List.foldlM_nil, bind_pure]

section AllRelevant

variable (hitems : ∀ i ∈ items, (predicateAt? registry config timestamp i.address).isSome)

include hitems

-- Both inductions add an item at the end, as the check does.

theorem checkItems_sound (hv : checkItems registry config ctx timestamp items = .ok v) :
    Sound registry config ctx timestamp items ∧ Records items v := by
  induction items using List.reverseRecOn generalizing v with
  | nil =>
    cases hv
    exact ⟨sound_nil, records_empty⟩
  | append_singleton items item ih =>
    obtain ⟨hfront, hitem⟩ := List.forall_mem_append.1 hitems
    rw [checkItems_append_singleton, Steps.bind_eq_ok_iff] at hv
    obtain ⟨u, hu, hv⟩ := hv
    obtain ⟨hs, hr⟩ := ih hfront hu
    exact checkItem_sound hs hr (hitem item (List.mem_singleton_self item)) hv

theorem exists_checkItems (h : Sound registry config ctx timestamp items) :
    ∃ v, checkItems registry config ctx timestamp items = .ok v := by
  induction items using List.reverseRecOn with
  | nil => exact ⟨_, rfl⟩
  | append_singleton items item ih =>
    obtain ⟨hfront, -⟩ := List.forall_mem_append.1 hitems
    obtain ⟨u, hu⟩ := ih hfront (sound_append_singleton_iff.1 h).1
    obtain ⟨v, hv⟩ := exists_checkItem (checkItems_sound hfront hu).2 h
    exact ⟨v, by rw [checkItems_append_singleton, hu, Steps.ok_bind, hv]⟩

end AllRelevant

theorem isSome_of_mem_relevant :
    ∀ i ∈ relevant registry config timestamp items,
      (predicateAt? registry config timestamp i.address).isSome :=
  fun _ hi => (List.mem_filter.1 hi).2

theorem isSome_of_relevant_eq {front rest : AccessList}
    (h : relevant registry config timestamp items = front ++ item :: rest) :
    (∀ i ∈ front, (predicateAt? registry config timestamp i.address).isSome) ∧
      (predicateAt? registry config timestamp item.address).isSome := by
  have hsome : ∀ i ∈ front ++ item :: rest,
      (predicateAt? registry config timestamp i.address).isSome := h ▸ isSome_of_mem_relevant
  obtain ⟨hfront, hrest⟩ := List.forall_mem_append.1 hsome
  exact ⟨hfront, hrest item List.mem_cons_self⟩

theorem exists_checkItems_iff :
    (∃ v, checkItems registry config ctx timestamp items = .ok v) ↔
      Sound registry config ctx timestamp (relevant registry config timestamp items) := by
  rw [← checkItems_relevant]
  constructor
  · rintro ⟨v, hv⟩
    exact (checkItems_sound isSome_of_mem_relevant hv).1
  · exact exists_checkItems isSome_of_mem_relevant

theorem checkItems_eq_ok_iff : checkItems registry config ctx timestamp items = .ok v ↔
    Sound registry config ctx timestamp (relevant registry config timestamp items) ∧
      Records (relevant registry config timestamp items) v := by
  rw [← checkItems_relevant]
  constructor
  · exact checkItems_sound isSome_of_mem_relevant
  · rintro ⟨hs, hr⟩
    obtain ⟨u, hu⟩ := exists_checkItems isSome_of_mem_relevant hs
    rw [hu, hr.unique (checkItems_sound isSome_of_mem_relevant hu).2]

theorem checkItems_eq_error_iff {fault : PredicateFault} :
    checkItems registry config ctx timestamp items = .error fault ↔
      ∃ front item rest, relevant registry config timestamp items = front ++ item :: rest ∧
        Sound registry config ctx timestamp front ∧
        Raises registry config ctx timestamp front item fault := by
  rw [← checkItems_relevant, checkItems, Steps.foldlM_eq_error_iff]
  refine exists_congr fun front => exists_congr fun item => exists_congr fun rest => ?_
  constructor
  · rintro ⟨v, hsplit, hv, he⟩
    obtain ⟨hfront, hitem⟩ := isSome_of_relevant_eq hsplit
    obtain ⟨hs, hr⟩ := checkItems_sound hfront hv
    exact ⟨hsplit, hs, (checkItem_eq_error_iff hs hr hitem).1 he⟩
  · rintro ⟨hsplit, hs, he⟩
    obtain ⟨hfront, hitem⟩ := isSome_of_relevant_eq hsplit
    obtain ⟨v, hv⟩ := exists_checkItems hfront hs
    obtain ⟨-, hr⟩ := checkItems_sound hfront hv
    exact ⟨v, hsplit, hv, (checkItem_eq_error_iff hs hr hitem).2 he⟩

theorem checkItems_eq_ok_iff_of_perm (hp : items'.Perm items) :
    checkItems registry config ctx timestamp items' = .ok v ↔
      checkItems registry config ctx timestamp items = .ok v := by
  have hrelevant : (relevant registry config timestamp items').Perm
      (relevant registry config timestamp items) := hp.filter _
  rw [checkItems_eq_ok_iff, checkItems_eq_ok_iff]
  constructor
  · rintro ⟨hs, hr⟩
    exact ⟨hs.of_perm hrelevant.symm, hr.of_perm hrelevant.symm⟩
  · rintro ⟨hs, hr⟩
    exact ⟨hs.of_perm hrelevant, hr.of_perm hrelevant⟩

theorem checkItems_append_of_none {front rest : AccessList}
    (h : predicateAt? registry config timestamp item.address = none) :
    checkItems registry config ctx timestamp (front ++ item :: rest) =
      checkItems registry config ctx timestamp (front ++ rest) := by
  rw [← checkItems_relevant, relevant_append_of_none h, checkItems_relevant]

/-! ### A transaction -/

theorem checkTransaction_eq_error_iff {i : Nat} {e : BlockCheckError} :
    checkTransaction registry config ctx timestamp i items = .error e ↔
      e.transaction = i ∧ checkItems registry config ctx timestamp items = .error e.fault := by
  rw [checkTransaction, Steps.mapError_eq_error_iff]
  constructor
  · rintro ⟨fault, hfault, rfl⟩
    exact ⟨rfl, hfault⟩
  · rintro ⟨rfl, hfault⟩
    exact ⟨e.fault, hfault, rfl⟩

/-- A transaction passes if and only if its relevant items are sound, and is answered with their payloads. This answer
is the same in whatever order the items come. An item that is not relevant never matters. A failure is what the first
relevant item raises that does not go with those before it. -/
theorem checkTransaction_verdict (registry : Registry) (config : ChainConfig)
    (ctx : PredicateContext) (timestamp : UInt64) (i : Nat) (items : AccessList) :
    ((∃ v, checkTransaction registry config ctx timestamp i items = .ok v) ↔
      Sound registry config ctx timestamp (relevant registry config timestamp items)) ∧
    (∀ v, checkTransaction registry config ctx timestamp i items = .ok v →
      ∀ a payload, v.get? a = some payload ↔
        ∃ item ∈ relevant registry config timestamp items,
          item.address = a ∧ item.predicateBytes = .ok payload) ∧
    (∀ items', items'.Perm items → ∀ v,
      checkTransaction registry config ctx timestamp i items' = .ok v ↔
        checkTransaction registry config ctx timestamp i items = .ok v) ∧
    (∀ front item rest, items = front ++ rest →
      predicateAt? registry config timestamp item.address = none →
      checkTransaction registry config ctx timestamp i (front ++ item :: rest) =
        checkTransaction registry config ctx timestamp i items) ∧
    (∀ e, checkTransaction registry config ctx timestamp i items = .error e ↔
      e.transaction = i ∧ ∃ front item rest,
        relevant registry config timestamp items = front ++ item :: rest ∧
          Sound registry config ctx timestamp front ∧
          Raises registry config ctx timestamp front item e.fault) := by
  refine ⟨?_, ?_, ?_, ?_, ?_⟩
  · simp only [checkTransaction_eq_ok_iff]
    exact exists_checkItems_iff
  · intro v hv
    rw [checkTransaction_eq_ok_iff, checkItems_eq_ok_iff] at hv
    exact hv.2.get?_eq_some_iff
  · intro items' hp v
    rw [checkTransaction_eq_ok_iff, checkTransaction_eq_ok_iff]
    exact checkItems_eq_ok_iff_of_perm hp
  · rintro front item rest rfl hnone
    unfold checkTransaction
    rw [checkItems_append_of_none hnone]
  · intro e
    rw [checkTransaction_eq_error_iff, checkItems_eq_error_iff]

-- keys that are no packing are passed over at an address without a contract, and not looked at where an address repeats
example :
    checkItems TwoValidators.registry TwoValidators.config TwoValidators.context 10
      (⟨.zero, [.zero]⟩ :: TwoValidators.accessList) = .ok TwoValidators.payloads ∧
    checkItems TwoValidators.registry TwoValidators.config TwoValidators.context 10
      (TwoValidators.accessList ++ TwoValidators.malformed) =
        .error (.duplicateAddress Messenger.address) := by
  decide +kernel

end Interchain.BlockCheck
