import Interchain.Proofs.Validator.Alike

/-!
# Canonical sets are well-formed

Which lists have a canonical form, and which set it is: `CanonicalSet.WellFormed` says all that can be said of it,
entry by entry, and there is one such set for a list.

Part of this is that halving finds an entry by its key. The part of the entries in which the search goes on holds
the entry of the key if the part before did, as entries stand in the strict order of their keys. For keys without an
entry the search ends anywhere, and a last comparison says that nothing was found.
-/

namespace Interchain.CanonicalSet

variable {s t : CanonicalSet} {vs : List Validator} {es : List CanonicalValidator} {u v : CanonicalValidator}
  {key : PublicKey} {base size i j : Nat}

/-! ### Search -/

/-- Entries at lower indices have lower keys. -/
theorem Sorted.key_lt (h : Sorted es) (hu : es[i]? = some u) (hv : es[j]? = some v) (hij : i < j) :
    u.key < v.key := by
  obtain ⟨hi, rfl⟩ := List.getElem?_eq_some_iff.1 hu
  obtain ⟨hj, rfl⟩ := List.getElem?_eq_some_iff.1 hv
  exact List.pairwise_iff_getElem.1 h i j hi hj hij

/-- Where the entry in the middle is beyond a key, the entry of the key stands in front of it. -/
theorem Sorted.lt_of_key_lt (h : Sorted es) (hu : es[i]? = some u) (hv : es[j]? = some v)
    (hkey : u.key < v.key) : i < j := by
  by_contra hle
  rcases Nat.lt_or_eq_of_le (Nat.le_of_not_lt hle) with hlt | heq
  · exact PublicKey.lt_irrefl _ (PublicKey.lt_trans hkey (h.key_lt hv hu hlt))
  · rw [heq, hu] at hv
    obtain rfl := Option.some.inj hv
    exact PublicKey.lt_irrefl _ hkey

/-- The part in which the search goes on holds the entry of the key, if the part before did. -/
theorem search_eq (hs : Sorted es) (hv : es[i]? = some v) (hbase : base ≤ i) (hi : i < base + size)
    (hsize : base + size ≤ es.length) : search es v.key base size = i := by
  fun_induction search es v.key base size with
  | case1 base size hone hbeyond ih =>
    obtain ⟨u, hu, hkey⟩ := (Option.any_eq_true _ _).1 hbeyond
    have hmiddle := hs.lt_of_key_lt hv hu (of_decide_eq_true hkey)
    exact ih hbase (by omega) (by omega)
  | case2 base size hone hbeyond ih =>
    have hmiddle : base + size / 2 ≤ i := by
      by_contra hlt
      have hu := List.getElem?_eq_getElem (l := es) (i := base + size / 2) (by omega)
      have hkey := hs.key_lt hv hu (Nat.lt_of_not_le hlt)
      exact hbeyond ((Option.any_eq_true _ _).2 ⟨_, hu, decide_eq_true hkey⟩)
    exact ih hmiddle (by omega) (by omega)
  | case3 base size hone => omega

/-- The index of a key is that of its entry, and a key without an entry has no index. -/
theorem indexOf?_eq_some_iff (hs : Sorted s.validators) :
    s.indexOf? key = some i ↔ ∃ v, s.validators[i]? = some v ∧ v.key = key := by
  have hfound : s.indexOf? key = some i ↔ search s.validators key 0 s.validators.length = i ∧
      ∃ v, s.validators[i]? = some v ∧ v.key = key := by
    simp only [indexOf?, Option.ite_none_right_eq_some, Option.some.injEq, Option.any_eq_true, decide_eq_true_eq]
    constructor
    · rintro ⟨hentry, rfl⟩
      exact ⟨rfl, hentry⟩
    · rintro ⟨rfl, hentry⟩
      exact ⟨hentry, rfl⟩
  rw [hfound]
  constructor
  · intro h
    exact h.2
  · intro ⟨v, hv, hkey⟩
    subst hkey
    have hi := (List.getElem?_eq_some_iff.1 hv).1
    refine ⟨search_eq hs hv (Nat.zero_le i) ?_ ?_, v, hv, rfl⟩
    · rwa [Nat.zero_add]
    · rw [Nat.zero_add]

/-! ### Well-formed sets -/

/-- A set says of each key what a list of validators says of it, in the strict order of the keys. -/
structure WellFormed (s : CanonicalSet) (vs : List Validator) : Prop where
  sorted : Sorted s.validators
  mem_keys : ∀ key, key ∈ s.validators.map (·.key) ↔ some key ∈ vs.map (·.key)
  weight_eq : ∀ v ∈ s.validators, v.weight.toNat = Validator.weightOf vs v.key
  nodes_eq : ∀ v ∈ s.validators, v.nodes = Validator.nodesOf vs v.key
  totalWeight_eq : s.totalWeight.toNat = Validator.totalWeight vs
  sum_le : (s.validators.map (·.weight.toNat)).sum ≤ s.totalWeight.toNat
  indexOf?_eq_some_iff : ∀ key (i : Nat), s.indexOf? key = some i ↔ ∃ v, s.validators[i]? = some v ∧ v.key = key

theorem Summarizes.nodes_eq (h : s.Summarizes vs) (hv : v ∈ s.validators) :
    v.nodes = Validator.nodesOf vs v.key := by
  rw [← h.nodesAt_eq, nodesAt, h.sorted.filter_key_eq hv, List.flatMap_singleton]

theorem Summarizes.wellFormed (h : s.Summarizes vs) : s.WellFormed vs where
  sorted := h.sorted
  mem_keys := h.mem_keys
  weight_eq _ hv := h.weight_eq hv
  nodes_eq _ hv := h.nodes_eq hv
  totalWeight_eq := h.totalWeight_eq
  sum_le := h.sumOf_le
  indexOf?_eq_some_iff _ _ := CanonicalSet.indexOf?_eq_some_iff h.sorted

/-- The entries of a well-formed set are what the list says of the keys. -/
theorem WellFormed.validators_eq (h : s.WellFormed vs) :
    s.validators = (s.validators.map (·.key)).map fun k =>
      ⟨k, UInt64.ofNat (Validator.weightOf vs k), Validator.nodesOf vs k⟩ := by
  rw [List.map_map]
  refine (List.map_id _).symm.trans (List.map_congr_left ?_)
  intro v hv
  rw [Function.comp_apply, ← h.weight_eq v hv, ← h.nodes_eq v hv, UInt64.ofNat_toNat]
  rfl

/-- A list of validators has one well-formed set. -/
theorem WellFormed.unique (hs : s.WellFormed vs) (ht : t.WellFormed vs) : s = t := by
  have hkeys : s.validators.map (·.key) = t.validators.map (·.key) :=
    hs.sorted.keys_eq ht.sorted fun k => by rw [hs.mem_keys, ht.mem_keys]
  have hvalidators : s.validators = t.validators := by
    rw [hs.validators_eq, ht.validators_eq, hkeys]
  have htotal : s.totalWeight = t.totalWeight := by
    rw [← UInt64.toNat_inj, hs.totalWeight_eq, ht.totalWeight_eq]
  calc
    s = ⟨s.validators, s.totalWeight⟩ := rfl
    _ = ⟨t.validators, t.totalWeight⟩ := by rw [hvalidators, htotal]
    _ = t := rfl

theorem WellFormed.ofValidators_eq (h : s.WellFormed vs) : ofValidators vs = .ok s := by
  obtain ⟨t, ht⟩ := exists_ofValidators (h.totalWeight_eq ▸ s.totalWeight.toNat_lt)
  rw [ht, h.unique (ofValidators_summarizes ht).wellFormed]

/-- A list of validators has no canonical form exactly if its weights together do not fit in 64 bits, and there is no
other reason. Else its canonical form is the one set that is well-formed for it. -/
theorem ofValidators_wellFormed (vs : List Validator) :
    (∀ e, ofValidators vs = .error e ↔ 2 ^ 64 ≤ Validator.totalWeight vs ∧ e = .weightOverflow) ∧
      ∀ s, ofValidators vs = .ok s ↔ s.WellFormed vs := by
  refine ⟨fun e => ofValidators_eq_error_iff, fun s => ⟨?_, ?_⟩⟩
  · intro h
    exact (ofValidators_summarizes h).wellFormed
  · intro h
    exact h.ofValidators_eq

end Interchain.CanonicalSet
