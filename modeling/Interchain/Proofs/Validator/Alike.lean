import Interchain.Proofs.Validator.Canonical
import Mathlib.Data.List.Sort

/-!
# Lists of validators that say the same

A platform may report the same validators in another order, under other nodes, or with the weight behind a key in
other parts. Lists that say the same of keys and weights are alike, and `Validator.alike_of_perm` and
`Validator.alike_split` are two ways to get one from another.

Lists that are alike have the same canonical form but for the nodes. The argument does not follow the construction:
entries stand in the one order of their keys, and say of each key what the list says of it.
-/

namespace Interchain

/-! ### Lists that are alike -/

namespace Validator

/-- Two lists have the same keys, the same weight behind each key, and the same weight in all. -/
structure Alike (vs ws : List Validator) : Prop where
  mem_keys : ∀ k, some k ∈ vs.map (·.key) ↔ some k ∈ ws.map (·.key)
  weightOf_eq : ∀ k, weightOf vs k = weightOf ws k
  totalWeight_eq : totalWeight vs = totalWeight ws

variable {us vs ws : List Validator} {v w : Validator}

theorem totalWeight_cons : totalWeight (v :: vs) = v.weight.toNat + totalWeight vs := by
  simp only [totalWeight, List.map_cons, List.sum_cons]

theorem weightOf_cons (k : PublicKey) :
    weightOf (v :: vs) k = (if v.key = some k then v.weight.toNat else 0) + weightOf vs k := by
  by_cases h : v.key = some k
  · simp [weightOf, h]
  · simp [weightOf, h]

theorem Alike.trans (h : Alike us vs) (h' : Alike vs ws) : Alike us ws where
  mem_keys k := (h.mem_keys k).trans (h'.mem_keys k)
  weightOf_eq k := (h.weightOf_eq k).trans (h'.weightOf_eq k)
  totalWeight_eq := h.totalWeight_eq.trans h'.totalWeight_eq

/-- The order does not matter. -/
theorem alike_of_perm (h : vs.Perm ws) : Alike vs ws where
  mem_keys k := (h.map (·.key)).mem_iff
  weightOf_eq k := by
    rw [weightOf, weightOf]
    exact ((h.filter _).map _).sum_eq
  totalWeight_eq := by
    rw [totalWeight, totalWeight]
    exact (h.map _).sum_eq

/-- The weight behind a key, or without one, may come in two parts. -/
theorem alike_split {key : Option PublicKey} {whole part rest : UInt64} (node node₁ node₂ : NodeId)
    (h : part.toNat + rest.toNat = whole.toNat) :
    Alike (⟨node, key, whole⟩ :: vs) (⟨node₁, key, part⟩ :: ⟨node₂, key, rest⟩ :: vs) where
  mem_keys k := by simp
  weightOf_eq k := by
    simp only [weightOf_cons]
    split
    · omega
    · omega
  totalWeight_eq := by
    simp only [totalWeight_cons]
    omega

end Validator

/-! ### Canonical sets without nodes -/

def CanonicalValidator.anonymous (v : CanonicalValidator) : CanonicalValidator :=
  { v with nodes := [] }

namespace CanonicalSet

/-- A canonical set without its nodes. -/
def anonymous (s : CanonicalSet) : CanonicalSet :=
  { s with validators := s.validators.map (·.anonymous) }

variable {s t : CanonicalSet} {vs ws : List Validator} {es es' : List CanonicalValidator}

@[simp] theorem length_anonymous (s : CanonicalSet) :
    s.anonymous.validators.length = s.validators.length :=
  List.length_map _

theorem getElem?_anonymous (s : CanonicalSet) (i : Nat) :
    s.anonymous.validators[i]? = s.validators[i]?.map (·.anonymous) :=
  List.getElem?_map

/-- A search looks at keys only. -/
theorem search_anonymous (es : List CanonicalValidator) (key : PublicKey) (base size : Nat) :
    search (es.map (·.anonymous)) key base size = search es key base size := by
  have hbeyond : ∀ i : Nat, (es.map (·.anonymous))[i]?.any (key < ·.key) = es[i]?.any (key < ·.key) := by
    intro i
    rw [List.getElem?_map, Option.any_map]
    rfl
  fun_induction search es key base size with
  | case1 base size hsize hmiddle ih =>
    rw [search, if_pos hsize, hbeyond, if_pos hmiddle, ih]
  | case2 base size hsize hmiddle ih =>
    rw [search, if_pos hsize, hbeyond, if_neg hmiddle, ih]
  | case3 base size hsize =>
    rw [search, if_neg hsize]

theorem indexOf?_anonymous (s : CanonicalSet) (key : PublicKey) :
    s.anonymous.indexOf? key = s.indexOf? key := by
  have hsearch : search s.anonymous.validators key 0 s.anonymous.validators.length =
      search s.validators key 0 s.validators.length := by
    rw [length_anonymous]
    exact search_anonymous s.validators key 0 s.validators.length
  unfold indexOf?
  simp only [hsearch, getElem?_anonymous, Option.any_map]
  rfl

/-! ### The canonical form of lists that are alike -/

/-- There is one order in which keys can stand. -/
theorem Sorted.keys_eq (h : Sorted es) (h' : Sorted es')
    (hkeys : ∀ k, k ∈ es.map (·.key) ↔ k ∈ es'.map (·.key)) : es.map (·.key) = es'.map (·.key) := by
  have hes : (es.map (·.key)).Pairwise fun j k => j < k := List.pairwise_map.2 h
  have hes' : (es'.map (·.key)).Pairwise fun j k => j < k := List.pairwise_map.2 h'
  exact hes.eq_of_mem_iff hes' hkeys

/-- Without their nodes, the entries are what the list says of the keys. -/
theorem Summarizes.anonymous_validators (h : s.Summarizes vs) :
    s.anonymous.validators =
      (s.validators.map (·.key)).map fun k => ⟨k, UInt64.ofNat (Validator.weightOf vs k), []⟩ := by
  rw [anonymous, List.map_map]
  refine List.map_congr_left fun v hv => ?_
  rw [Function.comp_apply, ← h.weight_eq hv, UInt64.ofNat_toNat]
  rfl

theorem anonymous_eq_of_alike (hs : s.Summarizes vs) (ht : t.Summarizes ws)
    (h : Validator.Alike vs ws) : s.anonymous = t.anonymous := by
  have hkeys : s.validators.map (·.key) = t.validators.map (·.key) :=
    hs.sorted.keys_eq ht.sorted fun k => by rw [hs.mem_keys, h.mem_keys, ht.mem_keys]
  have hweights : Validator.weightOf vs = Validator.weightOf ws := funext h.weightOf_eq
  have hvalidators : s.anonymous.validators = t.anonymous.validators := by
    rw [hs.anonymous_validators, ht.anonymous_validators, hkeys, hweights]
  have htotal : s.totalWeight = t.totalWeight := by
    rw [← UInt64.toNat_inj, hs.totalWeight_eq, ht.totalWeight_eq, h.totalWeight_eq]
  calc
    s.anonymous = ⟨s.anonymous.validators, s.totalWeight⟩ := rfl
    _ = ⟨t.anonymous.validators, t.totalWeight⟩ := by rw [hvalidators, htotal]
    _ = t.anonymous := rfl

end CanonicalSet

end Interchain
