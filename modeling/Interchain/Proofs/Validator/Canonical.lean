import Interchain.Proofs.Steps
import Interchain.Validator.Basic
import Mathlib.Algebra.GroupWithZero.Nat
import Mathlib.Algebra.Order.BigOperators.Group.List
import Mathlib.Algebra.Order.Group.Nat

/-!
# The canonical form of a list of validators

The canonical form says of each key what the list of validators says, in exact numbers: the weight behind it, its
nodes in their order, and the weight of all. The invariant is about a set and the part of the list that has been
taken up so far. One more validator keeps it, so a whole list does.

* `Validator.totalWeight`, `Validator.weightOf`, `Validator.nodesOf`: what a list of validators says.
* `CanonicalSet.enroll_cons`: the three ways to enrol a node beside an entry, from which all facts about enrolling
  follow.
* `CanonicalSet.Summarizes`: the invariant, with `CanonicalSet.register_summarizes` for one validator.
* `CanonicalSet.ofValidators_eq_error_iff`: the one reason why a list has no canonical form.
* `CanonicalSet.Summarizes.weight_eq`, `CanonicalSet.Summarizes.sum_weight_le`: what follows for entries.
-/

namespace Interchain

/-! ### The order of keys -/

namespace PublicKey

variable {j k l : PublicKey}

theorem lt_iff_encoding : j < k ↔ j.encoding < k.encoding := .rfl

theorem lt_irrefl (k : PublicKey) : ¬k < k :=
  FixedBytes.lt_irrefl k.encoding

theorem lt_trans (h : j < k) (h' : k < l) : j < l :=
  lt_iff_encoding.2 (FixedBytes.lt_trans (lt_iff_encoding.1 h) (lt_iff_encoding.1 h'))

instance : Std.Asymm fun j k : PublicKey => j < k :=
  ⟨fun j _ h h' => lt_irrefl j (lt_trans h h')⟩

theorem ne_of_lt (h : j < k) : j ≠ k := fun e => lt_irrefl k (e ▸ h)

theorem lt_of_not_lt (h : ¬j < k) (hne : j ≠ k) : k < j := by
  by_contra h'
  have hencoding : j.encoding = k.encoding :=
    FixedBytes.eq_of_not_lt (mt lt_iff_encoding.2 h) (mt lt_iff_encoding.2 h')
  obtain ⟨a⟩ := j
  obtain ⟨b⟩ := k
  exact hne (congrArg PublicKey.mk hencoding)

end PublicKey

/-! ### What a list of validators says -/

namespace Validator

/-- The weight of all validators, also of those without a key. -/
def totalWeight (vs : List Validator) : Nat := (vs.map (·.weight.toNat)).sum

/-- The weight of all validators with a key. -/
def weightOf (vs : List Validator) (key : PublicKey) : Nat :=
  ((vs.filter (·.key = some key)).map (·.weight.toNat)).sum

/-- The nodes of all validators with a key, in the order of the list. -/
def nodesOf (vs : List Validator) (key : PublicKey) : List NodeId :=
  (vs.filter (·.key = some key)).map (·.node)

variable {vs : List Validator} {v : Validator} {key : PublicKey}

theorem totalWeight_append : totalWeight (vs ++ [v]) = totalWeight vs + v.weight.toNat := by
  simp only [totalWeight, List.map_append, List.sum_append, List.map_cons, List.map_nil,
    List.sum_singleton]

theorem weightOf_append :
    weightOf (vs ++ [v]) key = weightOf vs key + if v.key = some key then v.weight.toNat else 0 := by
  by_cases h : v.key = some key
  · simp [weightOf, List.filter_append, h]
  · simp [weightOf, List.filter_append, h]

theorem nodesOf_append :
    nodesOf (vs ++ [v]) key = nodesOf vs key ++ if v.key = some key then [v.node] else [] := by
  by_cases h : v.key = some key
  · simp [nodesOf, List.filter_append, h]
  · simp [nodesOf, List.filter_append, h]

end Validator

/-! ### What entries say -/

namespace CanonicalSet

/-- Strictly ordered by key. -/
def Sorted (es : List CanonicalValidator) : Prop := es.Pairwise fun u v => u.key < v.key

def weightAt (es : List CanonicalValidator) (key : PublicKey) : Nat :=
  ((es.filter (·.key = key)).map (·.weight.toNat)).sum

def nodesAt (es : List CanonicalValidator) (key : PublicKey) : List NodeId :=
  (es.filter (·.key = key)).flatMap (·.nodes)

def sumOf (es : List CanonicalValidator) : Nat := (es.map (·.weight.toNat)).sum

variable {es es' : List CanonicalValidator} {v : CanonicalValidator} {key k : PublicKey}
  {node : NodeId} {weight : UInt64}

theorem weightAt_cons :
    weightAt (v :: es) k = (if v.key = k then v.weight.toNat else 0) + weightAt es k := by
  by_cases h : v.key = k
  · simp [weightAt, h]
  · simp [weightAt, h]

theorem nodesAt_cons :
    nodesAt (v :: es) k = (if v.key = k then v.nodes else []) ++ nodesAt es k := by
  by_cases h : v.key = k
  · simp [nodesAt, h]
  · simp [nodesAt, h]

theorem filter_key_eq_nil (h : ∀ u ∈ es, k < u.key) : es.filter (·.key = k) = [] :=
  List.filter_eq_nil_iff.2 fun u hu he =>
    PublicKey.ne_of_lt (h u hu) (of_decide_eq_true he).symm

theorem nodesAt_eq_nil (h : ∀ u ∈ es, k < u.key) : nodesAt es k = [] := by
  rw [nodesAt, filter_key_eq_nil h, List.flatMap_nil]

/-- Only one entry has its key. -/
theorem Sorted.filter_key_eq (h : Sorted es) (hv : v ∈ es) : es.filter (·.key = v.key) = [v] := by
  induction es with
  | nil => cases hv
  | cons u es ih =>
    obtain ⟨hu, hes⟩ := List.pairwise_cons.1 h
    rcases List.mem_cons.1 hv with rfl | hv
    · rw [List.filter_cons_of_pos (by simp), filter_key_eq_nil hu]
    · rw [List.filter_cons_of_neg (by simpa using PublicKey.ne_of_lt (hu v hv)), ih hes hv]

/-! ### Enrolling a node -/

theorem addWeight_eq_error_iff {a b : UInt64} {e : MessageError} :
    addWeight a b = .error e ↔ 2 ^ 64 ≤ a.toNat + b.toNat ∧ e = .weightOverflow := by
  unfold addWeight
  split
  · next h => exact ⟨nofun, fun he => absurd he.1 (Nat.not_le_of_lt h)⟩
  · next h =>
    constructor
    · intro he
      exact ⟨Nat.le_of_not_lt h, (Except.error.inj he).symm⟩
    · intro he
      rw [he.2]

theorem exists_addWeight {a b : UInt64} (h : a.toNat + b.toNat < 2 ^ 64) :
    ∃ c, addWeight a b = .ok c ∧ a.toNat + b.toNat = c.toNat := by
  cases hc : addWeight a b with
  | ok c => exact ⟨c, rfl, addWeight_eq_ok_iff.1 hc⟩
  | error e => exact absurd (addWeight_eq_error_iff.1 hc).1 (by omega)

/-- Enrolling a node touches the entry of its key, or makes it where no entry has the key. -/
theorem enroll_cons (h : enroll node key weight (v :: es) = .ok es') :
    (key < v.key ∧ es' = ⟨key, weight, [node]⟩ :: v :: es) ∨
    (key = v.key ∧ ∃ sum, v.weight.toNat + weight.toNat = sum.toNat ∧
      es' = ⟨key, sum, v.nodes ++ [node]⟩ :: es) ∨
    (v.key < key ∧ ∃ rest, enroll node key weight es = .ok rest ∧ es' = v :: rest) := by
  unfold enroll at h
  split at h
  · next hlt =>
    cases h
    exact .inl ⟨hlt, rfl⟩
  · next hlt =>
    split at h
    · next he =>
      obtain ⟨sum, hsum, h⟩ := Steps.bind_eq_ok_iff.1 h
      exact .inr (.inl ⟨he, sum, addWeight_eq_ok_iff.1 hsum, (Steps.pure_eq_ok_iff.1 h).symm⟩)
    · next he =>
      obtain ⟨rest, hrest, h⟩ := Steps.bind_eq_ok_iff.1 h
      exact .inr (.inr ⟨PublicKey.lt_of_not_lt hlt he, rest, hrest,
        (Steps.pure_eq_ok_iff.1 h).symm⟩)

theorem enroll_nil (h : enroll node key weight [] = .ok es') : es' = [⟨key, weight, [node]⟩] := by
  cases h
  rfl

theorem mem_keys_enroll (h : enroll node key weight es = .ok es') :
    k ∈ es'.map (·.key) ↔ k = key ∨ k ∈ es.map (·.key) := by
  induction es generalizing es' with
  | nil =>
    rw [enroll_nil h]
    simp
  | cons v es ih =>
    rcases enroll_cons h with ⟨-, rfl⟩ | ⟨rfl, sum, -, rfl⟩ | ⟨-, rest, hrest, rfl⟩
    · simp
    · simp
    · rw [List.map_cons, List.mem_cons, ih hrest, List.map_cons, List.mem_cons, or_left_comm]

theorem enroll_sorted (hs : Sorted es) (h : enroll node key weight es = .ok es') : Sorted es' := by
  induction es generalizing es' with
  | nil =>
    rw [enroll_nil h]
    exact List.pairwise_singleton _ _
  | cons v es ih =>
    obtain ⟨hv, hes⟩ := List.pairwise_cons.1 hs
    rcases enroll_cons h with ⟨hlt, rfl⟩ | ⟨rfl, sum, -, rfl⟩ | ⟨hlt, rest, hrest, rfl⟩
    · refine List.pairwise_cons.2 ⟨fun u hu => ?_, hs⟩
      rcases List.mem_cons.1 hu with rfl | hu
      · exact hlt
      · exact PublicKey.lt_trans hlt (hv u hu)
    · exact List.pairwise_cons.2 ⟨hv, hes⟩
    · refine List.pairwise_cons.2 ⟨fun u hu => ?_, ih hes hrest⟩
      -- the entries of the rest have the new key or one that was there before
      rcases (mem_keys_enroll hrest).1 (List.mem_map_of_mem hu) with hk | hk
      · exact hk ▸ hlt
      · obtain ⟨u', hu', he⟩ := List.mem_map.1 hk
        exact he ▸ hv u' hu'

theorem sumOf_enroll (h : enroll node key weight es = .ok es') :
    sumOf es' = sumOf es + weight.toNat := by
  induction es generalizing es' with
  | nil =>
    rw [enroll_nil h]
    simp [sumOf]
  | cons v es ih =>
    rcases enroll_cons h with ⟨-, rfl⟩ | ⟨-, sum, hsum, rfl⟩ | ⟨-, rest, hrest, rfl⟩
    · simp only [sumOf, List.map_cons, List.sum_cons]
      omega
    · simp only [sumOf, List.map_cons, List.sum_cons]
      omega
    · have := ih hrest
      simp only [sumOf, List.map_cons, List.sum_cons] at this ⊢
      omega

theorem weightAt_enroll (h : enroll node key weight es = .ok es') :
    weightAt es' k = weightAt es k + if key = k then weight.toNat else 0 := by
  induction es generalizing es' with
  | nil =>
    rw [enroll_nil h, weightAt_cons, Nat.add_comm]
  | cons v es ih =>
    rcases enroll_cons h with ⟨-, rfl⟩ | ⟨rfl, sum, hsum, rfl⟩ | ⟨-, rest, hrest, rfl⟩
    · rw [weightAt_cons, Nat.add_comm]
    · rw [weightAt_cons, weightAt_cons]
      split
      · show sum.toNat + weightAt es k = v.weight.toNat + weightAt es k + weight.toNat
        omega
      · rfl
    · rw [weightAt_cons, ih hrest, weightAt_cons, Nat.add_assoc]

theorem nodesAt_enroll (hs : Sorted es) (h : enroll node key weight es = .ok es') :
    nodesAt es' k = nodesAt es k ++ if key = k then [node] else [] := by
  induction es generalizing es' with
  | nil =>
    rw [enroll_nil h, nodesAt_cons]
    exact List.append_nil _
  | cons v es ih =>
    obtain ⟨hv, hes⟩ := List.pairwise_cons.1 hs
    rcases enroll_cons h with ⟨hlt, rfl⟩ | ⟨rfl, sum, -, rfl⟩ | ⟨-, rest, hrest, rfl⟩
    · rw [nodesAt_cons]
      split
      · next he =>
        have hnil : nodesAt (v :: es) k = [] := nodesAt_eq_nil fun u hu => by
          rcases List.mem_cons.1 hu with rfl | hu
          · exact he ▸ hlt
          · exact he ▸ PublicKey.lt_trans hlt (hv u hu)
        rw [hnil, List.append_nil, List.nil_append]
      · rw [List.nil_append, List.append_nil]
    · rw [nodesAt_cons, nodesAt_cons]
      split
      · next he =>
        have hnil : nodesAt es k = [] := nodesAt_eq_nil fun u hu => he ▸ hv u hu
        rw [hnil, List.append_nil, List.append_nil]
      · rw [List.append_nil]
    · rw [nodesAt_cons, ih hes hrest, nodesAt_cons, List.append_assoc]

/-- Only a sum that does not fit keeps a node out. -/
theorem enroll_eq_error {e : MessageError} (h : enroll node key weight es = .error e) :
    2 ^ 64 ≤ sumOf es + weight.toNat ∧ e = .weightOverflow := by
  induction es with
  | nil => cases h
  | cons v es ih =>
    have hsum : sumOf (v :: es) = v.weight.toNat + sumOf es := by
      simp only [sumOf, List.map_cons, List.sum_cons]
    unfold enroll at h
    split at h
    · cases h
    · split at h
      · rcases Steps.bind_eq_error_iff.1 h with hadd | ⟨_, -, hpure⟩
        · obtain ⟨hle, rfl⟩ := addWeight_eq_error_iff.1 hadd
          exact ⟨by omega, rfl⟩
        · cases hpure
      · rcases Steps.bind_eq_error_iff.1 h with hrest | ⟨_, -, hpure⟩
        · obtain ⟨hle, rfl⟩ := ih hrest
          exact ⟨by omega, rfl⟩
        · cases hpure

/-! ### The invariant -/

/-- A canonical set says the same as a list of validators. -/
structure Summarizes (s : CanonicalSet) (vs : List Validator) : Prop where
  sorted : Sorted s.validators
  mem_keys : ∀ k, k ∈ s.validators.map (·.key) ↔ some k ∈ vs.map (·.key)
  weightAt_eq : ∀ k, weightAt s.validators k = Validator.weightOf vs k
  nodesAt_eq : ∀ k, nodesAt s.validators k = Validator.nodesOf vs k
  /-- The weight without a key is not negative. -/
  sumOf_le : sumOf s.validators ≤ s.totalWeight.toNat
  totalWeight_eq : s.totalWeight.toNat = Validator.totalWeight vs

variable {s s' : CanonicalSet} {vs : List Validator}

theorem empty_summarizes : empty.Summarizes [] where
  sorted := List.Pairwise.nil
  mem_keys _ := by simp [empty]
  weightAt_eq _ := rfl
  nodesAt_eq _ := rfl
  sumOf_le := Nat.zero_le _
  totalWeight_eq := rfl

theorem register_eq_ok {u : Validator} (h : s.register u = .ok s') :
    s.totalWeight.toNat + u.weight.toNat = s'.totalWeight.toNat ∧
      ((u.key = none ∧ s'.validators = s.validators) ∨
        ∃ key, u.key = some key ∧
          enroll u.node key u.weight s.validators = .ok s'.validators) := by
  obtain ⟨total, htotal, h⟩ := Steps.bind_eq_ok_iff.1 h
  cases hk : u.key with
  | none =>
    rw [hk] at h
    cases h
    exact ⟨addWeight_eq_ok_iff.1 htotal, .inl ⟨rfl, rfl⟩⟩
  | some key =>
    rw [hk] at h
    obtain ⟨es, hes, h⟩ := Steps.bind_eq_ok_iff.1 h
    cases h
    exact ⟨addWeight_eq_ok_iff.1 htotal, .inr ⟨key, rfl, hes⟩⟩

theorem register_summarizes {u : Validator} (hs : s.Summarizes vs) (h : s.register u = .ok s') :
    s'.Summarizes (vs ++ [u]) := by
  obtain ⟨htotal, hkey⟩ := register_eq_ok h
  have hle := hs.sumOf_le
  have hsum : s'.totalWeight.toNat = Validator.totalWeight (vs ++ [u]) := by
    rw [← htotal, hs.totalWeight_eq, Validator.totalWeight_append]
  rcases hkey with ⟨hnone, hv⟩ | ⟨key, hsome, he⟩
  · refine ⟨hv ▸ hs.sorted, fun k => ?_, fun k => ?_, fun k => ?_, ?_, hsum⟩
    · rw [hv, hs.mem_keys, List.map_append, List.mem_append]
      simp [hnone]
    · rw [hv, hs.weightAt_eq, Validator.weightOf_append, hnone, if_neg nofun, Nat.add_zero]
    · rw [hv, hs.nodesAt_eq, Validator.nodesOf_append, hnone, if_neg nofun, List.append_nil]
    · rw [hv]
      omega
  · refine ⟨enroll_sorted hs.sorted he, fun k => ?_, fun k => ?_, fun k => ?_, ?_, hsum⟩
    · rw [mem_keys_enroll he, hs.mem_keys, List.map_append, List.mem_append]
      simp [hsome, or_comm]
    · rw [weightAt_enroll he, hs.weightAt_eq, Validator.weightOf_append, hsome]
      simp only [Option.some.injEq]
    · rw [nodesAt_enroll hs.sorted he, hs.nodesAt_eq, Validator.nodesOf_append, hsome]
      simp only [Option.some.injEq]
    · rw [sumOf_enroll he]
      omega

theorem foldlM_register_summarizes {rest : List Validator} (hs : s.Summarizes vs)
    (h : rest.foldlM register s = .ok s') : s'.Summarizes (vs ++ rest) := by
  induction rest generalizing s vs with
  | nil =>
    cases h
    rwa [List.append_nil]
  | cons u rest ih =>
    rw [List.foldlM_cons, Steps.bind_eq_ok_iff] at h
    obtain ⟨t, ht, h⟩ := h
    rw [List.append_cons]
    exact ih (register_summarizes hs ht) h

theorem ofValidators_summarizes (h : ofValidators vs = .ok s) : s.Summarizes vs :=
  foldlM_register_summarizes empty_summarizes h

/-! ### Which lists have a canonical form -/

/-- A validator is refused only if the weight of all does not fit: an entry never weighs more. -/
theorem register_eq_error {u : Validator} {e : MessageError} (hs : s.Summarizes vs)
    (h : s.register u = .error e) :
    2 ^ 64 ≤ Validator.totalWeight (vs ++ [u]) ∧ e = .weightOverflow := by
  rw [Validator.totalWeight_append, ← hs.totalWeight_eq]
  rcases Steps.bind_eq_error_iff.1 h with htotal | ⟨total, htotal, h⟩
  · exact addWeight_eq_error_iff.1 htotal
  · have htotal := addWeight_eq_ok_iff.1 htotal
    have hfits := total.toNat_lt
    have hle := hs.sumOf_le
    cases hk : u.key with
    | none =>
      rw [hk] at h
      cases h
    | some key =>
      rw [hk] at h
      rcases Steps.bind_eq_error_iff.1 h with hentry | ⟨_, -, hpure⟩
      · have hentry := (enroll_eq_error hentry).1
        omega
      · cases hpure

/-- A list has no canonical form exactly if its weights together do not fit, and there is no other reason. -/
theorem ofValidators_eq_error_iff {e : MessageError} :
    ofValidators vs = .error e ↔ 2 ^ 64 ≤ Validator.totalWeight vs ∧ e = .weightOverflow := by
  have hreason : ∀ e', ofValidators vs = .error e' →
      2 ^ 64 ≤ Validator.totalWeight vs ∧ e' = .weightOverflow := by
    intro e' h
    obtain ⟨front, u, rest, t, hvs, hfront, hu⟩ := Steps.foldlM_eq_error_iff.1 h
    obtain ⟨hle, he⟩ := register_eq_error (ofValidators_summarizes hfront) hu
    refine ⟨Nat.le_trans hle ?_, he⟩
    simp only [hvs, Validator.totalWeight, List.map_append, List.map_cons, List.map_nil,
      List.sum_append, List.sum_cons, List.sum_nil]
    omega
  refine ⟨hreason e, fun ⟨hle, he⟩ => ?_⟩
  cases hr : ofValidators vs with
  | ok s =>
    have htotal := (ofValidators_summarizes hr).totalWeight_eq
    have hfits := s.totalWeight.toNat_lt
    omega
  | error e' => rw [he, (hreason e' hr).2]

theorem exists_ofValidators (h : Validator.totalWeight vs < 2 ^ 64) : ∃ s, ofValidators vs = .ok s := by
  cases hr : ofValidators vs with
  | ok s => exact ⟨s, rfl⟩
  | error e => exact absurd (ofValidators_eq_error_iff.1 hr).1 (Nat.not_le_of_lt h)

/-! ### Entries -/

/-- The weight of an entry is that of all validators with its key. -/
theorem Summarizes.weight_eq (hs : s.Summarizes vs) (hv : v ∈ s.validators) :
    v.weight.toNat = Validator.weightOf vs v.key := by
  rw [← hs.weightAt_eq, weightAt, hs.sorted.filter_key_eq hv]
  exact (Nat.add_zero _).symm

/-- Different entries together weigh no more than all validators. -/
theorem Summarizes.sum_weight_le (hs : s.Summarizes vs) {us : List CanonicalValidator}
    (hus : us.Sublist s.validators) :
    (us.map (·.weight.toNat)).sum ≤ Validator.totalWeight vs := by
  have hsub : (us.map (·.weight.toNat)).sum ≤ sumOf s.validators :=
    (hus.map _).sum_le_sum fun _ _ => Nat.zero_le _
  exact hs.totalWeight_eq ▸ Nat.le_trans hsub hs.sumOf_le

end CanonicalSet

end Interchain
