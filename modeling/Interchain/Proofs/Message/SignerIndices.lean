import Interchain.Proofs.Message.Quorum
import Mathlib.Data.Finset.Sort

/-!
# Sets of signers and lists of indices

A minimal set of signers is a finite set of indices, written in the only way that is minimal. Whoever makes one from
a list of indices and whoever reads one for some validators mean the same set.

* `SignerSet.contains_insert`, `SignerSet.isMinimal_insert`: what setting one bit does.
* `SignerSet.Represents`: a set stands for the indices in a list, and wastes no byte on it.
* `SignerSet.represents_iff`: the set that is made from a list is the one that stands for it.
* `CanonicalSet.Names`: the entries at some indices, or the refusal of the least index without an entry.
* `CanonicalSet.names_members`: what a set of signers comes to for some validators.

Sets that are not minimal have indices as well, but stand for no list in this sense.
-/

namespace Interchain

namespace SignerSet

variable {s t : SignerSet} {is js : List Nat} {i j : Nat}

/-! ### Setting bits -/

theorem toNat_bit {r : Nat} (h : r < 8) : (1 <<< UInt8.ofNat r : UInt8).toNat = 2 ^ r := by
  have hall : ∀ r < 8, (1 <<< UInt8.ofNat r : UInt8).toNat = 2 ^ r := by decide
  exact hall r h

theorem getD_append_zeros (bs : Bytes) (n k : Nat) :
    (bs ++ List.replicate n 0).getD k 0 = bs.getD k 0 := by
  simp only [List.getD_eq_getElem?_getD, List.getElem?_append, List.getElem?_replicate]
  by_cases hk : k < bs.length
  · rw [if_pos hk]
  · rw [if_neg hk, List.getElem?_eq_none (by omega)]
    split
    · rfl
    · rfl

theorem length_insert (s : SignerSet) (i : Nat) :
    (s.insert i).bytes.length = max s.bytes.length (i / 8 + 1) := by
  simp only [insert, List.length_modify, List.length_append, List.length_replicate]
  omega

/-- The byte of an index gets its bit, and the others stay as they are. -/
theorem getD_insert (s : SignerSet) (i k : Nat) :
    (s.insert i).bytes.getD k 0 =
      if i / 8 = k then s.bytes.getD k 0 ||| 1 <<< UInt8.ofNat (i % 8) else s.bytes.getD k 0 := by
  have hlen := length_insert s i
  rw [← getD_append_zeros s.bytes (i / 8 + 1 - s.bytes.length) k]
  simp only [insert, List.length_modify] at hlen ⊢
  rw [List.getD_eq_getElem?_getD, List.getD_eq_getElem?_getD, List.getElem?_modify]
  by_cases hk : i / 8 = k
  · have hlt : k < (s.bytes ++ List.replicate (i / 8 + 1 - s.bytes.length) 0).length := by omega
    rw [if_pos hk, List.getElem?_eq_getElem hlt]
    simp [hk]
  · rw [if_neg hk]
    simp [hk]

theorem contains_insert (s : SignerSet) (i j : Nat) :
    (s.insert i).contains j = (decide (j = i) || s.contains j) := by
  unfold contains
  rw [getD_insert]
  by_cases hbyte : i / 8 = j / 8
  · have hbit : i % 8 = j % 8 ↔ j = i := by omega
    rw [if_pos hbyte, UInt8.toNat_or, Nat.testBit_or, toNat_bit (Nat.mod_lt i (by decide)),
      Nat.testBit_two_pow, Bool.or_comm]
    simp only [hbit]
  · have hne : j ≠ i := fun h => hbyte (congrArg (· / 8) h.symm)
    rw [if_neg hbyte, decide_eq_false hne, Bool.false_or]

/-- The induction is for any set to start from: the one that the indices before have made. -/
theorem contains_foldl_insert :
    (is.foldl insert s).contains j = true ↔ j ∈ is ∨ s.contains j = true := by
  induction is generalizing s with
  | nil => simp
  | cons i is ih =>
    rw [List.foldl_cons, ih, contains_insert, List.mem_cons, Bool.or_eq_true, decide_eq_true_iff,
      or_left_comm, or_assoc]

/-! ### Minimal sets -/

/-- A set is minimal if it has a member in its last byte. -/
theorem isMinimal_of_contains (h : s.contains i = true) (hlast : i / 8 + 1 = s.bytes.length) :
    s.isMinimal = true := by
  rw [isMinimal_eq_true_iff]
  intro h0
  have hget : s.bytes[i / 8]? = some 0 := by
    rw [← h0, List.getLast?_eq_getElem?, ← hlast, Nat.add_sub_cancel]
  rw [contains, List.getD_eq_getElem?_getD, hget] at h
  simp at h

theorem isMinimal_insert (h : s.isMinimal = true) (i : Nat) : (s.insert i).isMinimal = true := by
  by_cases hlen : s.bytes.length ≤ i / 8 + 1
  · have hi : (s.insert i).contains i = true := by simp [contains_insert]
    refine isMinimal_of_contains hi ?_
    rw [length_insert]
    omega
  · have hne : s.bytes ≠ [] := fun hnil => hlen (by simp [hnil])
    obtain ⟨j, hj, hlast⟩ := exists_contains_of_isMinimal h hne
    have hj : (s.insert i).contains j = true := by simp [contains_insert, hj]
    refine isMinimal_of_contains hj ?_
    rw [length_insert]
    omega

theorem isMinimal_foldl_insert (h : s.isMinimal = true) : (is.foldl insert s).isMinimal = true := by
  induction is generalizing s with
  | nil => exact h
  | cons i is ih => exact ih (isMinimal_insert h i)

/-- A minimal set is no longer than a set that has all its members. -/
theorem length_le_of_isMinimal (hs : s.isMinimal = true)
    (h : ∀ i, s.contains i = true → t.contains i = true) : s.bytes.length ≤ t.bytes.length := by
  by_cases hne : s.bytes = []
  · rw [hne]
    exact Nat.zero_le _
  · obtain ⟨i, hi, hlast⟩ := exists_contains_of_isMinimal hs hne
    have hlt := lt_of_contains (h i hi)
    omega

theorem testBit_getD (s : SignerSet) (k : Nat) {r : Nat} (hr : r < 8) :
    (s.bytes.getD k 0).toNat.testBit r = s.contains (8 * k + r) := by
  have hdiv : (8 * k + r) / 8 = k := by omega
  have hmod : (8 * k + r) % 8 = r := by omega
  rw [contains, hdiv, hmod]

theorem testBit_of_le (b : UInt8) {r : Nat} (hr : 8 ≤ r) : b.toNat.testBit r = false :=
  Nat.testBit_lt_two_pow (Nat.lt_of_lt_of_le b.toNat_lt (Nat.pow_le_pow_right (by decide) hr))

/-- No two minimal sets have the same members. -/
theorem ext_of_isMinimal (hs : s.isMinimal = true) (ht : t.isMinimal = true)
    (h : ∀ i, s.contains i = true ↔ t.contains i = true) : s = t := by
  -- Members only say which bits are set, so how many bytes there are has to come from both being minimal.
  have hlen : s.bytes.length = t.bytes.length :=
    Nat.le_antisymm (length_le_of_isMinimal hs fun i => (h i).1) (length_le_of_isMinimal ht fun i => (h i).2)
  have hbyte : ∀ k, s.bytes.getD k 0 = t.bytes.getD k 0 := by
    intro k
    refine UInt8.toNat_inj.1 (Nat.eq_of_testBit_eq fun r => ?_)
    by_cases hr : r < 8
    · rw [testBit_getD s k hr, testBit_getD t k hr]
      exact Bool.eq_iff_iff.2 (h _)
    · rw [testBit_of_le _ (by omega), testBit_of_le _ (by omega)]
  have hbytes : s.bytes = t.bytes := by
    refine List.ext_getElem hlen fun k hk hk' => ?_
    have hget := hbyte k
    rw [List.getD_eq_getElem?_getD, List.getD_eq_getElem?_getD, List.getElem?_eq_getElem hk,
      List.getElem?_eq_getElem hk'] at hget
    exact hget
  cases s
  cases t
  exact congrArg SignerSet.mk hbytes

/-! ### What a set stands for -/

/-- A set stands for the indices in a list, in whatever order and however often they occur there, and its last byte is
not wasted. -/
structure Represents (s : SignerSet) (is : List Nat) : Prop where
  contains_iff : ∀ i, s.contains i = true ↔ i ∈ is
  last_ne_zero : s.bytes.getLast? ≠ some 0

theorem represents_ofIndices (is : List Nat) : (ofIndices is).Represents is where
  contains_iff i := by
    have hempty : empty.contains i = false := by simp [empty, contains]
    rw [ofIndices, contains_foldl_insert, hempty]
    simp
  last_ne_zero := isMinimal_eq_true_iff.1 (isMinimal_foldl_insert rfl)

namespace Represents

variable (h : s.Represents is)

include h

theorem isMinimal : s.isMinimal = true := isMinimal_eq_true_iff.2 h.last_ne_zero

theorem congr (hmem : ∀ i, i ∈ is ↔ i ∈ js) : s.Represents js where
  contains_iff i := (h.contains_iff i).trans (hmem i)
  last_ne_zero := h.last_ne_zero

theorem unique (ht : t.Represents is) : s = t :=
  ext_of_isMinimal h.isMinimal ht.isMinimal fun i => (h.contains_iff i).trans (ht.contains_iff i).symm

end Represents

/-- No other set stands for a list than the one that is made from it. -/
theorem represents_iff : s.Represents is ↔ ofIndices is = s := by
  constructor
  · exact fun h => (represents_ofIndices is).unique h
  · intro h
    rw [← h]
    exact represents_ofIndices is

/-! ### Reading back -/

theorem length_flatMap_positions (bs : Bytes) (k : Nat) :
    ((bs.zipIdx k).flatMap fun (b, j) => (positions b).map (8 * j + ·)).length =
      (bs.flatMap positions).length := by
  induction bs generalizing k with
  | nil => rfl
  | cons b bs ih =>
    simp only [List.zipIdx_cons, List.flatMap_cons, List.length_append, List.length_map]
    rw [ih (k + 1)]

theorem count_eq_length_indices (s : SignerSet) : s.count = s.indices.length :=
  (length_flatMap_positions s.bytes 0).symm

theorem pairwise_indices (s : SignerSet) : s.indices.Pairwise (· < ·) := by
  rw [indices_eq_filter]
  exact List.pairwise_lt_range.filter _

/-- A minimal set stands for its own indices. -/
theorem represents_indices (h : s.isMinimal = true) : s.Represents s.indices where
  contains_iff _ := mem_indices.symm
  last_ne_zero := isMinimal_eq_true_iff.1 h

/-- The indices come back in increasing order and each once. -/
theorem Represents.indices_eq (h : s.Represents is) : s.indices = is.toFinset.sort := by
  refine (pairwise_indices s).sortedLT.eq_of_mem_iff (Finset.sortedLT_sort _) fun i => ?_
  rw [mem_indices, h.contains_iff, Finset.mem_sort, List.mem_toFinset]

theorem Represents.count_eq (h : s.Represents is) : s.count = is.toFinset.card := by
  rw [count_eq_length_indices, h.indices_eq, Finset.length_sort]

theorem count_le (s : SignerSet) : s.count ≤ 8 * s.bytes.length := by
  rw [count_eq_length_indices, indices_eq_filter]
  exact (List.length_filter_le _ _).trans_eq List.length_range

end SignerSet

/-! ### Entries -/

namespace CanonicalSet

variable {set : CanonicalSet} {s : SignerSet} {us : List CanonicalValidator} {is : List Nat} {i : Nat}

/-- The entries at some indices, in the order of the indices. -/
theorem map_some_of_mapM_member (h : is.mapM set.member = .ok us) :
    us.map some = is.map (set.validators[·]?) := by
  obtain ⟨hlength, hentries⟩ := Steps.mapM_eq_ok_iff.1 h
  refine List.ext_getElem? fun k => ?_
  rw [List.getElem?_map, List.getElem?_map]
  cases hk : is[k]? with
  | none =>
    have hle : us.length ≤ k := hlength ▸ List.getElem?_eq_none_iff.1 hk
    rw [List.getElem?_eq_none hle]
    rfl
  | some i =>
    obtain ⟨v, hv, hmember⟩ := hentries k i hk
    rw [hv, Option.map_some, Option.map_some, member_eq_ok_iff.1 hmember]

/-- Of indices in increasing order, the first without an entry is the least one. -/
theorem mapM_member_eq_error (hsorted : is.Pairwise (· < ·))
    (hi : IsLeast {i | i ∈ is ∧ set.validators.length ≤ i} i) :
    is.mapM set.member = .error (.signerOutOfRange i set.validators.length) := by
  obtain ⟨⟨hmem, hle⟩, hleast⟩ := hi
  obtain ⟨k, hk, hget⟩ := List.getElem_of_mem hmem
  refine Steps.mapM_eq_error_iff.2 ⟨k, i, List.getElem?_eq_some_iff.2 ⟨hk, hget⟩, ?_, ?_⟩
  · rw [member, List.getElem?_eq_none hle]
  · intro j hjk x hx
    obtain ⟨hj, hget'⟩ := List.getElem?_eq_some_iff.1 hx
    have hlt : is[j] < is[k] := List.pairwise_iff_getElem.1 hsorted j k hj hk hjk
    -- Without an entry, this smaller index would be the least one.
    have hfit : x < set.validators.length := by
      by_contra hge
      have hxi : i ≤ x := hleast ⟨hget' ▸ List.getElem_mem hj, Nat.le_of_not_lt hge⟩
      omega
    exact ⟨_, member_eq_ok_iff.2 (List.getElem?_eq_getElem hfit)⟩

/-- What the indices in a list come to: if there is an entry at each of them, these entries in increasing order and each
once, and else a refusal of the least index without an entry. -/
structure Names (set : CanonicalSet) (is : List Nat)
    (r : Except MessageError (List CanonicalValidator)) : Prop where
  entries : (∀ i ∈ is, i < set.validators.length) →
    ∃ us, r = .ok us ∧ us.map some = is.toFinset.sort.map (set.validators[·]?)
  refusal : ∀ i, IsLeast {i | i ∈ is ∧ set.validators.length ≤ i} i →
    r = .error (.signerOutOfRange i set.validators.length)

theorem names_members (set : CanonicalSet) (h : s.Represents is) : set.Names is (set.members s) := by
  have hmembers : set.members s = is.toFinset.sort.mapM set.member := by
    rw [members, if_pos h.isMinimal, h.indices_eq]
  have hmem : ∀ i, i ∈ is.toFinset.sort ↔ i ∈ is := fun i => by
    rw [Finset.mem_sort, List.mem_toFinset]
  rw [hmembers]
  constructor
  · intro hlt
    have hok := mapM_member_eq_ok_iff.2 ⟨fun i hi => hlt i ((hmem i).1 hi), rfl⟩
    exact ⟨_, hok, map_some_of_mapM_member hok⟩
  · intro i hi
    simp only [← hmem] at hi
    exact mapM_member_eq_error (Finset.sortedLT_sort _).pairwise hi

/-- As many entries as bits. -/
theorem count_of_members (h : set.members s = .ok us) : s.count = us.length := by
  obtain ⟨hm, -, -⟩ := members_eq_ok_iff.1 h
  rw [members, if_pos hm] at h
  rw [SignerSet.count_eq_length_indices, (Steps.mapM_eq_ok_iff.1 h).1]

end CanonicalSet

end Interchain
