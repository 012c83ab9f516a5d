import Interchain.Message.Signers

/-!
# Bits and indices of a set of signers

The indices of a set of signers are the positions of the bits that are set, each once and in order. The bytes are
gone through one by one, with their number as an offset, and the bits of each are a piece of the range of all
positions.

The last byte of a minimal set has a member, so a minimal set without members has no bytes.
-/

namespace Interchain.SignerSet

variable {s : SignerSet} {b : UInt8} {bs : Bytes} {i k n : Nat}

/-! ### Bits -/

/-- Whether bit `i % 8` of byte `i / 8` is set, for bytes that start at number `k`. -/
def bitAt (bs : Bytes) (k i : Nat) : Bool :=
  (bs.getD (i / 8 - k) 0).toNat.testBit (i % 8)

theorem bitAt_cons_of_lt (hk : 8 * k ≤ i) (hi : i < 8 * (k + 1)) :
    bitAt (b :: bs) k i = b.toNat.testBit (i % 8) := by
  have h : i / 8 - k = 0 := by omega
  rw [bitAt, h, List.getD_cons_zero]

theorem bitAt_cons_of_le (hi : 8 * (k + 1) ≤ i) : bitAt (b :: bs) k i = bitAt bs (k + 1) i := by
  have h : i / 8 - k = i / 8 - (k + 1) + 1 := by omega
  rw [bitAt, h, List.getD_cons_succ, bitAt]

/-- The positions in one byte, counted from the first bit of all. -/
theorem map_positions (b : UInt8) (bs : Bytes) (k : Nat) :
    (positions b).map (8 * k + ·) = (List.range' (8 * k) 8).filter (bitAt (b :: bs) k) := by
  rw [List.range'_eq_map_range, List.filter_map, positions]
  congr 1
  refine List.filter_congr fun i hi => ?_
  have hi : i < 8 := List.mem_range.1 hi
  have hmod : (8 * k + i) % 8 = i := by omega
  rw [Function.comp_apply, bitAt_cons_of_lt (by omega) (by omega), hmod]

theorem flatMap_positions (bs : Bytes) (k : Nat) :
    ((bs.zipIdx k).flatMap fun (b, j) => (positions b).map (8 * j + ·)) =
      (List.range' (8 * k) (8 * bs.length)).filter (bitAt bs k) := by
  induction bs generalizing k with
  | nil => rfl
  | cons b bs ih =>
    have hsplit : List.range' (8 * k) (8 * (b :: bs).length) =
        List.range' (8 * k) 8 ++ List.range' (8 * (k + 1)) (8 * bs.length) := by
      rw [List.length_cons, Nat.mul_succ, Nat.add_comm, Nat.mul_succ]
      exact (List.range'_append_1).symm
    have hrest : (List.range' (8 * (k + 1)) (8 * bs.length)).filter (bitAt (b :: bs) k) =
        (List.range' (8 * (k + 1)) (8 * bs.length)).filter (bitAt bs (k + 1)) :=
      List.filter_congr fun i hi => bitAt_cons_of_le (List.mem_range'_1.1 hi).1
    rw [List.zipIdx_cons, List.flatMap_cons, ih, hsplit, List.filter_append, hrest]
    exact congrArg (· ++ _) (map_positions b bs k)

/-! ### Indices of a set -/

/-- The indices are the positions of the bits that are set, each once and in increasing order. -/
theorem indices_eq_filter (s : SignerSet) :
    s.indices = (List.range (8 * s.bytes.length)).filter s.contains := by
  rw [List.range_eq_range']
  exact flatMap_positions s.bytes 0

theorem lt_of_contains (h : s.contains i = true) : i < 8 * s.bytes.length := by
  by_cases hi : i / 8 < s.bytes.length
  · omega
  · rw [contains, List.getD_eq_getElem?_getD, List.getElem?_eq_none (by omega)] at h
    simp at h

theorem mem_indices : i ∈ s.indices ↔ s.contains i = true := by
  rw [indices_eq_filter, List.mem_filter, List.mem_range]
  exact ⟨fun h => h.2, fun h => ⟨lt_of_contains h, h⟩⟩

theorem filter_range_of_le {p : Nat → Bool} {m : Nat} (hmn : m ≤ n) (h : ∀ i, p i = true → i < m) :
    (List.range n).filter p = (List.range m).filter p := by
  obtain ⟨d, rfl⟩ := Nat.exists_eq_add_of_le hmn
  have hnil : ((List.range d).map (m + ·)).filter p = [] := by
    refine List.filter_eq_nil_iff.2 fun i hi hp => ?_
    obtain ⟨j, -, rfl⟩ := List.mem_map.1 hi
    exact absurd (h _ hp) (by omega)
  rw [List.range_add, List.filter_append, hnil, List.append_nil]

/-- Where no index reaches `n`, only the bits below `n` count. -/
theorem indices_eq_filter_of_lt (h : ∀ i, s.contains i = true → i < n) :
    s.indices = (List.range n).filter s.contains := by
  rw [indices_eq_filter]
  rcases Nat.le_total (8 * s.bytes.length) n with hn | hn
  · exact (filter_range_of_le hn fun i hi => lt_of_contains hi).symm
  · exact filter_range_of_le hn h

/-! ### Minimal sets -/

theorem exists_testBit (h : b ≠ 0) : ∃ j < 8, b.toNat.testBit j = true := by
  obtain ⟨j, hj⟩ := Nat.exists_testBit_of_ne_zero fun e => h (UInt8.toNat_inj.1 e)
  refine ⟨j, ?_, hj⟩
  have hlt : 2 ^ j ≤ b.toNat := Nat.ge_two_pow_of_testBit hj
  exact (Nat.pow_lt_pow_iff_right (by decide)).1 (Nat.lt_of_le_of_lt hlt b.toNat_lt)

theorem isMinimal_eq_true_iff : s.isMinimal = true ↔ s.bytes.getLast? ≠ some 0 := by
  simp [isMinimal]

/-- The last byte of a minimal set has a bit that is set. -/
theorem exists_contains_of_isMinimal (h : s.isMinimal = true) (hne : s.bytes ≠ []) :
    ∃ i, s.contains i = true ∧ i / 8 + 1 = s.bytes.length := by
  cases hb : s.bytes.getLast? with
  | none => exact absurd (List.getLast?_eq_none_iff.1 hb) hne
  | some b =>
    obtain ⟨front, hfront⟩ := List.getLast?_eq_some_iff.1 hb
    have hb0 : b ≠ 0 := fun e => isMinimal_eq_true_iff.1 h (e ▸ hb)
    obtain ⟨j, hj, hbit⟩ := exists_testBit hb0
    have hdiv : (8 * front.length + j) / 8 = front.length := by omega
    have hmod : (8 * front.length + j) % 8 = j := by omega
    refine ⟨8 * front.length + j, ?_, ?_⟩
    · rw [contains, hdiv, hmod, hfront, List.getD_eq_getElem?_getD, List.getElem?_concat_length]
      exact hbit
    · rw [hdiv, hfront, List.length_append, List.length_singleton]

theorem indices_eq_nil_iff (h : s.isMinimal = true) : s.indices = [] ↔ s.bytes = [] := by
  constructor
  · intro hs
    by_cases hne : s.bytes = []
    · exact hne
    · obtain ⟨i, hi, -⟩ := exists_contains_of_isMinimal h hne
      have hmem : i ∈ s.indices := mem_indices.2 hi
      rw [hs] at hmem
      cases hmem
  · intro hs
    rw [indices, hs]
    rfl

end Interchain.SignerSet
