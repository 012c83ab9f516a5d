import Interchain.Abi
import Mathlib.Algebra.Group.Nat.Defs

/-!
# Reading at offsets that anyone may have chosen

A byte string is found by its own word, which holds the place of its length. Both words come from the caller and may
hold any number of 256 bits; what is read nevertheless is what they say in numbers without a bound.

Each reader has an equivalence, `Abi.slice?_eq_some_iff` up to `Abi.bytesAt?_eq_some_iff`, which names the sums that
have to fit in 64 bits. In data whose length fits, these sums are no condition at all: `Abi.bytesAt?_exact` does
without them. The bound on the length remains, as no 64-bit machine holds more.
-/

namespace Interchain.Abi

variable {data bs : Bytes} {offset start stop n : UInt64} {w : Hash32} {x : Word}

/-- The word that starts at a place within the data is this number. -/
def HasWord (data : Bytes) (place n : Nat) : Prop :=
  place + 32 ≤ data.length ∧ Bytes.toNat ((data.drop place).take 32) = n

/-! ### Reading -/

/-- A sum of offsets that fits in 64 bits. -/
theorem exists_addOffset? {a b : UInt64} (h : a.toNat + b.toNat < 2 ^ 64) :
    ∃ c, addOffset? a b = some c ∧ c.toNat = a.toNat + b.toNat := by
  refine ⟨a + b, if_pos h, ?_⟩
  rw [UInt64.toNat_add, Nat.mod_eq_of_lt h]

theorem slice?_eq_some_iff :
    slice? data start stop = some bs ↔ start.toNat ≤ stop.toNat ∧ stop.toNat ≤ data.length ∧
      bs = (data.drop start.toNat).take (stop.toNat - start.toNat) := by
  rw [slice?, List.drop_take]
  split
  · next h =>
    rw [Option.some.injEq, eq_comm, ← UInt64.le_iff_toNat_le, and_iff_right h.1, and_iff_right h.2]
  · next h => exact ⟨nofun, fun hbs => absurd ⟨UInt64.le_iff_toNat_le.2 hbs.1, hbs.2.1⟩ h⟩

theorem wordAt?_eq_some_iff :
    wordAt? data offset = some w ↔ offset.toNat + 32 < 2 ^ 64 ∧ offset.toNat + 32 ≤ data.length ∧
      w.bytes = (data.drop offset.toNat).take 32 := by
  have hword : (32 : UInt64).toNat = 32 := rfl
  simp only [wordAt?, Option.bind_eq_bind, Option.bind_eq_some_iff, FixedBytes.ofBytes?_eq_some_iff]
  constructor
  · intro ⟨stop, hstop, piece, hpiece, hw⟩
    have hvalue := addOffset?_eq_some_iff.1 hstop
    obtain ⟨-, hdata, hslice⟩ := slice?_eq_some_iff.1 hpiece
    have hlt := stop.toNat_lt
    refine ⟨by omega, by omega, ?_⟩
    rw [hw, hslice, ← hvalue, hword, Nat.add_sub_cancel_left]
  · intro ⟨hfit, hdata, hw⟩
    obtain ⟨stop, hstop, hvalue⟩ := exists_addOffset? (a := offset) (b := 32) hfit
    refine ⟨stop, hstop, w.bytes, slice?_eq_some_iff.2 ⟨by omega, by omega, ?_⟩, rfl⟩
    rw [hw, hvalue, hword, Nat.add_sub_cancel_left]

theorem numberAt?_eq_some_iff :
    numberAt? data offset = some x ↔ offset.toNat + 32 < 2 ^ 64 ∧ HasWord data offset.toNat x.toNat := by
  rw [numberAt?, Option.map_eq_some_iff]
  constructor
  · rintro ⟨w, hw, rfl⟩
    obtain ⟨hfit, hdata, hbytes⟩ := wordAt?_eq_some_iff.1 hw
    exact ⟨hfit, hdata, by rw [Hash32.toNat_toWord, FixedBytes.toNat, hbytes]⟩
  · rintro ⟨hfit, hdata, hvalue⟩
    have hlength : ((data.drop offset.toNat).take 32).length = 32 := by
      rw [List.length_take, List.length_drop]
      omega
    refine ⟨⟨_, hlength⟩, wordAt?_eq_some_iff.2 ⟨hfit, hdata, rfl⟩, BitVec.eq_of_toNat_eq ?_⟩
    rw [Hash32.toNat_toWord]
    exact hvalue

/-- A word of 256 bits is taken for an offset or a length if it fits in 64 bits. -/
theorem offsetAt?_eq_some_iff :
    offsetAt? data offset = some n ↔ offset.toNat + 32 < 2 ^ 64 ∧ HasWord data offset.toNat n.toNat := by
  simp only [offsetAt?, Option.bind_eq_bind, Option.bind_eq_some_iff]
  constructor
  · intro ⟨x, hx, h⟩
    split at h
    · next hlt =>
      obtain rfl := Option.some.inj h
      rw [UInt64.toNat_ofNat_of_lt' hlt]
      exact numberAt?_eq_some_iff.1 hx
    · cases h
  · intro ⟨hfit, hn⟩
    have hvalue : (BitVec.ofNat 256 n.toNat).toNat = n.toNat := by
      rw [BitVec.toNat_ofNat]
      exact Nat.mod_eq_of_lt (Nat.lt_trans n.toNat_lt (by decide))
    refine ⟨BitVec.ofNat 256 n.toNat, numberAt?_eq_some_iff.2 ⟨hfit, hvalue.symm ▸ hn⟩, ?_⟩
    rw [hvalue, if_pos n.toNat_lt, UInt64.ofNat_toNat]
    rfl

/-- A byte string is read if its own word, the word to which that points and the bytes behind it lie within the data, and
the sums on the way fit in 64 bits. -/
theorem bytesAt?_eq_some_iff :
    bytesAt? data offset = some bs ↔ ∃ head length, offset.toNat + 32 < 2 ^ 64 ∧ head + 32 + length < 2 ^ 64 ∧
      HasWord data offset.toNat head ∧ HasWord data head length ∧ head + 32 + length ≤ data.length ∧
        bs = (data.drop (head + 32)).take length := by
  have hword : (32 : UInt64).toNat = 32 := rfl
  simp only [bytesAt?, Option.bind_eq_bind, Option.bind_eq_some_iff]
  constructor
  · intro ⟨head, hhead, length, hlength, start, hstart, stop, hstop, hslice⟩
    obtain ⟨hfit, hhead⟩ := offsetAt?_eq_some_iff.1 hhead
    obtain ⟨-, hlength⟩ := offsetAt?_eq_some_iff.1 hlength
    have hstart := addOffset?_eq_some_iff.1 hstart
    have hstop := addOffset?_eq_some_iff.1 hstop
    obtain ⟨-, hdata, hbs⟩ := slice?_eq_some_iff.1 hslice
    have hlt := stop.toNat_lt
    refine ⟨head.toNat, length.toNat, hfit, by omega, hhead, hlength, by omega, ?_⟩
    rw [hbs, ← hstop, ← hstart, hword, Nat.add_sub_cancel_left]
  · intro ⟨head, length, hfit, hsum, hhead, hlength, hdata, hbs⟩
    have hheadLt : head < 2 ^ 64 := by omega
    have hlengthLt : length < 2 ^ 64 := by omega
    have hheadValue : (UInt64.ofNat head).toNat = head := UInt64.toNat_ofNat_of_lt' hheadLt
    have hlengthValue : (UInt64.ofNat length).toNat = length := UInt64.toNat_ofNat_of_lt' hlengthLt
    obtain ⟨start, hstart, hstartValue⟩ := exists_addOffset? (a := .ofNat head) (b := 32) (by omega)
    obtain ⟨stop, hstop, hstopValue⟩ := exists_addOffset? (a := start) (b := .ofNat length) (by omega)
    refine ⟨.ofNat head, offsetAt?_eq_some_iff.2 ⟨hfit, by rwa [hheadValue]⟩,
      .ofNat length, offsetAt?_eq_some_iff.2 ⟨by omega, by rwa [hheadValue, hlengthValue]⟩,
      start, hstart, stop, hstop, slice?_eq_some_iff.2 ⟨by omega, by omega, ?_⟩⟩
    rw [hbs, hstopValue, hstartValue, hheadValue, hlengthValue, hword, Nat.add_sub_cancel_left]

/-! ### Writing -/

theorem length_ofNat (n : Nat) : (ofNat n).length = 32 :=
  Bytes.length_ofNat 32 n

/-- A number that has been written stands where it was written. -/
theorem hasWord_of_append {n : Nat} (pre post : Bytes) (hn : n < 2 ^ 256) :
    HasWord (pre ++ ofNat n ++ post) pre.length n := by
  constructor
  · rw [List.length_append, List.length_append, length_ofNat]
    omega
  · rw [List.append_assoc, List.drop_left, List.take_left' (length_ofNat n)]
    exact Bytes.toNat_ofNat_of_lt hn

/-- The length word of a tail and the bytes behind it. -/
theorem hasWord_bytesTail (pre bs post : Bytes) (hbs : bs.length < 2 ^ 256) :
    HasWord (pre ++ bytesTail bs ++ post) pre.length bs.length ∧
      pre.length + 32 + bs.length ≤ (pre ++ bytesTail bs ++ post).length ∧
        bs = ((pre ++ bytesTail bs ++ post).drop (pre.length + 32)).take bs.length := by
  have hdata : pre ++ bytesTail bs ++ post = pre ++ ofNat bs.length ++
      (bs ++ (List.replicate (paddedLength bs.length - bs.length) 0 ++ post)) := by
    rw [bytesTail]
    simp only [List.append_assoc]
  have hbefore : (pre ++ ofNat bs.length).length = pre.length + 32 := by
    rw [List.length_append, length_ofNat]
  rw [hdata]
  refine ⟨hasWord_of_append pre _ hbs, ?_, ?_⟩
  · rw [List.length_append, hbefore, List.length_append]
    omega
  · rw [List.drop_left' hbefore, List.take_left]

/-! ### No sum wraps -/

/-- A byte string is read from data of any content exactly if, in numbers without a bound, its own word, the length word to
which that points and the bytes behind it lie within the data. The sums and the pieces on the way are those of the numbers.
So a tail is read back wherever it stands and wherever the word is that holds its place. -/
theorem bytesAt?_exact :
    (∀ data offset bs, data.length < 2 ^ 64 → (bytesAt? data offset = some bs ↔ ∃ head length,
      HasWord data offset.toNat head ∧ HasWord data head length ∧ head + 32 + length ≤ data.length ∧
        bs = (data.drop (head + 32)).take length)) ∧
    (∀ a b sum, addOffset? a b = some sum ↔ a.toNat + b.toNat = sum.toNat) ∧
    (∀ data start stop piece, slice? data start stop = some piece ↔
      start.toNat ≤ stop.toNat ∧ stop.toNat ≤ data.length ∧
        piece = (data.drop start.toNat).take (stop.toNat - start.toNat)) ∧
    ∀ pre bs post offset, (pre ++ bytesTail bs ++ post).length < 2 ^ 64 →
      HasWord (pre ++ bytesTail bs ++ post) offset.toNat pre.length →
        bytesAt? (pre ++ bytesTail bs ++ post) offset = some bs := by
  have hexact : ∀ data offset bs, data.length < 2 ^ 64 → (bytesAt? data offset = some bs ↔ ∃ head length,
      HasWord data offset.toNat head ∧ HasWord data head length ∧ head + 32 + length ≤ data.length ∧
        bs = (data.drop (head + 32)).take length) := by
    intro data offset bs hfit
    rw [bytesAt?_eq_some_iff]
    constructor
    · intro ⟨head, length, _, _, hread⟩
      exact ⟨head, length, hread⟩
    · intro ⟨head, length, hhead, hlength, hdata, hbs⟩
      exact ⟨head, length, Nat.lt_of_le_of_lt hhead.1 hfit, Nat.lt_of_le_of_lt hdata hfit, hhead, hlength, hdata, hbs⟩
  refine ⟨hexact, fun a b sum => addOffset?_eq_some_iff, fun data start stop piece => slice?_eq_some_iff, ?_⟩
  intro pre bs post offset hfit hhead
  have hbs : bs.length < 2 ^ 256 := by
    simp only [List.length_append, bytesTail] at hfit
    omega
  obtain ⟨hlength, hdata, hpiece⟩ := hasWord_bytesTail pre bs post hbs
  exact (hexact _ _ _ hfit).2 ⟨pre.length, bs.length, hhead, hlength, hdata, hpiece⟩

/-- A tail behind its own word, and words that point so far that the sums behind them do not fit in 64 bits or that do not
fit themselves. -/
theorem bytesAt?_exact_farPlaces :
    bytesAt? (ofNat 32 ++ bytesTail (Bytes.ofString "hello") ++ []) 0 = some (Bytes.ofString "hello") ∧
      bytesAt? (ofNat (2 ^ 64 - 16)) 0 = none ∧ bytesAt? (ofNat (2 ^ 256 - 1)) 0 = none := by
  obtain ⟨hexact, -, -, htail⟩ := bytesAt?_exact
  have hfar : ∀ n, 0 < n → n < 2 ^ 256 → bytesAt? (ofNat n) 0 = none := by
    intro n hpos hn
    refine Option.eq_none_iff_forall_ne_some.2 fun bs h => ?_
    have hfit : (ofNat n).length < 2 ^ 64 := by rw [length_ofNat]; decide
    obtain ⟨head, length, hhead, hlength, -⟩ := (hexact _ _ bs hfit).1 h
    have hword : HasWord ([] ++ ofNat n ++ []) 0 n := hasWord_of_append [] [] hn
    rw [List.nil_append, List.append_nil] at hword
    have hheadValue : head = n := hhead.2.symm.trans hword.2
    have hbound := hlength.1
    rw [length_ofNat] at hbound
    omega
  refine ⟨?_, hfar _ (by decide) (by decide), hfar _ (by decide) (by decide)⟩
  exact htail (ofNat 32) (Bytes.ofString "hello") [] 0 (by decide +kernel) ⟨by decide +kernel, by decide +kernel⟩

end Interchain.Abi
