import Interchain.AccessList.Packing
import Interchain.Proofs.Rlp

/-!
# Payloads survive their packing

A payload is recovered from the storage keys that carry it, and the byte strings of a list from its encoding. For
the keys the argument is about the pieces of a string: put together again they are the string and zeros behind it,
and the delimiter is the last byte that is not zero (`Predicate.unpack_of_last`).

This is the direction from payloads to keys and back. Which other keys can be read is a question of its own.
-/

namespace Interchain

/-! ### Pieces of a string -/

namespace FixedBytes

theorem fit_append_drop {n : Nat} (bs : Bytes) {k : Nat} (h : bs.length ≤ n * (k + 1)) :
    Bytes.fit n bs ++ (bs.drop n ++ List.replicate (n * k - (bs.drop n).length) 0) =
      bs ++ List.replicate (n * (k + 1) - bs.length) 0 := by
  rw [Nat.mul_succ] at h ⊢
  by_cases hn : n ≤ bs.length
  · have hfit : Bytes.fit n bs = bs.take n := by
      have hzero : n - (bs.take n).length = 0 := by
        rw [List.length_take]
        omega
      rw [Bytes.fit, hzero, List.replicate_zero, List.append_nil]
    have hcount : n * k - (bs.drop n).length = n * k + n - bs.length := by
      rw [List.length_drop]
      omega
    rw [hfit, hcount, ← List.append_assoc, List.take_append_drop]
  · have hdrop : bs.drop n = [] := List.drop_eq_nil_of_le (by omega)
    have htake : bs.take n = bs := List.take_of_length_le (by omega)
    rw [Bytes.fit, hdrop, htake, List.nil_append, List.append_assoc, List.length_nil,
      List.replicate_append_replicate]
    congr 2
    omega

/-- The pieces of a string, put together, are the string and zeros behind it. -/
theorem flatMap_blocks (n k : Nat) (bs : Bytes) (h : bs.length ≤ n * k) :
    (blocks n k bs).flatMap (·.bytes) = bs ++ List.replicate (n * k - bs.length) 0 := by
  induction k generalizing bs with
  | zero =>
    have hnil : bs = [] := List.eq_nil_of_length_eq_zero (by omega)
    rw [hnil]
    rfl
  | succ k ih =>
    have hrest : (bs.drop n).length ≤ n * k := by
      rw [List.length_drop, Nat.sub_le_iff_le_add, ← Nat.mul_succ]
      exact h
    rw [blocks, List.flatMap_cons, bytes_ofFit, ih _ hrest]
    exact fit_append_drop bs h

end FixedBytes

namespace Predicate

variable {keys : List Hash32} {payload front : Bytes} {b : UInt8} {z : Nat} {items : List Bytes}

/-! ### Storage keys -/

/-- The bytes of the keys: the payload, the delimiter, and fewer zeros than a key has bytes. -/
theorem flatMap_pack (payload : Bytes) :
    (pack payload).flatMap (·.bytes) =
      payload ++ delimiter :: List.replicate (31 - payload.length % 32) 0 := by
  have hlength : (payload ++ [delimiter]).length = payload.length + 1 := List.length_append
  have hfit : (payload ++ [delimiter]).length ≤ 32 * (payload.length / 32 + 1) := by omega
  have hzeros : 32 * (payload.length / 32 + 1) - (payload ++ [delimiter]).length =
      31 - payload.length % 32 := by omega
  rw [pack, FixedBytes.flatMap_blocks 32 _ _ hfit, hzeros, List.append_assoc, List.singleton_append]

theorem dropWhile_replicate_zero (n : Nat) (rest : Bytes) :
    (List.replicate n (0 : UInt8) ++ rest).dropWhile (· == 0) = rest.dropWhile (· == 0) := by
  induction n with
  | zero => rfl
  | succ n ih =>
    rw [List.replicate_succ, List.cons_append, List.dropWhile_cons_of_pos (by rfl), ih]

/-- From its end, the first byte of a string that is not zero. -/
theorem dropWhile_reverse_of_last (hb : b ≠ 0) (front : Bytes) (z : Nat) :
    (front ++ b :: List.replicate z 0).reverse.dropWhile (· == 0) = b :: front.reverse := by
  rw [List.reverse_append, List.reverse_cons, List.reverse_replicate, List.append_assoc,
    dropWhile_replicate_zero]
  exact List.dropWhile_cons_of_neg (by simpa using hb)

/-- The last byte that is not zero decides, and how many zeros follow it. -/
theorem unpack_of_last (hb : b ≠ 0) (h : keys.flatMap (·.bytes) = front ++ b :: List.replicate z 0) :
    unpack keys =
      if b ≠ delimiter then .error (.packing .missingDelimiter)
      else if 31 < z then .error (.packing .excessPadding)
      else .ok front := by
  have hreverse : (keys.flatMap (·.bytes)).reverse.dropWhile (· == 0) = b :: front.reverse := by
    rw [h, dropWhile_reverse_of_last hb]
  have hpadding : (keys.flatMap (·.bytes)).length - front.reverse.length > 32 ↔ 31 < z := by
    rw [h, List.length_append, List.length_cons, List.length_replicate, List.length_reverse]
    omega
  unfold unpack
  split
  · cases front with
    | nil => cases h
    | cons x front => cases h
  · simp only [hreverse, hpadding, List.reverse_reverse]

/-- A payload is recovered from the keys that carry it. -/
theorem unpack_pack (payload : Bytes) : unpack (pack payload) = .ok payload := by
  have hpadding : ¬ 31 < 31 - payload.length % 32 := by omega
  rw [unpack_of_last (by decide) (flatMap_pack payload), if_neg (not_not_intro rfl), if_neg hpadding]

/-! ### Lists of byte strings -/

/-- A list is read as far as items stand in it, and each of them must be a byte string. -/
theorem decodeList_listOf (h : payload.length < 2 ^ 64) :
    decodeList (Rlp.listOf payload) =
      ((Rlp.elements (Rlp.listOf payload)).mapM Rlp.bytesOf).mapError .rlp := by
  have htotal : Rlp.Header.total ⟨(Rlp.lengthHeader 0xc0 0xf7 payload.length).length, payload.length⟩ =
      (Rlp.listOf payload).length :=
    (Rlp.length_listOf payload).symm
  unfold decodeList
  rw [if_pos (Rlp.isList_listOf h), Rlp.header_listOf h, Steps.mapError_ok, Steps.ok_bind,
    if_neg (not_not_intro htotal)]

/-- The byte strings of a list are recovered from its encoding. -/
theorem decodeList_encodeList (h : (encodeList items).length < 2 ^ 64) :
    decodeList (encodeList items) = .ok items := by
  have hflatten := Nat.lt_of_le_of_lt (Rlp.length_flatten_le (items.map Rlp.encodeBytes)) h
  have hitems := Rlp.mapM_bytesOf_elements h
  rw [Rlp.encodeList_eq] at hitems
  rw [encodeList, Rlp.encodeList_eq, decodeList_listOf hflatten, hitems, Steps.mapError_ok]

end Predicate

end Interchain
