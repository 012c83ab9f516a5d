import Interchain.Proofs.AccessList.Packing

/-!
# Which keys carry a payload

The bytes of a list of keys end in zeros. What stands before these zeros decides what is read: no keys at all are
the empty payload, and all other keys are read exactly if they are the packing of what is read. So a payload has one
packing and no others (`Predicate.unpack_exact`), though the empty payload may also come without keys.

The three errors are not told apart by the main result. Which of them is reported follows from the last byte that is
not zero, by `Predicate.unpack_of_zeros` and by `Predicate.unpack_of_last`.
-/

namespace Interchain.Predicate

variable {keys : List Hash32} {payload front : Bytes} {b : UInt8} {z : Nat}

/-! ### The end of the keys -/

theorem zeros_or_exists_last (bs : Bytes) :
    bs = List.replicate bs.length 0 ∨
      ∃ front b z, b ≠ 0 ∧ bs = front ++ b :: List.replicate z 0 := by
  induction bs with
  | nil => exact .inl rfl
  | cons x bs ih =>
    rcases ih with hzeros | ⟨front, b, z, hb, hlast⟩
    · by_cases hx : x = 0
      · left
        rw [List.length_cons, List.replicate_succ, ← hzeros, hx]
      · exact .inr ⟨[], x, bs.length, hx, congrArg (x :: ·) hzeros⟩
    · exact .inr ⟨x :: front, b, z, hb, congrArg (x :: ·) hlast⟩

theorem unpack_of_zeros (hne : keys ≠ []) {n : Nat} (h : keys.flatMap (·.bytes) = List.replicate n 0) :
    unpack keys = .error (.packing .allZero) := by
  have hreverse : (keys.flatMap (·.bytes)).reverse.dropWhile (· == 0) = [] := by
    have hnil := dropWhile_replicate_zero n []
    rwa [List.append_nil, ← List.reverse_replicate, ← h] at hnil
  unfold unpack
  split
  · next hnil => exact absurd rfl hne
  · simp only [hreverse]

/-! ### Exactly the packings -/

/-- With fewer zeros than a key has bytes, the string is as long as the packing and so the same. -/
theorem eq_pack_of_last (h : keys.flatMap (·.bytes) = payload ++ delimiter :: List.replicate z 0)
    (hz : z ≤ 31) : keys = pack payload := by
  have hlength : 32 * keys.length = payload.length + 1 + z := by
    rw [← FixedBytes.length_flatMap_bytes, h, List.length_append, List.length_cons, List.length_replicate]
    omega
  have hcount : keys.length = payload.length / 32 + 1 := by omega
  have hzeros : z = 31 - payload.length % 32 := by omega
  refine FixedBytes.eq_of_flatMap_bytes (hcount.trans (length_pack payload).symm) ?_
  rw [h, flatMap_pack, hzeros]

/-- What is read from keys has been packed in them. -/
theorem eq_pack_of_unpack (hne : keys ≠ []) (h : unpack keys = .ok payload) : keys = pack payload := by
  rcases zeros_or_exists_last (keys.flatMap (·.bytes)) with hzeros | ⟨front, b, z, hb, hlast⟩
  · rw [unpack_of_zeros hne hzeros] at h
    cases h
  · rw [unpack_of_last hb hlast] at h
    split at h
    · cases h
    · next hdelimiter =>
      split at h
      · cases h
      · next hz =>
        obtain rfl := Except.ok.inj h
        rw [Decidable.not_not.1 hdelimiter] at hlast
        exact eq_pack_of_last hlast (Nat.le_of_not_lt hz)

/-- Only a packing can be at fault when keys are not read. -/
theorem unpack_eq_ok_or_error (keys : List Hash32) :
    (∃ payload, unpack keys = .ok payload) ∨ ∃ cause, unpack keys = .error (.packing cause) := by
  by_cases hne : keys = []
  · exact .inl ⟨[], by rw [hne]; rfl⟩
  rcases zeros_or_exists_last (keys.flatMap (·.bytes)) with hzeros | ⟨front, b, z, hb, hlast⟩
  · exact .inr ⟨_, unpack_of_zeros hne hzeros⟩
  · rw [unpack_of_last hb hlast]
    split
    · exact .inr ⟨_, rfl⟩
    · split
      · exact .inr ⟨_, rfl⟩
      · exact .inl ⟨_, rfl⟩

theorem unpack_eq_ok_iff : unpack keys = .ok payload ↔ keys = pack payload ∨ (keys = [] ∧ payload = []) := by
  constructor
  · intro h
    by_cases hne : keys = []
    · rw [hne] at h
      exact .inr ⟨hne, (Except.ok.inj h).symm⟩
    · exact .inl (eq_pack_of_unpack hne h)
  · rintro (rfl | ⟨rfl, rfl⟩)
    · exact unpack_pack payload
    · rfl

theorem pack_inj {p q : Bytes} : pack p = pack q ↔ p = q := by
  refine ⟨fun h => ?_, congrArg pack⟩
  have hp := unpack_pack p
  rw [h, unpack_pack q] at hp
  exact (Except.ok.inj hp).symm

theorem unpack_eq_error_iff :
    (∃ cause, unpack keys = .error (.packing cause)) ↔ keys ≠ [] ∧ ∀ payload, keys ≠ pack payload := by
  constructor
  · rintro ⟨cause, h⟩
    refine ⟨?_, ?_⟩
    · rintro rfl
      cases h
    · rintro payload rfl
      rw [unpack_pack] at h
      cases h
  · rintro ⟨hne, hpack⟩
    rcases unpack_eq_ok_or_error keys with ⟨payload, h⟩ | h
    · exact absurd (eq_pack_of_unpack hne h) (hpack payload)
    · exact h

/-- Keys are read as a payload exactly if they are its packing, or if there are no keys and the payload is empty. So
each payload has one packing, of a size that its length fixes, and all other keys are refused. -/
theorem unpack_exact :
    (∀ keys payload, unpack keys = .ok payload ↔ keys = pack payload ∨ (keys = [] ∧ payload = [])) ∧
    (∀ payload, unpack (pack payload) = .ok payload ∧ (pack payload).length = payload.length / 32 + 1) ∧
    (∀ p q, pack p = pack q ↔ p = q) ∧
    ∀ keys, (∃ cause, unpack keys = .error (.packing cause)) ↔ keys ≠ [] ∧ ∀ payload, keys ≠ pack payload := by
  refine ⟨fun _ _ => unpack_eq_ok_iff, fun payload => ⟨?_, ?_⟩, fun _ _ => pack_inj, fun _ => unpack_eq_error_iff⟩
  · exact unpack_pack payload
  · exact length_pack payload

/-- A payload may itself end in the delimiter and zeros. -/
example : (unpack (pack [7, delimiter, 0])).toOption = some [7, delimiter, 0] := by decide

end Interchain.Predicate
