import Interchain.Bytes.Hex

/-!
# Hexadecimal text read back

Hexadecimal text is read back as the bytes it was written from, with or without its marker. As text is read by its
UTF-8 bytes, the digits are first seen to be one byte each. What is read from other texts, upper-case digits among
them, is not treated.
-/

namespace Interchain.Hex

variable {n : Nat} {c : Char}

/-- The UTF-8 form of the digit for a number below sixteen. -/
def digitByte (n : Nat) : UInt8 :=
  UInt8.ofNat (digit n).toNat

theorem utf8_digit (h : n < 16) : String.utf8EncodeChar (digit n) = [digitByte n] := by
  have hall : ∀ m ∈ List.range 16, String.utf8EncodeChar (digit m) = [digitByte m] := by decide
  exact hall n (List.mem_range.2 h)

theorem digit?_digitByte (h : n < 16) : digit? (digitByte n) = some n := by
  have hall : ∀ m ∈ List.range 16, digit? (digitByte m) = some m := by decide
  exact hall n (List.mem_range.2 h)

theorem digitAt_digitByte (h : n < 16) (i : Nat) : digitAt (digitByte n) i = .ok n := by
  rw [digitAt, digit?_digitByte h]

/-- The digits of a byte string as UTF-8. -/
def digitBytes (bs : Bytes) : Bytes :=
  bs.flatMap fun b => [digitByte (b.toNat / 16), digitByte (b.toNat % 16)]

theorem high_lt (b : UInt8) : b.toNat / 16 < 16 := by
  have := b.toNat_lt
  omega

theorem low_lt (b : UInt8) : b.toNat % 16 < 16 :=
  Nat.mod_lt _ (by decide)

theorem ofString_encode (bs : Bytes) : Bytes.ofString (encode bs) = digitBytes bs := by
  induction bs with
  | nil => rfl
  | cons b bs ih =>
    simp only [Bytes.ofString, encode, String.toList_ofList] at ih
    simp [Bytes.ofString, encode, digitBytes, utf8_digit (high_lt b), utf8_digit (low_lt b), ih]

theorem length_digitBytes (bs : Bytes) : (digitBytes bs).length = 2 * bs.length := by
  induction bs with
  | nil => rfl
  | cons b bs ih =>
    rw [digitBytes, List.flatMap_cons, List.length_append, ← digitBytes, ih, List.length_cons]
    simp only [List.length_cons, List.length_nil]
    omega

theorem decodePairs_digitBytes (bs acc : Bytes) (i : Nat) :
    decodePairs i acc (digitBytes bs) = .ok (acc.reverse ++ bs) := by
  induction bs generalizing acc i with
  | nil => simp [digitBytes, decodePairs]
  | cons b bs ih =>
    have hb : UInt8.ofNat (16 * (b.toNat / 16) + b.toNat % 16) = b := by
      rw [Nat.div_add_mod, UInt8.ofNat_toNat]
    have hnext : decodePairs i acc (digitBytes (b :: bs)) = decodePairs (i + 2) (b :: acc) (digitBytes bs) := by
      simp only [digitBytes, List.flatMap_cons, List.cons_append, List.nil_append, decodePairs]
      rw [digitAt_digitByte (high_lt b), digitAt_digitByte (low_lt b)]
      simp [bind, Except.bind, hb]
    rw [hnext, ih]
    simp

theorem decode_encode (bs : Bytes) : decode (Bytes.ofString (encode bs)) = .ok bs := by
  rw [ofString_encode, decode, length_digitBytes, if_neg (by omega), decodePairs_digitBytes]
  rfl

/-- Hexadecimal text with its marker is read back as the byte string it was written from. -/
theorem decode_dropMarker_encode0x (bs : Bytes) : decode (dropMarker (Bytes.ofString (encode0x bs))) = .ok bs := by
  have hmarker : dropMarker (Bytes.ofString (encode0x bs)) = Bytes.ofString (encode bs) := by
    simp only [Bytes.ofString, encode0x, String.toList_append, List.flatMap_append]
    rfl
  rw [hmarker, decode_encode]

theorem mem_encode {bs : Bytes} (h : c ∈ (encode bs).toList) : ∃ n < 16, c = digit n := by
  simp only [encode, String.toList_ofList, List.mem_flatMap, List.mem_cons, List.not_mem_nil, or_false] at h
  obtain ⟨b, -, rfl | rfl⟩ := h
  · exact ⟨_, high_lt b, rfl⟩
  · exact ⟨_, low_lt b, rfl⟩

end Interchain.Hex
