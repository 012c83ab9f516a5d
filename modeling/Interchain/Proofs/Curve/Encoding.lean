import Interchain.Proofs.Curve.BaseField
import Interchain.Proofs.Steps

/-!
# Encoded points of the first group

A string of 48 bytes is decoded to infinity or to a point of the curve `y² = x³ + 4`. Each point of the curve is
decoded from its encoding, and a point whose second coordinate is not zero from no other string. A point on the axis
would have no sign, and two strings; its order is even, so there is none in the subgroup
(`G1.Denotes.ne_affine_zero`).

The header bits do not touch the coordinate because 381 bits leave three in 48 bytes. What they are for a given
first byte is tried for all 256. The encoding of the second group is not treated.
-/

namespace Interchain

/-! ### Header bits -/

theorem length_withHeader (large : Bool) (bs : Bytes) : (withHeader large bs).length = bs.length := by
  cases bs with
  | nil => rfl
  | cons b rest => rfl

/-- What the 256 bytes have been tried for holds of every byte. -/
theorem forall_byte {P : UInt8 → Prop} (h : ∀ n ∈ List.range 256, P (UInt8.ofNat n)) (b : UInt8) : P b := by
  have hb := h b.toNat (List.mem_range.2 b.toNat_lt)
  rwa [UInt8.ofNat_toNat] at hb

section Bytes

variable {b : UInt8} {rest coordinate : Bytes} {large : Bool}

theorem readHeader_cons_eq_none_iff :
    readHeader (b :: rest) = .ok none ↔ b = 0xc0 ∧ rest.all (· == 0) = true := by
  have hbyte : ∀ b : UInt8, b = 0xc0 ↔ b &&& 0x80 ≠ 0 ∧ b &&& 0x40 ≠ 0 ∧ b &&& 0x3f = 0 :=
    forall_byte (by decide +kernel)
  rw [hbyte, readHeader]
  split
  · next hcompressed => simp [hcompressed]
  · next hcompressed =>
    split
    · next hinfinity =>
      split
      · next hzero => exact ⟨fun _ => ⟨⟨hcompressed, hinfinity, hzero.1⟩, hzero.2⟩, fun _ => rfl⟩
      · next hzero => exact ⟨fun h => (by cases h), fun h => absurd ⟨h.1.2.2, h.2⟩ hzero⟩
    · next hfinite => simp [hfinite]

theorem readHeader_cons_eq_some_iff :
    readHeader (b :: rest) = .ok (some (large, coordinate)) ↔
      b &&& 0x80 ≠ 0 ∧ b &&& 0x40 = 0 ∧ decide (b &&& 0x20 ≠ 0) = large ∧ (b &&& 0x1f) :: rest = coordinate := by
  rw [readHeader]
  split
  · next hcompressed => simp [hcompressed]
  · next hcompressed =>
    split
    · next hinfinity => split <;> simp [hinfinity]
    · next hfinite => simp [hcompressed, not_not.1 hfinite]

/-- The top three bits of the first byte are free for the header. -/
theorem readHeader_withHeader (large : Bool) (rest : Bytes) (hb : b < 32) :
    readHeader (withHeader large (b :: rest)) = .ok (some (large, b :: rest)) := by
  have hbyte : ∀ b : UInt8, b < 32 → ∀ large ∈ [false, true],
      let c := b ||| (if large then 0xa0 else 0x80)
      c &&& 0x80 ≠ 0 ∧ c &&& 0x40 = 0 ∧ decide (c &&& 0x20 ≠ 0) = large ∧ c &&& 0x1f = b :=
    forall_byte (by decide +kernel)
  obtain ⟨hcompressed, hfinite, hlarge, hcoordinate⟩ := hbyte b hb large (by cases large <;> decide)
  exact readHeader_cons_eq_some_iff.2 ⟨hcompressed, hfinite, hlarge, by rw [hcoordinate]⟩

/-- Header bits and coordinate make up the whole string. -/
theorem withHeader_of_readHeader {bs : Bytes} (h : readHeader bs = .ok (some (large, coordinate))) :
    withHeader large coordinate = bs := by
  have hbyte : ∀ b : UInt8, b &&& 0x80 ≠ 0 → b &&& 0x40 = 0 →
      b &&& 0x1f ||| (if b &&& 0x20 ≠ 0 then 0xa0 else 0x80) = b :=
    forall_byte (by decide +kernel)
  cases bs with
  | nil => cases h
  | cons b rest =>
    obtain ⟨hcompressed, hfinite, rfl, rfl⟩ := readHeader_cons_eq_some_iff.1 h
    simp only [withHeader, decide_eq_true_eq]
    rw [hbyte b hcompressed hfinite]

end Bytes

theorem readHeader_eq_none_iff {e : FixedBytes 48} :
    readHeader e.bytes = .ok none ↔ e = infinityEncoding 48 := by
  constructor
  · intro h
    obtain ⟨bytes, hlength⟩ := e
    cases bytes with
    | nil => cases hlength
    | cons b rest =>
      obtain ⟨rfl, hall⟩ := readHeader_cons_eq_none_iff.1 h
      have hrest : rest = List.replicate 47 0 :=
        List.eq_replicate_iff.2 ⟨Nat.succ.inj hlength, fun c hc => by simpa using List.all_eq_true.1 hall c hc⟩
      subst hrest
      rfl
  · rintro rfl
    rfl

/-! ### Coordinates -/

namespace Fp

theorem toNat_toBytes (x : Fp) : Bytes.toNat x.toBytes = x.val :=
  Bytes.toNat_ofNat_of_lt (Nat.lt_trans x.isLt (by decide))

theorem ofBytes?_toBytes (x : Fp) : ofBytes? x.toBytes = some x := by
  simp [ofBytes?, toNat_toBytes]

theorem toBytes_of_ofBytes? {bs : Bytes} {x : Fp} (hlength : bs.length = 48) (h : ofBytes? bs = some x) :
    x.toBytes = bs := by
  simp only [ofBytes?] at h
  split at h
  · cases h
    rw [toBytes, ← hlength, Bytes.ofNat_toNat]
  · cases h

/-- Five bits of the first byte are enough. -/
theorem exists_toBytes_eq_cons (x : Fp) : ∃ b rest, x.toBytes = b :: rest ∧ b < 32 := by
  have hlength : x.toBytes.length = 48 := Bytes.length_ofNat 48 x.val
  have hvalue := toNat_toBytes x
  cases hbytes : x.toBytes with
  | nil =>
    rw [hbytes] at hlength
    cases hlength
  | cons b rest =>
    rw [hbytes] at hlength hvalue
    obtain hrest : rest.length = 47 := Nat.succ.inj hlength
    refine ⟨b, rest, rfl, UInt8.lt_iff_toNat_lt.2 ?_⟩
    rw [Bytes.toNat_cons, hrest] at hvalue
    have hlt : b.toNat * 256 ^ 47 < 32 * 256 ^ 47 :=
      calc b.toNat * 256 ^ 47 ≤ x.val := hvalue ▸ Nat.le_add_right _ _
        _ < fieldPrime := x.isLt
        _ < 32 * 256 ^ 47 := by decide
    exact Nat.lt_of_mul_lt_mul_right hlt

end Fp

/-! ### Points -/

namespace G1

/-- The group of the curve `y² = x³ + 4`. -/
abbrev Group := (curve (4 : ZMod fieldPrime)).Point

/-- The point of the curve with these coordinates. -/
abbrev Denotes (p : G1) (P : Group) : Prop := Point.Denotes Fp.embedding p P

variable {p : G1} {P : Group} {x y : Fp} {e : FixedBytes 48}

theorem equation_iff : Fp.toZMod y ^ 2 = Fp.toZMod x ^ 3 + 4 ↔ y * y = x * x * x + 4 := by
  have hfour : Fp.toZMod 4 = 4 := rfl
  rw [← Fp.toZMod_injective.eq_iff, Fp.toZMod_add, Fp.toZMod_mul, Fp.toZMod_mul, Fp.toZMod_mul, hfour, sq, pow_succ, sq]

/-- The solutions of the equation are the points other than infinity. -/
theorem exists_denotes_affine (h : y * y = x * x * x + 4) : ∃ P : Group, Denotes (.affine x y) P := by
  have h2 : (2 : ZMod fieldPrime) ≠ 0 := by decide
  have h3 : (3 : ZMod fieldPrime) ≠ 0 := by decide
  have h4 : (4 : ZMod fieldPrime) ≠ 0 := by decide
  exact ⟨_, .affine (curve_nonsingular h2 h3 h4 (equation_iff.2 h))⟩

/-- A string is decoded to infinity, or to the root of the right sign over its coordinate. -/
theorem decode_eq_ok_iff : decode e = .ok p ↔
    (readHeader e.bytes = .ok none ∧ p = .infinity) ∨
      ∃ large coordinate x y, readHeader e.bytes = .ok (some (large, coordinate)) ∧
        Fp.ofBytes? coordinate = some x ∧ Fp.sqrt? (x * x * x + 4) = some y ∧
          p = .affine x (if y.isLarge = large then y else 0 - y) := by
  cases hheader : readHeader e.bytes with
  | error cause => simp [decode, hheader, bind, Except.bind]
  | ok header =>
    cases header with
    | none => simp [decode, hheader, pure, Except.pure, eq_comm]
    | some parts =>
      obtain ⟨large, coordinate⟩ := parts
      cases hx : Fp.ofBytes? coordinate with
      | none => simp [decode, hheader, hx, throw, throwThe, MonadExceptOf.throw]
      | some x =>
        cases hy : Fp.sqrt? (x * x * x + 4) with
        | none => simp [decode, hheader, hx, hy]
        | some y => simp [decode, hheader, hx, hy, pure, Except.pure, eq_comm]

/-- What is decoded lies on the curve. -/
theorem denotes_decode (h : decode e = .ok p) : ∃ P, Denotes p P := by
  rcases decode_eq_ok_iff.1 h with ⟨-, rfl⟩ | ⟨large, coordinate, x, y, -, -, hy, rfl⟩
  · exact ⟨0, .infinity⟩
  · have hyy : y * y = x * x * x + 4 := Fp.mul_self_of_sqrt? hy
    split
    · exact exists_denotes_affine hyy
    · have hneg : (0 - y) * (0 - y) = y * y := by
        refine Fp.toZMod_injective ?_
        simp only [Fp.toZMod_mul, Fp.toZMod_sub, Fp.toZMod_zero]
        ring
      exact exists_denotes_affine (hneg.trans hyy)

theorem bytes_encode_affine (x y : Fp) : (encode (.affine x y)).bytes = withHeader y.isLarge x.toBytes := by
  refine Bytes.fit_of_length_eq ?_
  rw [length_withHeader]
  exact Bytes.length_ofNat 48 x.val

/-- A string that is decoded is the encoding of its point, if the second coordinate has a sign. -/
theorem encode_decode (h : decode e = .ok p) (hp : ∀ x, p ≠ .affine x 0) : encode p = e := by
  rcases decode_eq_ok_iff.1 h with ⟨hheader, rfl⟩ | ⟨large, coordinate, x, y, hheader, hx, -, rfl⟩
  · exact (readHeader_eq_none_iff.1 hheader).symm
  · have hbytes := withHeader_of_readHeader hheader
    have hlength : coordinate.length = 48 := by
      rw [← length_withHeader large, hbytes, e.length_bytes]
    refine FixedBytes.ext ?_
    rw [bytes_encode_affine, Fp.toBytes_of_ofBytes? hlength hx, Fp.isLarge_signed fun h0 => hp x (by rw [h0]), hbytes]

/-- Every point of the curve is decoded from its encoding. -/
theorem decode_encode (hp : Denotes p P) : decode (encode p) = .ok p := by
  rw [decode_eq_ok_iff]
  cases hp with
  | infinity => exact .inl ⟨readHeader_eq_none_iff.2 rfl, rfl⟩
  | @affine x y h =>
    have hequation : y * y = x * x * x + 4 := equation_iff.1 (curve_equation_iff.1 h.1)
    obtain ⟨r, hr, hsign⟩ := Fp.sqrt?_mul_self y
    obtain ⟨b, rest, hbytes, hb⟩ := x.exists_toBytes_eq_cons
    have hheader : readHeader (encode (.affine x y)).bytes = .ok (some (y.isLarge, x.toBytes)) := by
      rw [bytes_encode_affine, hbytes, readHeader_withHeader _ _ hb]
    exact .inr ⟨y.isLarge, x.toBytes, x, r, hheader, x.ofBytes?_toBytes, hequation ▸ hr, by rw [Fp.eq_of_isLarge hsign]⟩

/-- Points of odd order have a sign. -/
theorem Denotes.ne_affine_zero (hp : Denotes p P) (hP : groupOrder • P = 0) (x : Fp) : p ≠ .affine x 0 := by
  rintro rfl
  cases hp with
  | affine h =>
    have htwice : (.some _ _ h : Group) + .some _ _ h = 0 := by
      refine WeierstrassCurve.Affine.Point.add_self_of_Y_eq ?_
      rw [curve_negY]
      exact Fp.embedding.map_zero ▸ neg_zero.symm
    have hodd : groupOrder = 2 * (groupOrder / 2) + 1 := by decide
    rw [hodd, succ_nsmul, mul_nsmul, two_nsmul, htwice, nsmul_zero, zero_add] at hP
    exact WeierstrassCurve.Affine.Point.some_ne_zero h hP

theorem decode_eq_infinity_iff : decode e = .ok .infinity ↔ e = infinityEncoding 48 := by
  rw [decode_eq_ok_iff, readHeader_eq_none_iff]
  constructor
  · rintro (⟨he, -⟩ | ⟨_, _, _, _, -, -, -, h⟩)
    · exact he
    · cases h
  · exact fun he => .inl ⟨he, rfl⟩

end G1

end Interchain
