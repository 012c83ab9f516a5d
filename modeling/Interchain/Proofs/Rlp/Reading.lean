import Interchain.Proofs.Rlp

/-!
# What reading establishes

Headers and items have one written form each, so whatever is read was written that way. For headers this is because
a length has no leading zero and the short form is used where it can be; both are checked by the reader.

`Rlp.Form` has the three forms of an item, and `Rlp.form_of_split` says that no other string is read as one. A byte
that needs no header is an item with a header as well, but is then refused when its content is asked for
(`Rlp.bytesOf_eq_ok_iff`). What reading leaves of a string is at the end.
-/

namespace Interchain

/-! ### Digits of a length -/

namespace Bytes

variable {b : UInt8} {digits bs : Bytes}

theorem length_le_of_toNat_eq (hb : b ≠ 0) (h : toNat (b :: digits) = toNat bs) :
    (b :: digits).length ≤ bs.length := by
  have hpow : 256 ^ digits.length < 256 ^ bs.length := by
    calc 256 ^ digits.length ≤ toNat (b :: digits) := pow_le_toNat_cons hb digits
      _ = toNat bs := h
      _ < 256 ^ bs.length := toNat_lt bs
  exact (Nat.pow_lt_pow_iff_right (by decide)).1 hpow

/-- Digits without a leading zero are those of their value. -/
theorem ofNatTrim_toNat (hb : b ≠ 0) (digits : Bytes) : ofNatTrim (toNat (b :: digits)) = b :: digits := by
  have hpos : 0 < toNat (b :: digits) :=
    Nat.lt_of_lt_of_le (Nat.pow_pos (by decide)) (pow_le_toNat_cons hb digits)
  obtain ⟨b', digits', hd, hb'⟩ := exists_ofNatTrim_eq_cons hpos
  have hvalue : toNat (b' :: digits') = toNat (b :: digits) := by rw [← hd, toNat_ofNatTrim]
  rw [hd]
  exact toNat_inj (Nat.le_antisymm (length_le_of_toNat_eq hb' hvalue) (length_le_of_toNat_eq hb hvalue.symm))
    hvalue

end Bytes

namespace Rlp

variable {item rest payload bs : Bytes} {n k : Nat} {short long b : UInt8} {hd : Header}

/-! ### Headers -/

/-- A length behind the first byte is read only from the digits that are written for it. -/
theorem longHeader_eq_ok (h : longHeader rest k = .ok hd) :
    ∃ n tail, 55 < n ∧ rest = Bytes.ofNatTrim n ++ tail ∧ k = (Bytes.ofNatTrim n).length ∧
      hd = ⟨1 + k, n⟩ := by
  cases rest with
  | nil => cases h
  | cons b rest =>
    simp only [longHeader] at h
    split at h
    · cases h
    next hb =>
    split at h
    · cases h
    next hlength =>
    split at h
    · cases h
    next hvalue =>
    cases k with
    | zero => exact absurd (Nat.zero_le 55) hvalue
    | succ k =>
      have hdigits : Bytes.ofNatTrim (Bytes.toNat ((b :: rest).take (k + 1))) = (b :: rest).take (k + 1) :=
        Bytes.ofNatTrim_toNat hb (rest.take k)
      refine ⟨_, (b :: rest).drop (k + 1), Nat.lt_of_not_le hvalue, ?_, ?_, (Except.ok.inj h).symm⟩
      · rw [hdigits, List.take_append_drop]
      · rw [hdigits]
        have hle := List.length_take_le (k + 1) (b :: rest)
        omega

/-- A header, and a string at whose front it is written. -/
inductive Heads : Header → Bytes → Prop where
  | byte {b : UInt8} (hb : b < 0x80) (rest : Bytes) : Heads ⟨0, 1⟩ (b :: rest)
  | length {short long : UInt8} {n : Nat} (hkind : IsKind short long) (hn : n < 2 ^ 64) (rest : Bytes) :
    Heads ⟨(lengthHeader short long n).length, n⟩ (lengthHeader short long n ++ rest)

theorem heads_short (hkind : IsKind short long) (hb : b.toNat = short.toNat + n) (h : n ≤ 55) (rest : Bytes) :
    Heads ⟨1, n⟩ (b :: rest) := by
  have hbyte : short + UInt8.ofNat n = b := UInt8.toNat_inj.1 ((hkind.toNat_add_of_le h).trans hb.symm)
  have hform : lengthHeader short long n = [b] := by rw [lengthHeader, if_pos h, hbyte]
  have hheads := Heads.length hkind (Nat.lt_of_le_of_lt h (by decide)) rest
  rwa [hform] at hheads

theorem heads_long (hkind : IsKind short long) (hb : b.toNat = long.toNat + k) (hk : k ≤ 8)
    (h : longHeader rest k = .ok hd) : Heads hd (b :: rest) := by
  obtain ⟨n, tail, hn, rfl, hlength, rfl⟩ := longHeader_eq_ok h
  have hbyte : long + UInt8.ofNat k = b := UInt8.toNat_inj.1 ((hkind.long_toNat_add_of_le hk).trans hb.symm)
  have hform : lengthHeader short long n = b :: Bytes.ofNatTrim n := by
    rw [lengthHeader, if_neg (Nat.not_le_of_lt hn)]
    show (long + UInt8.ofNat (Bytes.ofNatTrim n).length) :: Bytes.ofNatTrim n = _
    rw [← hlength, hbyte]
  have hlt : n < 2 ^ 64 := by
    have hvalue := Bytes.toNat_lt (Bytes.ofNatTrim n)
    rw [Bytes.toNat_ofNatTrim, ← hlength] at hvalue
    exact Nat.lt_of_lt_of_le hvalue (Nat.pow_le_pow_right (by decide) hk)
  have hheads := Heads.length hkind hlt tail
  rwa [hform, List.length_cons, ← hlength, Nat.add_comm] at hheads

/-- A header is read only where it is written. -/
theorem heads_of_header? (h : header? bs = .ok hd) : Heads hd bs := by
  cases bs with
  | nil => cases h
  | cons b rest =>
    have hlt := b.toNat_lt
    simp only [header?] at h
    split at h
    · next hb =>
      obtain rfl := Except.ok.inj h
      exact .byte (UInt8.lt_iff_toNat_lt.2 hb) rest
    next hbyte =>
    split at h
    · next hb =>
      obtain rfl := Except.ok.inj h
      exact heads_short (.inl ⟨rfl, rfl⟩) (n := b.toNat - 0x80)
        (by show b.toNat = 0x80 + _; omega) (by omega) rest
    next hstring =>
    split at h
    · next hb => exact heads_long (.inl ⟨rfl, rfl⟩) (by show b.toNat = 0xb7 + _; omega) (by omega) h
    next hlong =>
    split at h
    · next hb =>
      obtain rfl := Except.ok.inj h
      exact heads_short (.inr ⟨rfl, rfl⟩) (n := b.toNat - 0xc0)
        (by show b.toNat = 0xc0 + _; omega) (by omega) rest
    · exact heads_long (.inr ⟨rfl, rfl⟩) (by show b.toNat = 0xf7 + _; omega) (by omega) h

/-! ### Items -/

/-- The forms of an item. -/
inductive Form : Bytes → Prop where
  | byte {b : UInt8} (hb : b < 0x80) : Form [b]
  | string {content : Bytes} (h : content.length < 2 ^ 64) :
    Form (lengthHeader 0x80 0xb7 content.length ++ content)
  | list {payload : Bytes} (h : payload.length < 2 ^ 64) : Form (listOf payload)

theorem Form.isItem (h : Form item) : IsItem item := by
  cases h with
  | @byte b hb =>
    have hlt : [b].length < 2 ^ 64 := Nat.one_lt_two_pow (by decide)
    have hitem := isItem_encodeBytes hlt
    rwa [encodeBytes_of_isPlain ⟨b, rfl, hb⟩] at hitem
  | string h => exact isItem_lengthHeader (.inl ⟨rfl, rfl⟩) h
  | list h => exact isItem_lengthHeader (.inr ⟨rfl, rfl⟩) h

theorem header_eq_ok (h : header bs = .ok hd) : header? bs = .ok hd ∧ hd.total ≤ bs.length := by
  obtain ⟨hd', hheader, h⟩ := Steps.bind_eq_ok_iff.1 h
  obtain ⟨hlength, h⟩ := Steps.guard_eq_ok_iff.1 h
  obtain rfl := Steps.pure_eq_ok_iff.1 h
  rw [List.length_take] at hlength
  exact ⟨hheader, by omega⟩

/-- An item is read only where one of its forms is written. -/
theorem form_of_split (h : split bs = .ok (item, rest)) : Form item := by
  obtain ⟨hd, hheader, h⟩ := Steps.bind_eq_ok_iff.1 h
  obtain ⟨rfl, -⟩ := Prod.mk.inj (Steps.pure_eq_ok_iff.1 h)
  obtain ⟨hheader?, hle⟩ := header_eq_ok hheader
  cases heads_of_header? hheader? with
  | byte hb tail => exact .byte hb
  | @length short long n hkind hn tail =>
    have hle : (lengthHeader short long n).length + n ≤ (lengthHeader short long n ++ tail).length := hle
    rw [List.length_append] at hle
    have hpayload : (tail.take n).length = n := by
      rw [List.length_take]
      omega
    have hitem : (lengthHeader short long n ++ tail).take ((lengthHeader short long n).length + n) =
        lengthHeader short long (tail.take n).length ++ tail.take n := by
      rw [hpayload, List.take_length_add_append]
    have hlt : (tail.take n).length < 2 ^ 64 := by rwa [hpayload]
    rw [Header.total, hitem]
    rcases hkind with ⟨rfl, rfl⟩ | ⟨rfl, rfl⟩
    · exact .string hlt
    · exact .list hlt

theorem form_of_header (h : header bs = .ok hd) (htotal : hd.total = bs.length) : Form bs := by
  have hsplit : split bs = .ok (bs, []) := by
    rw [split, h, Steps.ok_bind, htotal, List.take_length, List.drop_length]
    rfl
  exact form_of_split hsplit

/-- Of the three forms, the first byte tells the list. -/
theorem Form.exists_listOf (h : Form item) (hlist : isList item = true) :
    ∃ payload, payload.length < 2 ^ 64 ∧ item = listOf payload := by
  cases h with
  | @byte b hb =>
    rw [isList_of_isPlain ⟨b, rfl, hb⟩] at hlist
    cases hlist
  | string h =>
    rw [isList_string h] at hlist
    cases hlist
  | @list payload h => exact ⟨payload, h, rfl⟩

/-! ### Content of a byte string -/

theorem bytesOf_listOf (h : payload.length < 2 ^ 64) : bytesOf (listOf payload) = .error .expectedData := by
  unfold bytesOf
  rw [if_pos (isList_listOf h)]
  rfl

/-- The content of an item is what the item encodes. -/
theorem bytesOf_eq_ok_iff (h : Form item) :
    bytesOf item = .ok bs ↔ item = encodeBytes bs ∧ bs.length < 2 ^ 64 := by
  constructor
  · intro hread
    cases h with
    | @byte b hb =>
      have hform : encodeBytes [b] = [b] := encodeBytes_of_isPlain ⟨b, rfl, hb⟩
      have hlt : [b].length < 2 ^ 64 := Nat.one_lt_two_pow (by decide)
      have hcontent := bytesOf_encodeBytes hlt
      rw [hform, hread] at hcontent
      obtain rfl := Except.ok.inj hcontent
      exact ⟨hform.symm, hlt⟩
    | @string content h =>
      by_cases hplain : IsPlain content
      · -- a byte that stands for itself is refused behind a header
        obtain ⟨b, rfl, hb⟩ := hplain
        have hrefused : bytesOf [0x81, b] = .error .invalidIndirection := if_pos hb
        exact absurd (hrefused.symm.trans hread) nofun
      · have hform := encodeBytes_of_not_isPlain hplain
        have hcontent := bytesOf_encodeBytes h
        rw [hform, hread] at hcontent
        obtain rfl := Except.ok.inj hcontent
        exact ⟨hform.symm, h⟩
    | list h =>
      rw [bytesOf_listOf h] at hread
      cases hread
  · rintro ⟨rfl, hlt⟩
    exact bytesOf_encodeBytes hlt

/-! ### Items one behind the other -/

/-- Items are read up to where no item stands. -/
theorem exists_unread {fuel : Nat} (hfuel : bs.length ≤ fuel) :
    ∃ rest, Stops rest ∧ (∀ x ∈ itemsFrom fuel bs, Form x) ∧ bs = (itemsFrom fuel bs).flatten ++ rest := by
  induction fuel generalizing bs with
  | zero =>
    obtain rfl := List.eq_nil_of_length_eq_zero (Nat.le_zero.1 hfuel)
    exact ⟨[], stops_nil, List.forall_mem_nil _, rfl⟩
  | succ fuel ih =>
    rw [itemsFrom]
    cases hsplit : split bs with
    | error e =>
      refine ⟨bs, fun r hr => ?_, List.forall_mem_nil _, rfl⟩
      rw [hsplit] at hr
      cases hr
    | ok r =>
      obtain ⟨item, tail⟩ := r
      have hform := form_of_split hsplit
      have hbs := append_of_split hsplit
      have hpos : 0 < item.length := List.length_pos_iff.2 hform.isItem.ne_nil
      have htail : tail.length ≤ fuel := by
        rw [hbs, List.length_append] at hfuel
        omega
      obtain ⟨rest, hrest, hforms, hflatten⟩ := ih htail
      refine ⟨rest, hrest, List.forall_mem_cons.2 ⟨hform, hforms⟩, ?_⟩
      rw [List.flatten_cons, List.append_assoc, ← hflatten]
      exact hbs

end Rlp

end Interchain
