import Interchain.Proofs.Steps
import Interchain.Rlp
import Mathlib.Algebra.Group.Nat.Defs

/-!
# Reading written items

What was written is read. Items are strings that are read as one item whatever follows them, and written byte
strings and lists are items; so items in a row are read one by one, up to where none stands.

* `Bytes.toNat_ofNatTrim`, `Bytes.length_ofNatTrim_le`: the digits of a length without leading zeros.
* `Rlp.header?_lengthHeader`: a written header is read, whatever follows it.
* `Rlp.IsItem`: with `Rlp.isItem_encodeBytes` and `Rlp.isItem_encodeList` for the two kinds.
* `Rlp.Stops`: a string at whose front no item stands; `Rlp.itemsFrom_flatten_append` reads as far as there.
* `Rlp.listOf`, `Rlp.elements_listOf`: a list by its payload, and the elements of a list.
* `Rlp.bytesOf_encodeBytes`, `Rlp.mapM_elements_encodeList`: the content of a written byte string, and what can be
  read one by one.

All payloads are taken to be shorter than 2⁶⁴ bytes. Beyond that a header has no room for the length.
-/

namespace Interchain

/-! ### Digits of a length -/

namespace Bytes

variable {bs : Bytes} {w n : Nat}

theorem toNat_dropWhile_zero (bs : Bytes) : toNat (bs.dropWhile (· == 0)) = toNat bs := by
  induction bs with
  | nil => rfl
  | cons b bs ih =>
    by_cases hb : b = 0
    · rw [List.dropWhile_cons_of_pos (by simpa using hb), ih, toNat_cons, hb]
      simp
    · rw [List.dropWhile_cons_of_neg (by simpa using hb)]

theorem toNat_ofNatTrim (n : Nat) : toNat (ofNatTrim n) = n := by
  have hlog : n < 2 ^ (n.log2 + 1) := Nat.lt_log2_self
  have hexp : n.log2 + 1 ≤ 8 * (n.log2 / 8 + 1) := by omega
  have hpow : (256 : Nat) ^ (n.log2 / 8 + 1) = 2 ^ (8 * (n.log2 / 8 + 1)) := by
    rw [Nat.pow_mul]
  have hle : 2 ^ (n.log2 + 1) ≤ 2 ^ (8 * (n.log2 / 8 + 1)) :=
    Nat.pow_le_pow_right (by decide) hexp
  rw [ofNatTrim, toNat_dropWhile_zero, toNat_ofNat_of_lt]
  rw [hpow]
  exact Nat.lt_of_lt_of_le hlog hle

theorem pow_le_toNat_cons {b : UInt8} (hb : b ≠ 0) (bs : Bytes) : 256 ^ bs.length ≤ toNat (b :: bs) := by
  have hpos : 1 ≤ b.toNat := Nat.pos_of_ne_zero fun h => hb (UInt8.toNat_inj.1 h)
  rw [toNat_cons]
  calc 256 ^ bs.length = 1 * 256 ^ bs.length := (Nat.one_mul _).symm
    _ ≤ b.toNat * 256 ^ bs.length := Nat.mul_le_mul_right _ hpos
    _ ≤ b.toNat * 256 ^ bs.length + toNat bs := Nat.le_add_right _ _

/-- The digits of a positive number start with one that is not zero. -/
theorem exists_ofNatTrim_eq_cons (h : 0 < n) : ∃ b digits, ofNatTrim n = b :: digits ∧ b ≠ 0 := by
  cases hd : ofNatTrim n with
  | nil =>
    have hzero := toNat_ofNatTrim n
    rw [hd, toNat_nil] at hzero
    omega
  | cons b digits =>
    have hhead := List.head?_dropWhile_not (· == 0) (ofNat (n.log2 / 8 + 1) n)
    rw [← ofNatTrim, hd] at hhead
    exact ⟨b, digits, rfl, by simpa using hhead⟩

theorem length_ofNatTrim_le (hpos : 0 < n) (h : n < 256 ^ w) : (ofNatTrim n).length ≤ w := by
  obtain ⟨b, digits, hd, hb⟩ := exists_ofNatTrim_eq_cons hpos
  have hpow : 256 ^ digits.length ≤ n := by
    have hle := pow_le_toNat_cons hb digits
    rwa [← hd, toNat_ofNatTrim] at hle
  have hlt : digits.length < w := (Nat.pow_lt_pow_iff_right (by decide)).1 (Nat.lt_of_le_of_lt hpow h)
  rw [hd, List.length_cons]
  exact hlt

end Bytes

namespace Rlp

variable {item rest payload bs : Bytes} {items : List Bytes} {n : Nat} {short long : UInt8}

/-! ### Headers -/

theorem longHeader_ofNatTrim (h : 55 < n) (rest : Bytes) :
    longHeader (Bytes.ofNatTrim n ++ rest) (Bytes.ofNatTrim n).length =
      .ok ⟨1 + (Bytes.ofNatTrim n).length, n⟩ := by
  obtain ⟨b, digits, hd, hb⟩ := Bytes.exists_ofNatTrim_eq_cons (Nat.lt_trans (by decide) h)
  have htake : (Bytes.ofNatTrim n ++ rest).take (Bytes.ofNatTrim n).length = Bytes.ofNatTrim n :=
    List.take_left' rfl
  have hvalue := Bytes.toNat_ofNatTrim n
  rw [hd] at htake hvalue ⊢
  rw [List.cons_append] at htake ⊢
  unfold longHeader
  simp only [htake, hvalue]
  rw [if_neg hb, if_neg (Nat.lt_irrefl _), if_neg (Nat.not_le_of_lt h)]

/-- The first bytes of the two kinds of item: of byte strings, and of lists. -/
def IsKind (short long : UInt8) : Prop :=
  (short = 0x80 ∧ long = 0xb7) ∨ (short = 0xc0 ∧ long = 0xf7)

theorem header?_cons_short (hkind : IsKind short long) {b : UInt8} (hb : b.toNat = short.toNat + n)
    (h : n ≤ 55) (rest : Bytes) : header? (b :: rest) = .ok ⟨1, n⟩ := by
  unfold header?
  simp only [hb]
  rcases hkind with ⟨rfl, -⟩ | ⟨rfl, -⟩
  · have hshort : (0x80 : UInt8).toNat = 0x80 := rfl
    rw [hshort, if_neg (by omega), if_pos (by omega), Nat.add_sub_cancel_left]
  · have hshort : (0xc0 : UInt8).toNat = 0xc0 := rfl
    rw [hshort, if_neg (by omega), if_neg (by omega), if_neg (by omega), if_pos (by omega),
      Nat.add_sub_cancel_left]

theorem header?_cons_long (hkind : IsKind short long) {b : UInt8} {k : Nat}
    (hb : b.toNat = long.toNat + k) (hpos : 0 < k) (h : k ≤ 8) (rest : Bytes) :
    header? (b :: rest) = longHeader rest k := by
  unfold header?
  simp only [hb]
  rcases hkind with ⟨-, rfl⟩ | ⟨-, rfl⟩
  · have hlong : (0xb7 : UInt8).toNat = 0xb7 := rfl
    rw [hlong, if_neg (by omega), if_neg (by omega), if_pos (by omega), Nat.add_sub_cancel_left]
  · have hlong : (0xf7 : UInt8).toNat = 0xf7 := rfl
    rw [hlong, if_neg (by omega), if_neg (by omega), if_neg (by omega), if_neg (by omega),
      Nat.add_sub_cancel_left]

theorem IsKind.toNat_add_of_le (hkind : IsKind short long) (h : n ≤ 55) :
    (short + UInt8.ofNat n).toNat = short.toNat + n := by
  have hn : (UInt8.ofNat n).toNat = n := UInt8.toNat_ofNat_of_lt' (Nat.lt_of_le_of_lt h (by decide))
  have hshort : short.toNat ≤ 0xc0 := by
    rcases hkind with ⟨rfl, -⟩ | ⟨rfl, -⟩
    · decide
    · decide
  rw [UInt8.toNat_add, hn]
  omega

theorem IsKind.long_toNat_add_of_le (hkind : IsKind short long) {k : Nat} (h : k ≤ 8) :
    (long + UInt8.ofNat k).toNat = long.toNat + k := by
  have hk : (UInt8.ofNat k).toNat = k := UInt8.toNat_ofNat_of_lt' (Nat.lt_of_le_of_lt h (by decide))
  have hlong : long.toNat ≤ 0xf7 := by
    rcases hkind with ⟨-, rfl⟩ | ⟨-, rfl⟩
    · decide
    · decide
  rw [UInt8.toNat_add, hk]
  omega

/-- A written header is read, whatever follows it. -/
theorem header?_lengthHeader (hkind : IsKind short long) (hn : n < 2 ^ 64) (rest : Bytes) :
    header? (lengthHeader short long n ++ rest) = .ok ⟨(lengthHeader short long n).length, n⟩ := by
  by_cases h : n ≤ 55
  · rw [lengthHeader, if_pos h]
    exact header?_cons_short hkind (hkind.toNat_add_of_le h) h rest
  · have hlt : 55 < n := Nat.lt_of_not_le h
    have hdigits : (Bytes.ofNatTrim n).length ≤ 8 :=
      Bytes.length_ofNatTrim_le (Nat.lt_trans (by decide) hlt) hn
    obtain ⟨b, digits, hd, -⟩ := Bytes.exists_ofNatTrim_eq_cons (Nat.lt_trans (by decide) hlt)
    have hpos : 0 < (Bytes.ofNatTrim n).length := by
      rw [hd]
      exact Nat.succ_pos _
    rw [lengthHeader, if_neg h]
    show header? (_ :: (Bytes.ofNatTrim n ++ rest)) = _
    rw [header?_cons_long hkind (hkind.long_toNat_add_of_le hdigits) hpos hdigits,
      longHeader_ofNatTrim hlt, List.length_cons, Nat.add_comm]

/-! ### Items -/

/-- A string that is read as one item, whatever follows it. -/
structure IsItem (item : Bytes) : Prop where
  ne_nil : item ≠ []
  split_append : ∀ rest, split (item ++ rest) = .ok (item, rest)

theorem header_of_header? {h : Header} (hh : header? bs = .ok h) (hlength : h.total ≤ bs.length) :
    header bs = .ok h := by
  have htake : ¬ (bs.take h.total).length < h.total := by
    rw [List.length_take]
    omega
  unfold header
  rw [hh, Steps.ok_bind, if_neg htake]
  rfl

theorem split_append_of_header? {h : Header} (hh : header? (item ++ rest) = .ok h)
    (htotal : h.total = item.length) : split (item ++ rest) = .ok (item, rest) := by
  have hheader : header (item ++ rest) = .ok h := by
    refine header_of_header? hh ?_
    rw [htotal, List.length_append]
    exact Nat.le_add_right _ _
  unfold split
  rw [hheader, Steps.ok_bind, htotal, List.take_left' rfl, List.drop_left' rfl]
  rfl

theorem isItem_lengthHeader (hkind : IsKind short long) (h : payload.length < 2 ^ 64) :
    IsItem (lengthHeader short long payload.length ++ payload) where
  ne_nil hnil := by
    have hempty := (List.append_eq_nil_iff.1 hnil).1
    unfold lengthHeader at hempty
    split at hempty
    · cases hempty
    · cases hempty
  split_append rest := by
    have hh := header?_lengthHeader hkind h (payload ++ rest)
    rw [← List.append_assoc] at hh
    refine split_append_of_header? hh ?_
    rw [Header.total, List.length_append]

/-- A byte that is its own encoding. -/
def IsPlain (bs : Bytes) : Prop := ∃ b, bs = [b] ∧ b < 0x80

theorem encodeBytes_of_isPlain (h : IsPlain bs) : encodeBytes bs = bs := by
  obtain ⟨b, rfl, hb⟩ := h
  exact if_pos hb

theorem encodeBytes_of_not_isPlain (h : ¬ IsPlain bs) :
    encodeBytes bs = lengthHeader 0x80 0xb7 bs.length ++ bs := by
  unfold encodeBytes
  split
  · next b =>
    have hb : ¬ b < 0x80 := fun hb => h ⟨b, rfl, hb⟩
    rw [if_neg hb]
    rfl
  · rfl

theorem header?_of_isPlain (h : IsPlain bs) (rest : Bytes) : header? (bs ++ rest) = .ok ⟨0, 1⟩ := by
  obtain ⟨b, rfl, hb⟩ := h
  exact if_pos (UInt8.lt_iff_toNat_lt.1 hb)

theorem isItem_encodeBytes (h : bs.length < 2 ^ 64) : IsItem (encodeBytes bs) := by
  by_cases hplain : IsPlain bs
  · rw [encodeBytes_of_isPlain hplain]
    obtain ⟨b, rfl, hb⟩ := hplain
    exact ⟨nofun, fun rest => split_append_of_header? (header?_of_isPlain ⟨b, rfl, hb⟩ rest) rfl⟩
  · rw [encodeBytes_of_not_isPlain hplain]
    exact isItem_lengthHeader (.inl ⟨rfl, rfl⟩) h

/-! ### Kinds of item -/

/-- The first byte of a header tells the kind of the item. -/
theorem exists_lengthHeader_eq_cons (hkind : IsKind short long) (hn : n < 2 ^ 64) :
    ∃ b digits, lengthHeader short long n = b :: digits ∧
      short.toNat ≤ b.toNat ∧ b.toNat ≤ long.toNat + 8 := by
  have hshort : short.toNat + 55 = long.toNat := by
    rcases hkind with ⟨rfl, rfl⟩ | ⟨rfl, rfl⟩
    · rfl
    · rfl
  by_cases h : n ≤ 55
  · have hb := hkind.toNat_add_of_le h
    refine ⟨short + UInt8.ofNat n, [], ?_, ?_, ?_⟩
    · rw [lengthHeader, if_pos h]
    · omega
    · omega
  · have hdigits : (Bytes.ofNatTrim n).length ≤ 8 := Bytes.length_ofNatTrim_le (by omega) hn
    have hb := hkind.long_toNat_add_of_le hdigits
    refine ⟨long + UInt8.ofNat (Bytes.ofNatTrim n).length, Bytes.ofNatTrim n, ?_, ?_, ?_⟩
    · rw [lengthHeader, if_neg h]
    · omega
    · omega

/-- A string behind its length is no list. -/
theorem isList_string (h : bs.length < 2 ^ 64) :
    isList (lengthHeader 0x80 0xb7 bs.length ++ bs) = false := by
  obtain ⟨b, digits, heq, -, hb⟩ := exists_lengthHeader_eq_cons (.inl ⟨rfl, rfl⟩) h
  have hb : b.toNat ≤ 0xb7 + 8 := hb
  have hlist : ¬ (0xc0 : UInt8) ≤ b := fun hle => by
    have hle : 0xc0 ≤ b.toNat := UInt8.le_iff_toNat_le.1 hle
    omega
  rw [heq]
  exact decide_eq_false hlist

theorem isList_of_isPlain (h : IsPlain bs) : isList bs = false := by
  obtain ⟨b, rfl, hb⟩ := h
  have hlt : b.toNat < 0x80 := UInt8.lt_iff_toNat_lt.1 hb
  have hlist : ¬ (0xc0 : UInt8) ≤ b := fun hle => by
    have hle : 0xc0 ≤ b.toNat := UInt8.le_iff_toNat_le.1 hle
    omega
  exact decide_eq_false hlist

theorem isList_encodeBytes (h : bs.length < 2 ^ 64) : isList (encodeBytes bs) = false := by
  by_cases hplain : IsPlain bs
  · rw [encodeBytes_of_isPlain hplain, isList_of_isPlain hplain]
  · rw [encodeBytes_of_not_isPlain hplain, isList_string h]

/-! ### Items one behind the other -/

/-- At the front of the string stands no item. -/
def Stops (rest : Bytes) : Prop := ∀ r, split rest ≠ .ok r

theorem stops_nil : Stops [] := nofun

theorem append_of_split (h : split bs = .ok (item, rest)) : bs = item ++ rest := by
  obtain ⟨hd, -, hr⟩ := Steps.bind_eq_ok_iff.1 h
  obtain ⟨rfl, rfl⟩ := Prod.mk.inj (Steps.pure_eq_ok_iff.1 hr)
  exact (List.take_append_drop _ _).symm

theorem itemsFrom_of_stops (h : Stops rest) (fuel : Nat) : itemsFrom fuel rest = [] := by
  cases fuel with
  | zero => rfl
  | succ fuel =>
    rw [itemsFrom]
    cases hsplit : split rest with
    | error e => rfl
    | ok r => exact absurd hsplit (h r)

/-- Items that stand one behind the other are all read, if there is fuel for each, as far as they go. -/
theorem itemsFrom_flatten_append (hitems : ∀ x ∈ items, IsItem x) (hrest : Stops rest) {fuel : Nat}
    (hfuel : items.length ≤ fuel) : itemsFrom fuel (items.flatten ++ rest) = items := by
  induction items generalizing fuel with
  | nil => exact itemsFrom_of_stops hrest fuel
  | cons x items ih =>
    obtain ⟨hx, hitems⟩ := List.forall_mem_cons.1 hitems
    cases fuel with
    | zero => cases hfuel
    | succ fuel =>
      rw [List.flatten_cons, List.append_assoc, itemsFrom, hx.split_append]
      show x :: itemsFrom fuel (items.flatten ++ rest) = x :: items
      rw [ih hitems (Nat.le_of_succ_le_succ hfuel)]

theorem length_le_length_flatten (hitems : ∀ x ∈ items, IsItem x) :
    items.length ≤ items.flatten.length := by
  induction items with
  | nil => exact Nat.le_refl 0
  | cons x items ih =>
    obtain ⟨hx, hrest⟩ := List.forall_mem_cons.1 hitems
    have hpos : 0 < x.length := List.length_pos_iff.2 hx.ne_nil
    have hle := ih hrest
    rw [List.flatten_cons, List.length_append, List.length_cons]
    omega

/-! ### Lists -/

/-- The item that is a list with this payload. -/
def listOf (payload : Bytes) : Bytes :=
  lengthHeader 0xc0 0xf7 payload.length ++ payload

theorem encodeList_eq (items : List Bytes) : encodeList items = listOf items.flatten := rfl

theorem length_listOf (payload : Bytes) :
    (listOf payload).length = (lengthHeader 0xc0 0xf7 payload.length).length + payload.length :=
  List.length_append

theorem isList_listOf (h : payload.length < 2 ^ 64) : isList (listOf payload) = true := by
  obtain ⟨b, digits, heq, hb, -⟩ := exists_lengthHeader_eq_cons (.inr ⟨rfl, rfl⟩) h
  have hlist : (0xc0 : UInt8) ≤ b := UInt8.le_iff_toNat_le.2 hb
  rw [listOf, heq]
  exact decide_eq_true hlist

/-- The header of a list covers all of it. -/
theorem header_listOf (h : payload.length < 2 ^ 64) :
    header (listOf payload) =
      .ok ⟨(lengthHeader 0xc0 0xf7 payload.length).length, payload.length⟩ :=
  header_of_header? (header?_lengthHeader (.inr ⟨rfl, rfl⟩) h payload)
    (Nat.le_of_eq (length_listOf payload).symm)

/-- The elements of a list are the items at the front of its payload. -/
theorem elements_listOf (h : payload.length < 2 ^ 64) :
    elements (listOf payload) = itemsFrom ((listOf payload).length + 1) payload := by
  have hdrop : (listOf payload).drop (lengthHeader 0xc0 0xf7 payload.length).length = payload :=
    List.drop_left' rfl
  unfold elements
  rw [if_pos (isList_listOf h), header_listOf h]
  simp only [hdrop, List.take_length, itemsFrom]
  cases hsplit : split payload with
  | error e => rfl
  | ok r =>
    obtain ⟨first, rest⟩ := r
    have hrest : payload.drop first.length = rest := by
      rw [append_of_split hsplit]
      exact List.drop_left' rfl
    simp only [hrest]

theorem elements_listOf_append (hitems : ∀ x ∈ items, IsItem x) (hrest : Stops rest)
    (h : (items.flatten ++ rest).length < 2 ^ 64) : elements (listOf (items.flatten ++ rest)) = items := by
  have hfuel : items.length ≤ (listOf (items.flatten ++ rest)).length + 1 := by
    have hle := length_le_length_flatten hitems
    rw [length_listOf, List.length_append]
    omega
  rw [elements_listOf h, itemsFrom_flatten_append hitems hrest hfuel]

theorem isItem_encodeList (h : items.flatten.length < 2 ^ 64) : IsItem (encodeList items) :=
  isItem_lengthHeader (.inr ⟨rfl, rfl⟩) h

/-- All elements of a written list are read. -/
theorem elements_encodeList (hitems : ∀ x ∈ items, IsItem x) (h : items.flatten.length < 2 ^ 64) :
    elements (encodeList items) = items := by
  have helements := elements_listOf_append hitems stops_nil (by rwa [List.append_nil])
  rwa [List.append_nil] at helements

/-! ### Content of a byte string -/

theorem bytesOf_encodeBytes (h : bs.length < 2 ^ 64) : bytesOf (encodeBytes bs) = .ok bs := by
  unfold bytesOf
  rw [if_neg (by rw [isList_encodeBytes h]; exact Bool.false_ne_true)]
  by_cases hplain : IsPlain bs
  · have hh := header?_of_isPlain hplain []
    rw [List.append_nil] at hh
    have hlength : 1 ≤ bs.length := by
      obtain ⟨b, rfl, -⟩ := hplain
      exact Nat.le_refl 1
    rw [encodeBytes_of_isPlain hplain, header_of_header? hh hlength]
    obtain ⟨b, rfl, -⟩ := hplain
    rfl
  · have hh := header?_lengthHeader (.inl ⟨rfl, rfl⟩) h bs
    rw [encodeBytes_of_not_isPlain hplain, header_of_header? hh (Nat.le_of_eq List.length_append.symm)]
    simp only [Steps.ok_bind, List.drop_left' rfl, List.take_length]
    split
    · next b _ =>
      have hb : ¬ b < 0x80 := fun hb => hplain ⟨b, rfl, hb⟩
      rw [if_neg hb]
      rfl
    · rfl

/-! ### Sizes -/

theorem length_flatten_le (items : List Bytes) : items.flatten.length ≤ (encodeList items).length := by
  rw [encodeList_eq, length_listOf]
  exact Nat.le_add_left _ _

theorem length_le_length_encodeBytes (bs : Bytes) : bs.length ≤ (encodeBytes bs).length := by
  by_cases h : IsPlain bs
  · exact Nat.le_of_eq (congrArg List.length (encodeBytes_of_isPlain h).symm)
  · rw [encodeBytes_of_not_isPlain h, List.length_append]
    exact Nat.le_add_left _ _

/-- An element is no longer than the list. -/
theorem length_le_of_mem (h : item ∈ items) : item.length ≤ (encodeList items).length :=
  Nat.le_trans (List.sublist_flatten_of_mem h).length_le (length_flatten_le items)

/-! ### Lists of byte strings -/

variable {strings : List Bytes}

/-- The encodings of byte strings are no shorter than the strings. -/
theorem length_flatten_le_length_encodings (strings : List Bytes) :
    strings.flatten.length ≤ (strings.map encodeBytes).flatten.length := by
  induction strings with
  | nil => exact Nat.le_refl _
  | cons bs strings ih =>
    rw [List.map_cons, List.flatten_cons, List.flatten_cons, List.length_append, List.length_append]
    exact Nat.add_le_add (length_le_length_encodeBytes bs) ih

theorem length_lt_of_mem (h : (encodeList (strings.map encodeBytes)).length < 2 ^ 64)
    (hbs : bs ∈ strings) : bs.length < 2 ^ 64 := by
  have hle := length_le_of_mem (List.mem_map_of_mem (f := encodeBytes) hbs)
  exact Nat.lt_of_le_of_lt (Nat.le_trans (length_le_length_encodeBytes bs) hle) h

/-- What can be read one by one can be read from a list. -/
theorem mapM_elements_encodeList {α : Type} {encode : α → Bytes} {decode : Bytes → Except Error α} {xs : List α}
    (hitem : ∀ x ∈ xs, IsItem (encode x)) (hread : ∀ x ∈ xs, decode (encode x) = .ok x)
    (h : (encodeList (xs.map encode)).length < 2 ^ 64) :
    (elements (encodeList (xs.map encode))).mapM decode = .ok xs := by
  have hitems : ∀ item ∈ xs.map encode, IsItem item := by
    intro item hitem'
    obtain ⟨x, hx, rfl⟩ := List.mem_map.1 hitem'
    exact hitem x hx
  rw [elements_encodeList hitems (Nat.lt_of_le_of_lt (length_flatten_le _) h),
    Steps.mapM_map_eq_ok (k := id) hread, List.map_id]

/-- The byte strings of a written list are recovered from its elements. -/
theorem mapM_bytesOf_elements (h : (encodeList (strings.map encodeBytes)).length < 2 ^ 64) :
    (elements (encodeList (strings.map encodeBytes))).mapM bytesOf = .ok strings :=
  mapM_elements_encodeList (fun _ hbs => isItem_encodeBytes (length_lt_of_mem h hbs))
    (fun _ hbs => bytesOf_encodeBytes (length_lt_of_mem h hbs)) h

end Rlp

end Interchain
