import Interchain.Proofs.AccessList.Lists
import Interchain.Proofs.Rlp.Reading
import Mathlib.Control.Monad.Basic

/-!
# What reading an access list loses

An access list is three lists inside one another: of items, of the two elements of an item, and of the keys in the
second of them. Each is read as far as items stand in it, and a string that is no list holds none. So an access list
that is read need not say all that the string says: `AccessList.decode_drops_key` loses the only key of an item.

* `AccessItem.decode_eq_ok_iff`, `AccessList.decode_eq_ok_iff`: what is read as an item, and as an access list.
* `Rlp.IsWhole`: a string that is the list of the items which are read in it, from end to end.
* `AccessItem.IsExact`, `AccessList.IsExact`: strings that are whole lists on all levels.
* `AccessList.decode_lossless_iff`: an access list that is read is written as the same string exactly if this is so.
-/

namespace Interchain

/-! ### Items in a string -/

namespace Rlp

variable {bs x : Bytes}

/-- Writing the items that are read gives the string again. -/
def IsWhole (bs : Bytes) : Prop := encodeList (elements bs) = bs

/-- What is read as an item of a list has the form of one. -/
theorem form_of_mem_elements (hx : x ∈ elements bs) : Form x := by
  unfold elements at hx
  split at hx
  · split at hx
    · next hd hheader =>
      simp only at hx
      split at hx
      · next first tail hsplit =>
        rcases List.mem_cons.1 hx with rfl | hx
        · exact form_of_split hsplit
        · have hfuel : ((bs.drop hd.width).drop first.length).length ≤ bs.length := by
            rw [List.length_drop, List.length_drop]
            omega
          obtain ⟨-, -, hforms, -⟩ := exists_unread hfuel
          exact hforms x hx
      · cases hx
    · cases hx
  · cases hx

end Rlp

/-! ### Items of an access list -/

namespace AccessItem

variable {item : AccessItem} {bs keyList : Bytes}

theorem fixedOf_eq_ok_iff {n : Nat} {x : FixedBytes n} : fixedOf n bs = .ok x ↔ bs = x.bytes := by
  constructor
  · intro h
    unfold fixedOf at h
    split at h
    · next y hy =>
      obtain rfl := Except.ok.inj h
      exact (FixedBytes.ofBytes?_eq_some_iff.1 hy).symm
    · cases h
  · rintro rfl
    exact fixedOf_bytes x

theorem isList_of_decode (h : decode bs = .ok item) : Rlp.isList bs = true := by
  cases hlist : Rlp.isList bs with
  | true => rfl
  | false =>
    rw [decode, if_neg (by rw [hlist]; exact Bool.false_ne_true)] at h
    cases h

theorem exists_readsAs (h : decode bs = .ok item) : ∃ keyList, ReadsAs bs item keyList := by
  rw [decode, if_pos (isList_of_decode h)] at h
  split at h
  · next first keyList helements =>
    have hforms : ∀ x ∈ Rlp.elements keyList, Rlp.Form x := fun x => Rlp.form_of_mem_elements
    have hmem : first ∈ Rlp.elements bs := by
      rw [helements]
      exact List.mem_cons_self
    have hfirst : Rlp.Form first := Rlp.form_of_mem_elements hmem
    obtain ⟨addressBytes, haddressBytes, h⟩ := Steps.bind_eq_ok_iff.1 h
    obtain ⟨address, haddress, h⟩ := Steps.bind_eq_ok_iff.1 h
    obtain ⟨keyBytes, hkeyBytes, h⟩ := Steps.bind_eq_ok_iff.1 h
    obtain ⟨keys, hkeys, h⟩ := Steps.bind_eq_ok_iff.1 h
    obtain rfl := Steps.pure_eq_ok_iff.1 h
    obtain rfl := fixedOf_eq_ok_iff.1 haddress
    obtain ⟨rfl, -⟩ := (Rlp.bytesOf_eq_ok_iff hfirst).1 haddressBytes
    have hread : keyBytes = keys.map (·.bytes) :=
      Steps.eq_map_of_mapM_eq_ok (fun _ _ _ hk => fixedOf_eq_ok_iff.1 hk) hkeys
    have hstrings : Rlp.elements keyList = keyBytes.map Rlp.encodeBytes :=
      Steps.eq_map_of_mapM_eq_ok (fun x hx _ hbs => ((Rlp.bytesOf_eq_ok_iff (hforms x hx)).1 hbs).1) hkeyBytes
    refine ⟨keyList, helements, ?_⟩
    rw [hstrings, hread, ← map_encodeBytes_keys]
  · cases h

/-- An item is read exactly where its address and a list with its keys are read. -/
theorem decode_eq_ok_iff : decode bs = .ok item ↔ ∃ keyList, ReadsAs bs item keyList :=
  ⟨exists_readsAs, fun ⟨_, h⟩ => h.decode_eq⟩

/-- The string is a whole list, and so is its second element. -/
def IsExact (bs : Bytes) : Prop :=
  Rlp.IsWhole bs ∧ ∀ keyList, (Rlp.elements bs)[1]? = some keyList → Rlp.IsWhole keyList

theorem ReadsAs.isExact_iff (h : ReadsAs bs item keyList) : IsExact bs ↔ Rlp.IsWhole bs ∧ Rlp.IsWhole keyList := by
  rw [IsExact, h.elements_eq]
  exact and_congr_right fun _ => ⟨fun hkeys => hkeys keyList rfl, fun hkeys _ he => Option.some.inj he ▸ hkeys⟩

/-- What is written for an item is read without loss. -/
theorem isExact_encode (h : item.encode.length < 2 ^ 64) : IsExact item.encode := by
  have hreads : ReadsAs item.encode item _ := ⟨elements_encode h, elements_keys h⟩
  rw [hreads.isExact_iff, Rlp.IsWhole, Rlp.IsWhole, hreads.elements_eq, hreads.keys_eq]
  exact ⟨rfl, rfl⟩

theorem encode_of_isExact (h : decode bs = .ok item) (hexact : IsExact bs) : item.encode = bs := by
  obtain ⟨keyList, hreads⟩ := exists_readsAs h
  obtain ⟨hwhole, hkeys⟩ := hreads.isExact_iff.1 hexact
  rw [Rlp.IsWhole, hreads.keys_eq] at hkeys
  rw [Rlp.IsWhole, hreads.elements_eq, ← hkeys] at hwhole
  exact hwhole

end AccessItem

/-! ### Whole lists -/

namespace AccessList

variable {items : AccessList} {bs : Bytes}

/-- The items that are read in the string, one by one. -/
structure ReadsAs (bs : Bytes) (items : AccessList) : Prop where
  length_eq : items.length = (Rlp.elements bs).length
  readsAs : ∀ (i : Nat) x, (Rlp.elements bs)[i]? = some x →
    ∃ item, items[i]? = some item ∧ ∃ keyList, AccessItem.ReadsAs x item keyList

theorem decode_eq_ok_iff_mapM :
    decode bs = .ok items ↔ (Rlp.elements bs).mapM AccessItem.decode = .ok items :=
  Steps.mapError_eq_ok_iff

theorem decode_eq_ok_iff : decode bs = .ok items ↔ ReadsAs bs items := by
  rw [decode_eq_ok_iff_mapM, Steps.mapM_eq_ok_iff]
  simp only [AccessItem.decode_eq_ok_iff]
  exact ⟨fun h => ⟨h.1, h.2⟩, fun h => ⟨h.length_eq, h.readsAs⟩⟩

/-- The string is a whole list, and so is each of its items. -/
structure IsExact (bs : Bytes) : Prop where
  isWhole : Rlp.IsWhole bs
  items : ∀ x ∈ Rlp.elements bs, AccessItem.IsExact x

theorem isItem_encode (h : (encode items).length < 2 ^ 64) {x : Bytes} (hx : x ∈ items.map AccessItem.encode) :
    Rlp.IsItem x := by
  obtain ⟨item, hitem, rfl⟩ := List.mem_map.1 hx
  refine Rlp.isItem_encodeList ?_
  exact Nat.lt_of_le_of_lt (Rlp.length_flatten_le item.parts) (length_encode_lt_of_mem h hitem)

theorem elements_encode (h : (encode items).length < 2 ^ 64) :
    Rlp.elements (encode items) = items.map AccessItem.encode :=
  Rlp.elements_encodeList (fun _ hx => isItem_encode h hx)
    (Nat.lt_of_le_of_lt (Rlp.length_flatten_le (items.map AccessItem.encode)) h)

/-- What is written for an access list is read without loss. -/
theorem isExact_encode (h : (encode items).length < 2 ^ 64) : IsExact (encode items) where
  isWhole := by
    rw [Rlp.IsWhole, elements_encode h]
    rfl
  items x hx := by
    rw [elements_encode h] at hx
    obtain ⟨item, hitem, rfl⟩ := List.mem_map.1 hx
    exact AccessItem.isExact_encode (length_encode_lt_of_mem h hitem)

theorem encode_of_isExact (h : decode bs = .ok items) (hexact : IsExact bs) : encode items = bs := by
  have helements : Rlp.elements bs = items.map AccessItem.encode :=
    Steps.eq_map_of_mapM_eq_ok
      (fun x hx _ hitem => (AccessItem.encode_of_isExact hitem (hexact.items x hx)).symm)
      (decode_eq_ok_iff_mapM.1 h)
  calc
    encode items = Rlp.encodeList (Rlp.elements bs) := by rw [helements, encode]
    _ = bs := hexact.isWhole

/-- A string is read as the items that are read in it one by one. It is what is written for them exactly if it is a
whole list of items, each of these is a whole list of an address and a list, and each of the latter is a whole list of
keys. -/
theorem decode_lossless_iff (hbs : bs.length < 2 ^ 64) (items : AccessList) :
    decode bs = .ok items ↔ ReadsAs bs items ∧ (encode items = bs ↔ IsExact bs) := by
  constructor
  · intro h
    refine ⟨decode_eq_ok_iff.1 h, ?_, encode_of_isExact h⟩
    rintro rfl
    exact isExact_encode hbs
  · intro ⟨h, _⟩
    exact decode_eq_ok_iff.2 h

/-- A list of one item, whose list of keys holds the first byte of a key and nothing else. -/
def cutKey : Bytes := [0xd8, 0xd7, 0x94] ++ List.replicate 20 0x22 ++ [0xc1, 0xa0]

/-- The item is read without keys, so whatever it carried for its address is lost. -/
theorem decode_drops_key :
    decode cutKey = .ok [⟨.replicate 20 0x22, []⟩] ∧ encode [⟨.replicate 20 0x22, []⟩] ≠ cutKey :=
  ⟨by decide, by decide⟩

theorem decode_lossless_iff_cutKey :
    cutKey.length < 2 ^ 64 ∧ ReadsAs cutKey [⟨.replicate 20 0x22, []⟩] ∧ ¬ IsExact cutKey := by
  have hlength : cutKey.length < 2 ^ 64 := by decide
  have hdecode : decode cutKey = .ok [⟨.replicate 20 0x22, []⟩] := by decide
  have hencode : encode [⟨.replicate 20 0x22, []⟩] ≠ cutKey := by decide
  obtain ⟨hreads, hexact⟩ := (decode_lossless_iff hlength _).1 hdecode
  exact ⟨hlength, hreads, mt hexact.2 hencode⟩

end AccessList

end Interchain
