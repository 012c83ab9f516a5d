import Interchain.Proofs.AccessList.Packing
import Interchain.Proofs.Rlp.Reading
import Mathlib.Control.Monad.Basic

/-!
# What reading a list of byte strings leaves

The elements of a list are read as far as items stand in it, and reading stops without an error where none stands.
So a payload that is read need not be the encoding of what is read: more bytes may follow in the same list.

`Predicate.ReadsAs` names these bytes, and by `Predicate.decodeList_eq_ok_iff` the payloads of this form are all
that are read. Such a payload is the encoding of its byte strings exactly if nothing is left over. The last lemmas
show a payload with a second element that is cut short, and dropped.
-/

namespace Interchain.Predicate

variable {payload rest : Bytes} {items : List Bytes}

/-! ### Payloads that are read -/

/-- The payload is a list of these byte strings and of a rest at whose front no item stands. -/
structure ReadsAs (payload : Bytes) (items : List Bytes) (rest : Bytes) : Prop where
  eq_listOf : payload = Rlp.listOf ((items.map Rlp.encodeBytes).flatten ++ rest)
  stops : Rlp.Stops rest
  length_lt : ((items.map Rlp.encodeBytes).flatten ++ rest).length < 2 ^ 64

theorem ReadsAs.length_lt_of_mem (h : ReadsAs payload items rest) {bs : Bytes} (hbs : bs ∈ items) :
    bs.length < 2 ^ 64 := by
  have hencoded := (List.sublist_flatten_of_mem (List.mem_map_of_mem (f := Rlp.encodeBytes) hbs)).length_le
  have hlt := h.length_lt
  rw [List.length_append] at hlt
  exact Nat.lt_of_le_of_lt (Nat.le_trans (Rlp.length_le_length_encodeBytes bs) hencoded) (by omega)

theorem ReadsAs.decodeList_eq (h : ReadsAs payload items rest) : decodeList payload = .ok items := by
  have hitem : ∀ x ∈ items.map Rlp.encodeBytes, Rlp.IsItem x := by
    intro x hx
    obtain ⟨bs, hbs, rfl⟩ := List.mem_map.1 hx
    exact Rlp.isItem_encodeBytes (h.length_lt_of_mem hbs)
  have hread : ∀ bs ∈ items, Rlp.bytesOf (Rlp.encodeBytes bs) = .ok (id bs) := fun bs hbs =>
    Rlp.bytesOf_encodeBytes (h.length_lt_of_mem hbs)
  rw [h.eq_listOf, decodeList_listOf h.length_lt, Rlp.elements_listOf_append hitem h.stops h.length_lt,
    Steps.mapM_map_eq_ok hread, List.map_id, Steps.mapError_ok]

/-- A payload that is read is one list from end to end. -/
theorem exists_listOf_of_decodeList (h : decodeList payload = .ok items) :
    ∃ content, content.length < 2 ^ 64 ∧ payload = Rlp.listOf content := by
  cases hlist : Rlp.isList payload with
  | false =>
    rw [decodeList, if_neg (by rw [hlist]; exact Bool.false_ne_true)] at h
    cases h
  | true =>
    rw [decodeList, if_pos hlist] at h
    obtain ⟨hd, hheader, h⟩ := Steps.bind_eq_ok_iff.1 h
    obtain ⟨htotal, -⟩ := Steps.guard_eq_ok_iff.1 h
    have hform := Rlp.form_of_header (Steps.mapError_eq_ok_iff.1 hheader) (Decidable.not_not.1 htotal)
    exact hform.exists_listOf hlist

theorem exists_readsAs (h : decodeList payload = .ok items) : ∃ rest, ReadsAs payload items rest := by
  obtain ⟨content, hlt, rfl⟩ := exists_listOf_of_decodeList h
  rw [decodeList_listOf hlt, Steps.mapError_eq_ok_iff, Rlp.elements_listOf hlt] at h
  have hfuel : content.length ≤ (Rlp.listOf content).length + 1 := by
    rw [Rlp.length_listOf]
    omega
  obtain ⟨rest, hrest, hforms, hcontent⟩ := Rlp.exists_unread hfuel
  have helements := Steps.eq_map_of_mapM_eq_ok (g := Rlp.encodeBytes)
    (fun x hx bs hbs => ((Rlp.bytesOf_eq_ok_iff (hforms x hx)).1 hbs).1) h
  rw [helements] at hcontent
  exact ⟨rest, congrArg Rlp.listOf hcontent, hrest, hcontent ▸ hlt⟩

/-- A payload is read as these byte strings exactly if they stand at the front of it, and no item behind them. -/
theorem decodeList_eq_ok_iff : decodeList payload = .ok items ↔ ∃ rest, ReadsAs payload items rest :=
  ⟨exists_readsAs, fun ⟨_, h⟩ => h.decodeList_eq⟩

/-! ### Encodings -/

theorem ReadsAs.encodeList_eq_iff (h : ReadsAs payload items rest) : encodeList items = payload ↔ rest = [] := by
  have hlength : (items.map Rlp.encodeBytes).flatten.length ≤
      ((items.map Rlp.encodeBytes).flatten ++ rest).length := by
    rw [List.length_append]
    exact Nat.le_add_right _ _
  constructor
  · intro hencode
    -- both are read to the end of the list, whose header says how long it is
    have hheader := Rlp.header_listOf (Nat.lt_of_le_of_lt hlength h.length_lt)
    rw [← Rlp.encodeList_eq, ← encodeList, hencode, h.eq_listOf, Rlp.header_listOf h.length_lt] at hheader
    have hpayload : ((items.map Rlp.encodeBytes).flatten ++ rest).length =
        (items.map Rlp.encodeBytes).flatten.length :=
      congrArg Rlp.Header.payload (Except.ok.inj hheader)
    rw [List.length_append] at hpayload
    exact List.eq_nil_of_length_eq_zero (by omega)
  · rintro rfl
    rw [h.eq_listOf, List.append_nil]
    rfl

/-- A payload is read as these byte strings exactly if it is a list of them and of a rest at whose front no item stands.
It is the encoding of the byte strings exactly if this rest is empty. -/
theorem decodeList_canonical_iff (payload : Bytes) (items : List Bytes) :
    decodeList payload = .ok items ↔
      ∃ rest, ReadsAs payload items rest ∧ (encodeList items = payload ↔ rest = []) := by
  rw [decodeList_eq_ok_iff]
  constructor
  · rintro ⟨rest, h⟩
    exact ⟨rest, h, h.encodeList_eq_iff⟩
  · rintro ⟨rest, h, -⟩
    exact ⟨rest, h⟩

/-- The second element is cut short, and is dropped. -/
theorem decodeList_drops_element :
    decodeList [0xc3, 0x01, 0x82, 0x05] = .ok [[0x01]] ∧ encodeList [[0x01]] ≠ [0xc3, 0x01, 0x82, 0x05] :=
  ⟨by decide, by decide⟩

end Interchain.Predicate
