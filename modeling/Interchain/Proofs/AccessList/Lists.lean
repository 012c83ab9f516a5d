import Interchain.AccessList.Basic
import Interchain.Proofs.AccessList.Packing

/-!
# Access lists survive their encoding

An item, a whole access list and a list of byte strings are recovered from their encodings, as long as these have a
64-bit length, which is all that a header can say.

* `AccessItem.ReadsAs`: what an item is read from, be it an encoding or not. Reading an encoding is one case of it.
* `AccessList.carrier`: the items of a transaction that brings a list of byte strings along, among others. The
  contract at the address reads the same strings again.
* `AccessItem.length_payload_lt`: a payload is shorter than the item that carries it, so one bound is enough for both.
* `AccessList.encodings_roundTrip`: both kinds of list together.
-/

namespace Interchain

/-! ### Items -/

namespace AccessItem

variable {item : AccessItem}

/-- The encodings of the two elements of an item. -/
def parts (item : AccessItem) : List Bytes :=
  [Rlp.encodeBytes item.address.bytes,
    Rlp.encodeList (item.storageKeys.map fun k => Rlp.encodeBytes k.bytes)]

theorem map_encodeBytes_keys (keys : List Hash32) :
    (keys.map fun k => Rlp.encodeBytes k.bytes) = (keys.map (·.bytes)).map Rlp.encodeBytes := by
  rw [List.map_map]
  rfl

@[simp] theorem fixedOf_bytes {n : Nat} (x : FixedBytes n) : fixedOf n x.bytes = .ok x := by
  rw [fixedOf, FixedBytes.ofBytes?_bytes]

theorem length_keys_le (item : AccessItem) :
    (Rlp.encodeList (item.storageKeys.map fun k => Rlp.encodeBytes k.bytes)).length ≤ item.encode.length :=
  Rlp.length_le_of_mem (List.mem_cons_of_mem _ (List.mem_singleton_self _))

theorem isItem_of_mem_parts (h : item.encode.length < 2 ^ 64) {x : Bytes} (hx : x ∈ item.parts) :
    Rlp.IsItem x := by
  rcases List.mem_cons.1 hx with rfl | hx
  · refine Rlp.isItem_encodeBytes ?_
    rw [FixedBytes.length_bytes]
    decide
  · obtain rfl := List.mem_singleton.1 hx
    refine Rlp.isItem_encodeList (Nat.lt_of_le_of_lt ?_ h)
    exact Nat.le_trans (Rlp.length_flatten_le _) item.length_keys_le

/-- A string in which two items are read, the address and a list, and in the list the keys. -/
structure ReadsAs (bs : Bytes) (item : AccessItem) (keyList : Bytes) : Prop where
  elements_eq : Rlp.elements bs = [Rlp.encodeBytes item.address.bytes, keyList]
  keys_eq : Rlp.elements keyList = item.storageKeys.map fun k => Rlp.encodeBytes k.bytes

theorem bytesOf_encodeBytes_fixed {n : Nat} (hn : n < 2 ^ 64) (x : FixedBytes n) :
    Rlp.bytesOf (Rlp.encodeBytes x.bytes) = .ok x.bytes :=
  Rlp.bytesOf_encodeBytes (by rwa [x.length_bytes])

theorem ReadsAs.decode_eq {bs keyList : Bytes} (h : ReadsAs bs item keyList) : decode bs = .ok item := by
  have hlist : Rlp.isList bs = true := by
    cases hlist : Rlp.isList bs with
    | true => rfl
    | false =>
      have helements := h.elements_eq
      rw [Rlp.elements, hlist] at helements
      cases helements
  have haddress : Rlp.bytesOf (Rlp.encodeBytes item.address.bytes) = .ok item.address.bytes :=
    bytesOf_encodeBytes_fixed (by decide) item.address
  have hkeys : (Rlp.elements keyList).mapM Rlp.bytesOf = .ok (item.storageKeys.map (·.bytes)) := by
    rw [h.keys_eq]
    exact Steps.mapM_map_eq_ok fun k _ => bytesOf_encodeBytes_fixed (by decide) k
  have hfixed : (item.storageKeys.map (·.bytes)).mapM (fixedOf 32) = .ok item.storageKeys := by
    have hread : ∀ k ∈ item.storageKeys, fixedOf 32 k.bytes = .ok (id k) := fun k _ => fixedOf_bytes k
    rw [Steps.mapM_map_eq_ok hread, List.map_id]
  rw [decode, if_pos hlist, h.elements_eq]
  show (do
    let address ← fixedOf 20 (← Rlp.bytesOf (Rlp.encodeBytes item.address.bytes))
    let keys ← (Rlp.elements keyList).mapM Rlp.bytesOf
    return ⟨address, ← keys.mapM (fixedOf 32)⟩ : Except Rlp.Error AccessItem) = _
  rw [haddress, Steps.ok_bind, fixedOf_bytes, Steps.ok_bind, hkeys, Steps.ok_bind, hfixed]
  rfl

theorem elements_encode (h : item.encode.length < 2 ^ 64) : Rlp.elements item.encode = item.parts :=
  Rlp.elements_encodeList (fun _ hx => isItem_of_mem_parts h hx)
    (Nat.lt_of_le_of_lt (Rlp.length_flatten_le item.parts) h)

theorem elements_keys (h : item.encode.length < 2 ^ 64) :
    Rlp.elements (Rlp.encodeList (item.storageKeys.map fun k => Rlp.encodeBytes k.bytes)) =
      item.storageKeys.map fun k => Rlp.encodeBytes k.bytes := by
  refine Rlp.elements_encodeList ?_ ?_
  · intro x hx
    obtain ⟨k, -, rfl⟩ := List.mem_map.1 hx
    refine Rlp.isItem_encodeBytes ?_
    rw [k.length_bytes]
    decide
  · exact Nat.lt_of_le_of_lt (Nat.le_trans (Rlp.length_flatten_le _) item.length_keys_le) h

/-- An item is recovered from its encoding. -/
theorem decode_encode (h : item.encode.length < 2 ^ 64) : decode item.encode = .ok item :=
  ReadsAs.decode_eq ⟨elements_encode h, elements_keys h⟩

theorem predicateBytes_withPredicate (a : Address) (payload : Bytes) :
    (withPredicate a payload).predicateBytes = .ok payload :=
  Predicate.unpack_pack payload

/-- The payload that an item carries is shorter than the encoded item. -/
theorem length_payload_lt (a : Address) (payload : Bytes) :
    payload.length < (withPredicate a payload).encode.length := by
  have hpack : payload.length < ((Predicate.pack payload).map (·.bytes)).flatten.length := by
    have hflatMap := Predicate.flatMap_pack payload
    rw [← List.flatMap_def, hflatMap, List.length_append, List.length_cons]
    omega
  have hkeys : ((Predicate.pack payload).map (·.bytes)).flatten.length ≤
      (Rlp.encodeList ((Predicate.pack payload).map fun k => Rlp.encodeBytes k.bytes)).length := by
    rw [map_encodeBytes_keys]
    exact Nat.le_trans (Rlp.length_flatten_le_length_encodings _) (Rlp.length_flatten_le _)
  exact Nat.lt_of_lt_of_le hpack (Nat.le_trans hkeys (withPredicate a payload).length_keys_le)

end AccessItem

/-! ### Whole lists -/

namespace AccessList

variable {items : AccessList}

theorem length_encode_lt_of_mem (h : (encode items).length < 2 ^ 64) {item : AccessItem}
    (hitem : item ∈ items) : item.encode.length < 2 ^ 64 :=
  Nat.lt_of_le_of_lt (Rlp.length_le_of_mem (List.mem_map_of_mem (f := AccessItem.encode) hitem)) h

/-- An access list is recovered from its encoding. -/
theorem decode_encode (h : (encode items).length < 2 ^ 64) : decode (encode items) = .ok items := by
  have hitem : ∀ item ∈ items, Rlp.IsItem item.encode := fun item hitem =>
    Rlp.isItem_encodeList (Nat.lt_of_le_of_lt (Rlp.length_flatten_le item.parts) (length_encode_lt_of_mem h hitem))
  have hread : ∀ item ∈ items, AccessItem.decode item.encode = .ok item := fun item hitem =>
    AccessItem.decode_encode (length_encode_lt_of_mem h hitem)
  rw [decode, encode, Rlp.mapM_elements_encodeList hitem hread h, Steps.mapError_ok]

/-! ### Carrying byte strings -/

/-- The items of a transaction that brings a list of byte strings to an address, among others. -/
def carrier (before after : AccessList) (a : Address) (messages : List Bytes) : AccessList :=
  before ++ AccessItem.withPredicate a (Predicate.encodeList messages) :: after

variable {before after : AccessList} {a : Address} {messages : List Bytes}

theorem getElem?_carrier :
    (carrier before after a messages)[before.length]? =
      some (AccessItem.withPredicate a (Predicate.encodeList messages)) := by
  rw [carrier, List.getElem?_append_right (Nat.le_refl _), Nat.sub_self, List.getElem?_cons_zero]

/-- The byte strings that a transaction brings along are recovered from the item that carries them. -/
theorem decodeList_carrier (h : (encode (carrier before after a messages)).length < 2 ^ 64) :
    Predicate.decodeList (Predicate.encodeList messages) = .ok messages := by
  have hitem := length_encode_lt_of_mem h (List.mem_of_getElem? getElem?_carrier)
  exact Predicate.decodeList_encodeList (Nat.lt_trans (AccessItem.length_payload_lt a _) hitem)

/-! ### Both kinds of list -/

/-- Lists of byte strings and access lists are recovered from their encodings, as long as these have a 64-bit length. -/
theorem encodings_roundTrip :
    (∀ strings, (Predicate.encodeList strings).length < 2 ^ 64 →
      Predicate.decodeList (Predicate.encodeList strings) = .ok strings) ∧
    ∀ items, (encode items).length < 2 ^ 64 → decode (encode items) = .ok items :=
  ⟨fun _ h => Predicate.decodeList_encodeList h, fun _ h => decode_encode h⟩

/-- Byte strings at the boundaries between the forms of a header. -/
def boundaryStrings : List Bytes :=
  [[], [0x7f], [0x80], List.replicate 55 1, List.replicate 56 1, List.replicate 256 2]

/-- An item that carries these strings, one without keys and one with a key of zeros. -/
def boundaryItems : AccessList :=
  [AccessItem.withPredicate (.replicate 20 1) (Predicate.encodeList boundaryStrings), ⟨.replicate 20 2, []⟩,
    ⟨.replicate 20 3, [.zero]⟩]

theorem encodings_roundTrip_boundaries :
    Predicate.decodeList (Predicate.encodeList boundaryStrings) = .ok boundaryStrings ∧
      decode (encode boundaryItems) = .ok boundaryItems := by
  have hstrings : (Predicate.encodeList boundaryStrings).length < 2 ^ 64 := by decide +kernel
  have hitems : (encode boundaryItems).length < 2 ^ 64 := by decide +kernel
  obtain ⟨hdecodeList, hdecode⟩ := encodings_roundTrip
  exact ⟨hdecodeList _ hstrings, hdecode _ hitems⟩

end AccessList

end Interchain
