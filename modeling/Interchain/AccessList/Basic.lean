import Interchain.AccessList.Packing

/-!
# Access lists

The items that a transaction announces, each an account with storage keys, and their wire form. The keys of an item
may hold a predicate for the contract at its address.

Writing goes by the form of a list of lists. Reading is less strict than this form: items are taken from a list as
long as some stand in it, and a string that is no list holds none. So reading undoes writing, but writing what was
read may give another string.
-/

namespace Interchain

structure AccessItem where
  address : Address
  storageKeys : List Hash32
deriving DecidableEq

/-- The items of a transaction, in their order. -/
abbrev AccessList := List AccessItem

namespace AccessItem

/-- The item at `address` whose keys carry the payload. -/
def withPredicate (address : Address) (payload : Bytes) : AccessItem :=
  ⟨address, Predicate.pack payload⟩

def predicateBytes (item : AccessItem) : Except EncodingError Bytes :=
  Predicate.unpack item.storageKeys

def encode (item : AccessItem) : Bytes :=
  Rlp.encodeList
    [Rlp.encodeBytes item.address.bytes,
      Rlp.encodeList (item.storageKeys.map fun k => Rlp.encodeBytes k.bytes)]

/-- Reads a string of exactly `n` bytes. -/
def fixedOf (n : Nat) (bs : Bytes) : Except Rlp.Error (FixedBytes n) :=
  match FixedBytes.ofBytes? n bs with
  | some x => .ok x
  | none => .error .invalidLength

/-- Reads a list of an address and a list of keys. All keys are read as strings before any length is checked,
and a second element that is no list holds no keys. -/
def decode (bs : Bytes) : Except Rlp.Error AccessItem := do
  unless Rlp.isList bs do throw .expectedList
  match Rlp.elements bs with
  | [first, second] =>
    let address ← fixedOf 20 (← Rlp.bytesOf first)
    let keys ← (Rlp.elements second).mapM Rlp.bytesOf
    return ⟨address, ← keys.mapM (fixedOf 32)⟩
  | _ => throw .incorrectListLength

end AccessItem

namespace AccessList

def encode (items : AccessList) : Bytes :=
  Rlp.encodeList (items.map AccessItem.encode)

/-- Reads the items of a list; a string that is no list holds none. -/
def decode (bs : Bytes) : Except EncodingError AccessList :=
  ((Rlp.elements bs).mapM AccessItem.decode).mapError .rlp

end AccessList

end Interchain
