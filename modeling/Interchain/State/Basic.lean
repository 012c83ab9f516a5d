import Interchain.Bytes.Hex
import Interchain.Hash.Keccak
import Interchain.Table

/-!
# Accounts, logs and databases

What a chain keeps for an address, what its contracts emit, and the committed state as functions that may fail.
`Tables` is a database held in memory, which fails only for code that it does not have.
-/

namespace Interchain

/-! ### Accounts and logs -/

structure Account where
  nonce : UInt64 := 0
  balance : Word := 0
  codeHash : Hash32 := keccak256 []
  /-- The code itself, where it is at hand. -/
  code : Option Bytes := some []
deriving DecidableEq

/-- The account of an address that holds nothing. -/
def Account.empty : Account := {}

structure Log where
  address : Address
  topics : List Hash32
  data : Bytes
deriving DecidableEq

/-! ### Databases -/

inductive DatabaseError where
  | accountUnavailable
  | storageUnavailable
  | codeNotFound (hash : Hash32)
deriving DecidableEq

def DatabaseError.message : DatabaseError → String
  | .accountUnavailable => "AccountUnavailable"
  | .storageUnavailable => "StorageUnavailable"
  | .codeNotFound hash => s!"code not found: {Hex.encode0x hash.bytes}"

structure Database where
  account : Address → Except DatabaseError (Option Account)
  storage : Address → Word → Except DatabaseError Word
  code : Hash32 → Except DatabaseError Bytes

/-! ### Tables -/

structure Tables where
  accounts : Table Address Account := .empty
  storage : Table Address (Table Word Word) := .empty
  code : Table Hash32 Bytes := .empty

namespace Tables

def account (t : Tables) (a : Address) : Option Account :=
  t.accounts.get? a

def insertAccount (t : Tables) (a : Address) (account : Account) : Tables :=
  { t with accounts := t.accounts.insert a account }

/-- The value of a slot; a slot that was never written is zero. -/
def slot (t : Tables) (a : Address) (s : Word) : Word :=
  (((t.storage.get? a).getD .empty).get? s).getD 0

def insertSlot (t : Tables) (a : Address) (s value : Word) : Tables :=
  { t with storage := t.storage.insert a (((t.storage.get? a).getD .empty).insert s value) }

def codeOf (t : Tables) (hash : Hash32) : Except DatabaseError Bytes :=
  match t.code.get? hash with
  | some code => .ok code
  | none => .error (.codeNotFound hash)

/-- Tables keep no blocks, so the hash of each is zero. -/
def blockHash (_ : Tables) (_ : UInt64) : Hash32 := .zero

def toDatabase (t : Tables) : Database where
  account a := .ok (t.account a)
  storage a s := .ok (t.slot a s)
  code := t.codeOf

end Tables

end Interchain
