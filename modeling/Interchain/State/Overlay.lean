import Interchain.State.Basic

/-!
# Pending changes over a database

An overlay answers from its pending changes first and from the database otherwise. A cleared account hides all
storage that the database has for it. The payloads that the current transaction has attached lie beside the changes
and outlive a rollback.

* `Overlay.account`, `Overlay.slot`, `Overlay.code`: what the state shows.
* `Overlay.setSlot`, `Overlay.setAccount`, `Overlay.clear`, `Overlay.addLog`, `Overlay.rollback`: changes.
* `Overlay.readAccount`, `Overlay.readSlot`, `Overlay.readCode`: reading as a step that counts how often the database
  was asked.
* `Overlay.markActive`: making a built-in contract visible as an account.

There is one level of pending changes. Committing them to the database is not part of it.
-/

namespace Interchain

/-- How often a database has been asked, failures included. -/
structure ReadCounts where
  accounts : Nat := 0
  slots : Nat := 0
  codes : Nat := 0
deriving DecidableEq, Repr

structure Overlay where
  database : Database
  accounts : Table Address Account := .empty
  storage : Table Address (Table Word Word) := .empty
  codes : Table Hash32 Bytes := .empty
  /-- The accounts that were reset, whose storage in the database no longer counts. -/
  cleared : Table Address Unit := .empty
  logs : List Log := []
  /-- The payload that the current transaction has attached for each contract. -/
  attached : Table Address Bytes := .empty
  reads : ReadCounts := {}

/-- Steps on an overlay; the database may fail them. -/
abbrev OverlayM := ExceptT DatabaseError (StateM Overlay)

namespace Overlay

variable (s : Overlay) (a : Address)

/-! ### What the state shows -/

def account : Except DatabaseError Account :=
  match s.accounts.get? a with
  | some account => .ok account
  | none => (s.database.account a).map (·.getD .empty)

def pendingSlot (slot : Word) : Option Word :=
  (s.storage.get? a).bind (·.get? slot)

def slot (slot : Word) : Except DatabaseError Word :=
  match s.pendingSlot a slot with
  | some value => .ok value
  | none => if s.cleared.contains a then .ok 0 else s.database.storage a slot

def code (hash : Hash32) : Except DatabaseError Bytes :=
  match s.codes.get? hash with
  | some code => .ok code
  | none => s.database.code hash

def hasPending : Bool :=
  !s.accounts.isEmpty || !s.storage.isEmpty || !s.codes.isEmpty || !s.cleared.isEmpty || !s.logs.isEmpty

/-! ### Changes -/

def setSlot (slot value : Word) : Overlay :=
  { s with storage := s.storage.insert a (((s.storage.get? a).getD .empty).insert slot value) }

def setAccount (account : Account) : Overlay :=
  { s with accounts := s.accounts.insert a account }

/-- Resets an account: nothing of it is left, and nothing that the database has for it shows. -/
def clear : Overlay :=
  { s with
    accounts := s.accounts.insert a .empty
    storage := s.storage.erase a
    cleared := s.cleared.insert a () }

def addLog (log : Log) : Overlay :=
  { s with logs := s.logs ++ [log] }

def dropLogs : Overlay :=
  { s with logs := [] }

/-- Replaces the payloads of the previous transaction. -/
def attach (payloads : Table Address Bytes) : Overlay :=
  { s with attached := payloads }

def rollback : Overlay :=
  { s with accounts := .empty, storage := .empty, codes := .empty, cleared := .empty, logs := [] }

/-! ### Counted reads -/

def countReads (s : Overlay) (more : ReadCounts → ReadCounts) : Overlay :=
  { s with reads := more s.reads }

def readAccount (a : Address) : OverlayM Account := do
  let s ← getThe Overlay
  unless s.accounts.contains a do
    set (s.countReads fun r => { r with accounts := r.accounts + 1 })
  s.account a

def readNonce (a : Address) : OverlayM UInt64 :=
  return (← readAccount a).nonce

def readSlot (a : Address) (slot : Word) : OverlayM Word := do
  let s ← getThe Overlay
  unless (s.pendingSlot a slot).isSome || s.cleared.contains a do
    set (s.countReads fun r => { r with slots := r.slots + 1 })
  s.slot a slot

def readCode (hash : Hash32) : OverlayM Bytes := do
  let s ← getThe Overlay
  unless s.codes.contains hash do
    set (s.countReads fun r => { r with codes := r.codes + 1 })
  s.code hash

/-! ### Active contracts -/

/-- The code of a built-in contract that is active, so that its account is not empty. -/
def markerCode : Bytes := [1]

def markerHash : Hash32 := keccak256 markerCode

/-- Gives the account of a contract a nonce and the marker code. Its balance stays. -/
def markActive (a : Address) : OverlayM Unit := do
  let account ← readAccount a
  modify fun s =>
    { s with codes := s.codes.insert markerHash markerCode }.setAccount a
      { account with nonce := 1, codeHash := markerHash, code := some markerCode }

end Overlay

end Interchain
