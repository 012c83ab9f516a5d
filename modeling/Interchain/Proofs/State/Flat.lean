import Interchain.Proofs.State.Overlay

/-!
# A state without layers

Behind its layers, an overlay is a plain map from addresses and slots to values. `FlatState` is such a map, and over
any database, also one that fails, an overlay answers all requests as the flat state does.

* `StateRequest`, `StateAnswer`: what may be asked of a state.
* `Overlay.Refines`: an overlay shows what a flat state keeps. `StateRequest.run_refines` is one request, with a lemma
  for each that changes something, and `Overlay.runAll_eq_flat` a sequence of them.
* `FlatState.Resolves`: the code of a marked account can be found, as long as it is marked.

How often the database is asked shows in an overlay and has no counterpart in a flat state, so the counts are left
out of what is compared.
-/

namespace Interchain

/-! ### Requests -/

inductive StateRequest where
  | setSlot (a : Address) (slot value : Word)
  | clear (a : Address)
  | markActive (a : Address)
  | addLog (log : Log)
  | takeLogs
  | attach (payloads : Table Address Bytes)
  | rollback
  | readSlot (a : Address) (slot : Word)
  | readAccount (a : Address)
  | readNonce (a : Address)
  | readCode (hash : Hash32)
  | readLogs
  | readAttached (a : Address)

inductive StateAnswer where
  | done (result : Except DatabaseError Unit)
  | slot (value : Except DatabaseError Word)
  | account (account : Except DatabaseError Account)
  | nonce (nonce : Except DatabaseError UInt64)
  | code (code : Except DatabaseError Bytes)
  | logs (logs : List Log)
  | attached (payload : Option Bytes)

namespace StateRequest

/-- The answer of an overlay, and its state afterwards. -/
def run (s : Overlay) : StateRequest → StateAnswer × Overlay
  | .setSlot a slot value => (.done (.ok ()), s.setSlot a slot value)
  | .clear a => (.done (.ok ()), s.clear a)
  | .markActive a => ((Overlay.markActive a).run s).map .done id
  | .addLog log => (.done (.ok ()), s.addLog log)
  | .takeLogs => (.logs s.logs, s.dropLogs)
  | .attach payloads => (.done (.ok ()), s.attach payloads)
  | .rollback => (.done (.ok ()), s.rollback)
  | .readSlot a slot => ((Overlay.readSlot a slot).run s).map .slot id
  | .readAccount a => ((Overlay.readAccount a).run s).map .account id
  | .readNonce a => ((Overlay.readNonce a).run s).map .nonce id
  | .readCode hash => ((Overlay.readCode hash).run s).map .code id
  | .readLogs => (.logs s.logs, s)
  | .readAttached a => (.attached (s.attached.get? a), s)

/-- Requests one after the other, to whatever answers them. -/
def runAll {σ : Type} (answer : σ → StateRequest → StateAnswer × σ) :
    List StateRequest → σ → List StateAnswer × σ
  | [], s => ([], s)
  | r :: rs, s =>
    let first := answer s r
    let rest := runAll answer rs first.2
    (first.1 :: rest.1, rest.2)

end StateRequest

/-! ### Flat states -/

/-- A state that keeps for each address and slot what it shows there. -/
structure FlatState where
  slot : Address → Word → Except DatabaseError Word
  account : Address → Except DatabaseError Account
  code : Hash32 → Except DatabaseError Bytes
  logs : List Log
  attached : Address → Option Bytes
  /-- The accounts whose code was set by marking them. No request reads this. -/
  marked : Address → Bool

namespace FlatState

/-- The view of a database. -/
def ofDatabase (db : Database) : FlatState where
  slot := db.storage
  account a := (db.account a).map (·.getD .empty)
  code := db.code
  logs := []
  attached _ := none
  marked _ := false

variable (f : FlatState)

def setSlot (a : Address) (slot value : Word) : FlatState :=
  { f with slot := fun b i => if b = a ∧ i = slot then .ok value else f.slot b i }

def clear (a : Address) : FlatState :=
  { f with
    slot := fun b i => if b = a then .ok 0 else f.slot b i
    account := fun b => if b = a then .ok .empty else f.account b
    marked := fun b => if b = a then false else f.marked b }

def withMarker (a : Address) (account : Account) : FlatState :=
  { f with
    account := fun b => if b = a then .ok account.withMarker else f.account b
    code := fun hash => if hash = Overlay.markerHash then .ok Overlay.markerCode else f.code hash
    marked := fun b => if b = a then true else f.marked b }

/-- An account that cannot be read is not marked. -/
def markActive (a : Address) : StateAnswer × FlatState :=
  match f.account a with
  | .ok account => (.done (.ok ()), f.withMarker a account)
  | .error e => (.done (.error e), f)

/-- Only what a transaction has attached outlives a rollback. -/
def rollback (db : Database) : FlatState :=
  { ofDatabase db with attached := f.attached }

/-- The answer of a flat state over a database, and the state afterwards. Reading changes nothing. -/
def run (db : Database) (f : FlatState) : StateRequest → StateAnswer × FlatState
  | .setSlot a slot value => (.done (.ok ()), f.setSlot a slot value)
  | .clear a => (.done (.ok ()), f.clear a)
  | .markActive a => f.markActive a
  | .addLog log => (.done (.ok ()), { f with logs := f.logs ++ [log] })
  | .takeLogs => (.logs f.logs, { f with logs := [] })
  | .attach payloads => (.done (.ok ()), { f with attached := payloads.get? })
  | .rollback => (.done (.ok ()), f.rollback db)
  | .readSlot a slot => (.slot (f.slot a slot), f)
  | .readAccount a => (.account (f.account a), f)
  | .readNonce a => (.nonce ((f.account a).map (·.nonce)), f)
  | .readCode hash => (.code (f.code hash), f)
  | .readLogs => (.logs f.logs, f)
  | .readAttached a => (.attached (f.attached a), f)

end FlatState

/-! ### From one to the other -/

/-- An overlay over a database shows what a flat state keeps. -/
structure Overlay.Refines (db : Database) (s : Overlay) (f : FlatState) : Prop where
  database : s.database = db
  slot : ∀ a slot, s.slot a slot = f.slot a slot
  account : ∀ a, s.account a = f.account a
  code : ∀ hash, s.code hash = f.code hash
  logs : s.logs = f.logs
  attached : ∀ a, s.attached.get? a = f.attached a

namespace Overlay.Refines

variable {db : Database} {s : Overlay} {f : FlatState}

theorem fresh (db : Database) : Refines db { database := db } (.ofDatabase db) where
  database := rfl
  slot _ _ := rfl
  account _ := rfl
  code _ := rfl
  logs := rfl
  attached _ := rfl

theorem withReads (h : s.Refines db f) (reads : ReadCounts) : Refines db { s with reads } f :=
  ⟨h.database, h.slot, h.account, h.code, h.logs, h.attached⟩

theorem setSlot (h : s.Refines db f) (a : Address) (slot value : Word) :
    (s.setSlot a slot value).Refines db (f.setSlot a slot value) where
  database := h.database
  slot b i := by rw [slot_setSlot, h.slot, FlatState.setSlot]
  account := h.account
  code := h.code
  logs := h.logs
  attached := h.attached

theorem clear (h : s.Refines db f) (a : Address) : (s.clear a).Refines db (f.clear a) where
  database := h.database
  slot b i := by rw [slot_clear, h.slot, FlatState.clear]
  account b := by rw [account_clear, h.account, FlatState.clear]
  code := h.code
  logs := h.logs
  attached := h.attached

theorem withMarker (h : s.Refines db f) (a : Address) (account : Account) :
    (s.withMarker a account).Refines db (f.withMarker a account) where
  database := h.database
  slot := h.slot
  account b := by rw [account_withMarker, h.account, FlatState.withMarker]
  code hash := by rw [code_withMarker, h.code, FlatState.withMarker]
  logs := h.logs
  attached := h.attached

theorem rollback (h : s.Refines db f) : s.rollback.Refines db (f.rollback db) where
  database := h.database
  slot a i := congrArg (·.storage a i) h.database
  account a := congrArg (fun d => (d.account a).map (·.getD .empty)) h.database
  code hash := congrArg (·.code hash) h.database
  logs := rfl
  attached := h.attached

theorem addLog (h : s.Refines db f) (log : Log) :
    (s.addLog log).Refines db { f with logs := f.logs ++ [log] } where
  database := h.database
  slot := h.slot
  account := h.account
  code := h.code
  logs := by rw [Overlay.addLog, h.logs]
  attached := h.attached

theorem dropLogs (h : s.Refines db f) : s.dropLogs.Refines db { f with logs := [] } :=
  ⟨h.database, h.slot, h.account, h.code, rfl, h.attached⟩

theorem attach (h : s.Refines db f) (payloads : Table Address Bytes) :
    (s.attach payloads).Refines db { f with attached := payloads.get? } :=
  ⟨h.database, h.slot, h.account, h.code, h.logs, fun _ => rfl⟩

end Overlay.Refines

/-- Two answers with the states after them: the answers are the same, and one state refines the other. -/
structure AnswersAlike (db : Database) (x : StateAnswer × Overlay) (y : StateAnswer × FlatState) : Prop where
  answer : x.1 = y.1
  refines : x.2.Refines db y.2

namespace StateRequest

variable {db : Database} {s : Overlay} {f : FlatState}

/-- Steps that at most count reads, as a flat state that stays as it is. -/
theorem answersAlike_of_read {α : Type} {x : OverlayM α} {result : Except DatabaseError α}
    (h : s.Refines db f) (hread : ∃ reads, x.run s = (result, { s with reads }))
    (answer : Except DatabaseError α → StateAnswer) :
    AnswersAlike db ((x.run s).map answer id) (answer result, f) := by
  obtain ⟨reads, hrun⟩ := hread
  rw [hrun]
  exact ⟨rfl, h.withReads reads⟩

theorem run_markActive (h : s.Refines db f) (a : Address) :
    AnswersAlike db ((markActive a).run s) (f.run db (markActive a)) := by
  show AnswersAlike db (((Overlay.markActive a).run s).map .done id) (f.markActive a)
  rw [FlatState.markActive, ← h.account]
  cases haccount : s.account a with
  | ok account =>
    obtain ⟨reads, hrun⟩ := Overlay.run_markActive haccount
    rw [hrun]
    exact ⟨rfl, (h.withMarker a account).withReads reads⟩
  | error e => exact answersAlike_of_read h (Overlay.run_markActive_of_error haccount) .done

/-- An overlay answers a request as the flat state that it refines, and goes on to refine it. -/
theorem run_refines (h : s.Refines db f) (r : StateRequest) : AnswersAlike db (r.run s) (f.run db r) := by
  cases r with
  | setSlot a slot value => exact ⟨rfl, h.setSlot a slot value⟩
  | clear a => exact ⟨rfl, h.clear a⟩
  | markActive a => exact run_markActive h a
  | addLog log => exact ⟨rfl, h.addLog log⟩
  | takeLogs => exact ⟨congrArg StateAnswer.logs h.logs, h.dropLogs⟩
  | attach payloads => exact ⟨rfl, h.attach payloads⟩
  | rollback => exact ⟨rfl, h.rollback⟩
  | readSlot a slot =>
    rw [FlatState.run, ← h.slot]
    exact answersAlike_of_read h (Overlay.run_readSlot a slot s) .slot
  | readAccount a =>
    rw [FlatState.run, ← h.account]
    exact answersAlike_of_read h (Overlay.run_readAccount a s) .account
  | readNonce a =>
    rw [FlatState.run, ← h.account]
    exact answersAlike_of_read h (Overlay.run_readNonce a s) .nonce
  | readCode hash =>
    rw [FlatState.run, ← h.code]
    exact answersAlike_of_read h (Overlay.run_readCode hash s) .code
  | readLogs => exact ⟨congrArg StateAnswer.logs h.logs, h⟩
  | readAttached a => exact ⟨congrArg StateAnswer.attached (h.attached a), h⟩

theorem runAll_refines (h : s.Refines db f) (rs : List StateRequest) :
    (runAll run rs s).1 = (runAll (FlatState.run db) rs f).1 ∧
      (runAll run rs s).2.Refines db (runAll (FlatState.run db) rs f).2 := by
  induction rs generalizing s f with
  | nil => exact ⟨rfl, h⟩
  | cons r rs ih =>
    obtain ⟨hanswer, hnext⟩ := run_refines h r
    obtain ⟨hanswers, hlast⟩ := ih hnext
    refine ⟨?_, hlast⟩
    show (r.run s).1 :: _ = (f.run db r).1 :: _
    rw [hanswer, hanswers]

end StateRequest

/-! ### The code of marked accounts -/

/-- Every marked account carries the marker, and the code of the marker can be found. -/
structure FlatState.Resolves (f : FlatState) : Prop where
  account : ∀ a, f.marked a = true → ∃ account, f.account a = .ok account ∧ account.IsMarked
  code : ∀ a, f.marked a = true → f.code Overlay.markerHash = .ok Overlay.markerCode

namespace FlatState.Resolves

variable {f : FlatState}

theorem ofDatabase (db : Database) : Resolves (.ofDatabase db) where
  account _ h := nomatch h
  code _ h := nomatch h

theorem marked_of_clear {a b : Address} (hb : (f.clear a).marked b = true) : b ≠ a ∧ f.marked b = true := by
  by_cases hba : b = a
  · have hfalse : (f.clear a).marked b = false := if_pos hba
    rw [hfalse] at hb
    cases hb
  · exact ⟨hba, (if_neg hba).symm.trans hb⟩

theorem clear (h : f.Resolves) (a : Address) : (f.clear a).Resolves where
  account b hb := by
    obtain ⟨hba, hmarked⟩ := marked_of_clear hb
    obtain ⟨account, haccount, hmarker⟩ := h.account b hmarked
    exact ⟨account, (if_neg hba).trans haccount, hmarker⟩
  code b hb := h.code b (marked_of_clear hb).2

theorem code_withMarker (f : FlatState) (a : Address) (account : Account) (hash : Hash32) :
    (f.withMarker a account).code hash =
      if hash = Overlay.markerHash then .ok Overlay.markerCode else f.code hash := by
  rw [FlatState.withMarker]

theorem withMarker (h : f.Resolves) (a : Address) (account : Account) : (f.withMarker a account).Resolves where
  account b hb := by
    by_cases hba : b = a
    · exact ⟨account.withMarker, if_pos hba, account.isMarked_withMarker⟩
    · obtain ⟨other, hother, hmarker⟩ := h.account b ((if_neg hba).symm.trans hb)
      exact ⟨other, (if_neg hba).trans hother, hmarker⟩
  code b _ := by rw [code_withMarker, if_pos rfl]

theorem markActive (h : f.Resolves) (a : Address) : (f.markActive a).2.Resolves := by
  unfold FlatState.markActive
  cases f.account a with
  | ok account => exact h.withMarker a account
  | error e => exact h

theorem run (h : f.Resolves) (db : Database) (r : StateRequest) : (f.run db r).2.Resolves := by
  cases r with
  | clear a => exact h.clear a
  | markActive a => exact h.markActive a
  | rollback => exact ⟨fun _ => nofun, fun _ => nofun⟩
  | setSlot a slot value => exact ⟨h.account, h.code⟩
  | addLog log => exact ⟨h.account, h.code⟩
  | takeLogs => exact ⟨h.account, h.code⟩
  | attach payloads => exact ⟨h.account, h.code⟩
  | readSlot a slot => exact h
  | readAccount a => exact h
  | readNonce a => exact h
  | readCode hash => exact h
  | readLogs => exact h
  | readAttached a => exact h

theorem runAll (h : f.Resolves) (db : Database) (rs : List StateRequest) :
    (StateRequest.runAll (FlatState.run db) rs f).2.Resolves := by
  induction rs generalizing f with
  | nil => exact h
  | cons r rs ih => exact ih (h.run db r)

end FlatState.Resolves

/-! ### Over a database -/

namespace Overlay

variable {s : Overlay} {f : FlatState} {db : Database}

/-- All reads are answered by a database. -/
structure AnswersFrom (db : Database) (s : Overlay) : Prop where
  slot : ∀ a slot, ((StateRequest.readSlot a slot).run s).1 = .slot (db.storage a slot)
  account : ∀ a,
    ((StateRequest.readAccount a).run s).1 = .account ((db.account a).map (·.getD .empty))
  nonce : ∀ a,
    ((StateRequest.readNonce a).run s).1 = .nonce ((db.account a).map fun stored => (stored.getD .empty).nonce)
  code : ∀ hash, ((StateRequest.readCode hash).run s).1 = .code (db.code hash)
  logs : (StateRequest.readLogs.run s).1 = .logs []

theorem Refines.answersFrom (h : s.Refines db f) (hpending : s.hasPending = false) : s.AnswersFrom db := by
  have hs := showsDatabase_of_not_hasPending hpending
  have hanswer := fun r => (StateRequest.run_refines h r).answer
  constructor
  · intro a slot
    rw [hanswer, FlatState.run, ← h.slot, hs.slot, h.database]
  · intro a
    rw [hanswer, FlatState.run, ← h.account, hs.account, h.database]
  · intro a
    rw [hanswer, FlatState.run, ← h.account, hs.account, h.database]
    cases db.account a with
    | ok stored => rfl
    | error e => rfl
  · intro hash
    rw [hanswer, FlatState.run, ← h.code, hs.code, h.database]
  · rw [hanswer, FlatState.run, ← h.logs, hs.logs]

/-- An account carries the marker, and the code that its hash stands for is that of the marker. -/
def CarriesMarker (s : Overlay) (a : Address) : Prop :=
  ∃ account, ((StateRequest.readAccount a).run s).1 = .account (.ok account) ∧ account.IsMarked ∧
    ((StateRequest.readCode account.codeHash).run s).1 = .code (.ok markerCode)

theorem Refines.carriesMarker (h : s.Refines db f) (hf : f.Resolves) {a : Address} (ha : f.marked a = true) :
    s.CarriesMarker a := by
  obtain ⟨account, haccount, hmarked⟩ := hf.account a ha
  refine ⟨account, ?_, hmarked, ?_⟩
  · rw [(StateRequest.run_refines h _).answer, FlatState.run, haccount]
  · rw [(StateRequest.run_refines h _).answer, FlatState.run, hmarked.codeHash, hf.code a ha]

/-- Whatever is asked of a fresh overlay over whatever database, a flat state gives the same answers. At the end, reads
are answered by the database if nothing is pending, and the code of every account that was marked can be found. -/
theorem runAll_eq_flat (db : Database) (rs : List StateRequest) :
    ∃ answers s f, StateRequest.runAll StateRequest.run rs { database := db } = (answers, s) ∧
      StateRequest.runAll (FlatState.run db) rs (.ofDatabase db) = (answers, f) ∧
      (s.hasPending = false → s.AnswersFrom db) ∧ ∀ a, f.marked a = true → s.CarriesMarker a := by
  obtain ⟨hanswers, hrefines⟩ := StateRequest.runAll_refines (.fresh db) rs
  have hresolves := (FlatState.Resolves.ofDatabase db).runAll db rs
  refine ⟨_, _, _, rfl, ?_, hrefines.answersFrom, fun a => hrefines.carriesMarker hresolves⟩
  rw [hanswers]

end Overlay

end Interchain
