import Interchain.Proofs.Steps
import Interchain.State.Overlay

/-!
# What changes of a state show

What the state shows after a change, for each change and each thing that is shown: a change concerns the address it
is made for, and, for a slot, that slot. A counted read answers what the state shows and changes nothing but the
counts.

Marking an account needs the account, so it fails where the database does, without a change. A state without
anything pending shows its database (`Overlay.ShowsDatabase`).
-/

namespace Interchain

/-! ### Marked accounts -/

/-- An account that shows an active contract. -/
structure Account.IsMarked (a : Account) : Prop where
  nonce : a.nonce = 1
  codeHash : a.codeHash = Overlay.markerHash
  code : a.code = some Overlay.markerCode

theorem Account.not_isMarked_empty : ¬ Account.empty.IsMarked := by
  intro h
  have hnonce : Account.empty.nonce ≠ 1 := by decide
  exact hnonce h.nonce

/-- The account of a contract that becomes active: its balance stays. -/
def Account.withMarker (account : Account) : Account :=
  { account with nonce := 1, codeHash := Overlay.markerHash, code := some Overlay.markerCode }

theorem Account.isMarked_withMarker (account : Account) : account.withMarker.IsMarked := ⟨rfl, rfl, rfl⟩

namespace Overlay

variable {s : Overlay} {a : Address} {account : Account} {e : DatabaseError}

/-! ### Changes -/

theorem account_setAccount (s : Overlay) (a : Address) (account : Account) (b : Address) :
    (s.setAccount a account).account b = if b = a then .ok account else s.account b := by
  unfold Overlay.account setAccount
  rw [Table.get?_insert]
  by_cases h : b = a
  · rw [if_pos h, if_pos h]
  · rw [if_neg h, if_neg h]

theorem account_clear (s : Overlay) (a b : Address) :
    (s.clear a).account b = if b = a then .ok .empty else s.account b :=
  account_setAccount s a .empty b

theorem pendingSlot_setSlot (s : Overlay) (a : Address) (slot value : Word) (b : Address) (i : Word) :
    (s.setSlot a slot value).pendingSlot b i =
      if b = a ∧ i = slot then some value else s.pendingSlot b i := by
  unfold pendingSlot setSlot
  rw [Table.get?_insert]
  by_cases hb : b = a
  · subst hb
    rw [if_pos rfl, Option.bind_some, Table.get?_insert]
    by_cases hi : i = slot
    · rw [if_pos hi, if_pos ⟨rfl, hi⟩]
    · rw [if_neg hi, if_neg fun h => hi h.2]
      cases s.storage.get? b with
      | none => rfl
      | some slots => rfl
  · rw [if_neg hb, if_neg fun h => hb h.1]

theorem slot_setSlot (s : Overlay) (a : Address) (slot value : Word) (b : Address) (i : Word) :
    (s.setSlot a slot value).slot b i = if b = a ∧ i = slot then .ok value else s.slot b i := by
  unfold Overlay.slot
  rw [pendingSlot_setSlot]
  by_cases h : b = a ∧ i = slot
  · rw [if_pos h, if_pos h]
  · rw [if_neg h, if_neg h]
    rfl

/-- A slot of an account that is reset is zero, whatever was written to it and whatever the database has for it. -/
theorem slot_clear (s : Overlay) (a b : Address) (i : Word) :
    (s.clear a).slot b i = if b = a then .ok 0 else s.slot b i := by
  unfold Overlay.slot pendingSlot clear Table.contains
  rw [Table.get?_erase, Table.get?_insert]
  by_cases h : b = a
  · rw [if_pos h, if_pos h, if_pos h]
    rfl
  · rw [if_neg h, if_neg h, if_neg h]

/-- Gives an account the marker, and the marker its code. -/
def withMarker (s : Overlay) (a : Address) (account : Account) : Overlay :=
  { s with
    accounts := s.accounts.insert a account.withMarker
    codes := s.codes.insert markerHash markerCode }

theorem account_withMarker (s : Overlay) (a : Address) (account : Account) (b : Address) :
    (s.withMarker a account).account b = if b = a then .ok account.withMarker else s.account b :=
  account_setAccount s a account.withMarker b

theorem code_withMarker (s : Overlay) (a : Address) (account : Account) (hash : Hash32) :
    (s.withMarker a account).code hash = if hash = markerHash then .ok markerCode else s.code hash := by
  unfold Overlay.code withMarker
  rw [Table.get?_insert]
  by_cases h : hash = markerHash
  · rw [if_pos h, if_pos h]
  · rw [if_neg h, if_neg h]

/-! ### Counted reads -/

/-- A result in the midst of the steps. -/
theorem run_liftM {α : Type} (r : Except DatabaseError α) (s : Overlay) :
    (liftM r : OverlayM α).run s = (r, s) := by
  cases r with
  | ok a => rfl
  | error e => rfl

/-- A counted read answers what the state shows. At most the counts change. -/
theorem run_counted {α : Type} (known : Overlay → Bool) (more : ReadCounts → ReadCounts)
    (answer : Overlay → Except DatabaseError α) (s : Overlay) :
    ∃ reads, (do
      let s ← getThe Overlay
      unless known s do
        set (s.countReads more)
      answer s : OverlayM α).run s = (answer s, { s with reads }) := by
  rw [Steps.run_bind]
  by_cases h : known s
  · refine ⟨s.reads, ?_⟩
    show (if known s then (liftM (answer s) : OverlayM α) else _).run s = _
    rw [if_pos h, run_liftM]
  · refine ⟨more s.reads, ?_⟩
    show (if known s then (liftM (answer s) : OverlayM α) else _).run s = _
    rw [if_neg h]
    exact run_liftM (answer s) _

theorem run_readAccount (a : Address) (s : Overlay) :
    ∃ reads, (readAccount a).run s = (s.account a, { s with reads }) :=
  run_counted (fun s => s.accounts.contains a) _ (fun s => s.account a) s

theorem run_readSlot (a : Address) (slot : Word) (s : Overlay) :
    ∃ reads, (readSlot a slot).run s = (s.slot a slot, { s with reads }) :=
  run_counted (fun s => (s.pendingSlot a slot).isSome || s.cleared.contains a) _ (fun s => s.slot a slot) s

theorem run_readCode (hash : Hash32) (s : Overlay) :
    ∃ reads, (readCode hash).run s = (s.code hash, { s with reads }) :=
  run_counted (fun s => s.codes.contains hash) _ (fun s => s.code hash) s

theorem run_readNonce (a : Address) (s : Overlay) :
    ∃ reads, (readNonce a).run s = ((s.account a).map (·.nonce), { s with reads }) := by
  obtain ⟨reads, hread⟩ := run_readAccount a s
  refine ⟨reads, ?_⟩
  rw [readNonce, Steps.run_bind, hread]
  cases s.account a with
  | ok account => rfl
  | error e => rfl

/-! ### Marking -/

/-- Marking an account that can be read. -/
theorem run_markActive (h : s.account a = .ok account) :
    ∃ reads, (markActive a).run s = (.ok (), { s.withMarker a account with reads }) := by
  obtain ⟨reads, hread⟩ := run_readAccount a s
  refine ⟨reads, ?_⟩
  rw [markActive, Steps.run_bind, hread, h]
  rfl

theorem run_markActive_of_error (h : s.account a = .error e) :
    ∃ reads, (markActive a).run s = (.error e, { s with reads }) := by
  obtain ⟨reads, hread⟩ := run_readAccount a s
  refine ⟨reads, ?_⟩
  rw [markActive, Steps.run_bind, hread, h]

/-! ### Nothing pending -/

/-- A state shows what its database has. -/
structure ShowsDatabase (s : Overlay) : Prop where
  slot : ∀ a slot, s.slot a slot = s.database.storage a slot
  account : ∀ a, s.account a = (s.database.account a).map (·.getD .empty)
  code : ∀ hash, s.code hash = s.database.code hash
  logs : s.logs = []

theorem showsDatabase_of_not_hasPending (h : s.hasPending = false) : s.ShowsDatabase := by
  simp only [hasPending, Bool.or_eq_false_iff, Bool.not_eq_false'] at h
  obtain ⟨⟨⟨⟨haccounts, hstorage⟩, hcodes⟩, hcleared⟩, hlogs⟩ := h
  refine ⟨fun a slot => ?_, fun a => ?_, fun hash => ?_, List.isEmpty_iff.1 hlogs⟩
  · rw [Overlay.slot, pendingSlot, Table.contains, Table.get?_of_isEmpty hstorage,
      Table.get?_of_isEmpty hcleared]
    rfl
  · rw [Overlay.account, Table.get?_of_isEmpty haccounts]
  · rw [Overlay.code, Table.get?_of_isEmpty hcodes]

end Overlay

end Interchain
