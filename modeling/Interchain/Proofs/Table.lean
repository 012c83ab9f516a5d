import Interchain.Bytes.Fixed
import Interchain.Table
import Mathlib.Data.List.Sort

/-!
# What a finite map holds

The entries of a map stand in the order of their keys, so what the map answers to each key is all that it is: two
maps with the same answers are the same (`Table.Sorted.ext`). The empty map is in order, and a map stays in order
while entries are added to it.

Keys need a strict total order, which byte strings of one length have. That removing an entry keeps the order is not
needed.
-/

namespace Interchain

/-! ### The order of byte strings -/

instance FixedBytes.isStrictTotalOrder (n : Nat) : IsStrictTotalOrder (FixedBytes n) (· < ·) where
  irrefl := lt_irrefl
  trans _ _ _ := lt_trans
  trichotomous _ _ := eq_of_not_lt

namespace Table

variable {κ υ : Type} [LT κ] {s t : Table κ υ} {k : κ} {v : υ}

/-! ### Entries in order -/

/-- Each entry has a smaller key than those behind it. -/
def Sorted (t : Table κ υ) : Prop := t.entries.Pairwise fun e f => e.1 < f.1

theorem sorted_empty : (empty : Table κ υ).Sorted := .nil

section Lookup

variable [DecidableEq κ] [IsStrictTotalOrder κ (· < ·)]

instance : Std.Asymm fun e f : κ × υ => e.1 < f.1 :=
  ⟨fun e f => Std.Asymm.asymm (r := fun k l : κ => k < l) e.1 f.1⟩

theorem Sorted.mem_entries_iff (h : t.Sorted) : (k, v) ∈ t.entries ↔ t.get? k = some v := by
  obtain ⟨es⟩ := t
  show (k, v) ∈ es ↔ es.lookup k = some v
  induction es with
  | nil => simp
  | cons e es ih =>
    obtain ⟨x, w⟩ := e
    obtain ⟨hfirst, hrest⟩ := List.pairwise_cons.1 h
    rw [List.mem_cons, List.lookup_cons, ih hrest]
    by_cases hx : k = x
    · subst hx
      -- the key of the first entry does not occur again
      have hnone : ¬es.lookup k = some v := fun hv =>
        Std.Irrefl.irrefl k (hfirst (k, v) ((ih hrest).2 hv))
      simp [hnone, eq_comm]
    · simp [hx, beq_false_of_ne hx]

protected theorem Sorted.ext (hs : s.Sorted) (ht : t.Sorted) (h : ∀ k, s.get? k = t.get? k) :
    s = t := by
  have hentries : s.entries = t.entries := by
    apply List.Pairwise.eq_of_mem_iff hs ht
    intro e
    rw [hs.mem_entries_iff, ht.mem_entries_iff, h]
  cases s
  exact congrArg Table.mk hentries

end Lookup

/-! ### Adding an entry -/

section Insert

variable [DecidableEq κ] [DecidableLT κ] {es : List (κ × υ)}

theorem mem_insertEntry {f : κ × υ} (h : f ∈ insertEntry k v es) : f = (k, v) ∨ f ∈ es := by
  induction es with
  | nil => exact .inl (List.mem_singleton.1 h)
  | cons e es ih =>
    obtain ⟨x, w⟩ := e
    rw [insertEntry] at h
    split at h
    · exact List.mem_cons.1 h
    · split at h
      · exact (List.mem_cons.1 h).imp_right (List.mem_cons_of_mem _)
      · rcases List.mem_cons.1 h with rfl | h
        · exact .inr List.mem_cons_self
        · exact (ih h).imp_right (List.mem_cons_of_mem _)

variable [IsStrictTotalOrder κ (· < ·)]

theorem pairwise_insertEntry (h : es.Pairwise fun e f => e.1 < f.1) :
    (insertEntry k v es).Pairwise fun e f => e.1 < f.1 := by
  induction es with
  | nil => exact List.pairwise_singleton _ _
  | cons e es ih =>
    obtain ⟨x, w⟩ := e
    obtain ⟨hfirst, hrest⟩ := List.pairwise_cons.1 h
    rw [insertEntry]
    split
    · next hlt =>
      apply List.pairwise_cons.2 ⟨_, h⟩
      intro f hf
      rcases List.mem_cons.1 hf with rfl | hf
      · exact hlt
      · exact IsTrans.trans k x f.1 hlt (hfirst f hf)
    · next hle =>
      split
      · next heq => exact List.pairwise_cons.2 ⟨heq ▸ hfirst, hrest⟩
      · next hne =>
        have hgt : x < k := by
          by_contra hge
          exact hne (Std.Trichotomous.trichotomous (r := fun a b : κ => a < b) k x hle hge)
        apply List.pairwise_cons.2 ⟨_, ih hrest⟩
        intro f hf
        rcases mem_insertEntry hf with rfl | hf
        · exact hgt
        · exact hfirst f hf

protected theorem Sorted.insert (h : t.Sorted) (k : κ) (v : υ) : (t.insert k v).Sorted :=
  pairwise_insertEntry h

end Insert

end Table

end Interchain
