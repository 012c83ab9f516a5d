/-!
# Finite maps

A map is the list of its entries in the order of their keys. A change concerns its own key and no other:
`Table.get?_insert` and `Table.get?_erase` say so for every list of entries, sorted or not. That insertion keeps the
order is a matter of its own, needed only where maps are compared.
-/

namespace Interchain

structure Table (κ υ : Type) where
  entries : List (κ × υ)
deriving DecidableEq

namespace Table

variable {κ υ : Type}

def empty : Table κ υ := ⟨[]⟩

instance : Inhabited (Table κ υ) := ⟨empty⟩

def isEmpty (t : Table κ υ) : Bool := t.entries.isEmpty

def size (t : Table κ υ) : Nat := t.entries.length

def keys (t : Table κ υ) : List κ := t.entries.map (·.1)

variable [DecidableEq κ]

/-! ### Lookup -/

def get? (t : Table κ υ) (k : κ) : Option υ :=
  t.entries.lookup k

def contains (t : Table κ υ) (k : κ) : Bool :=
  (t.get? k).isSome

@[simp] theorem get?_empty (k : κ) : (empty : Table κ υ).get? k = none := rfl

theorem get?_of_isEmpty {t : Table κ υ} (h : t.isEmpty = true) (k : κ) : t.get? k = none := by
  rw [get?, List.isEmpty_iff.1 h, List.lookup_nil]

/-! ### Removal -/

def erase (t : Table κ υ) (k : κ) : Table κ υ :=
  ⟨t.entries.filter (·.1 ≠ k)⟩

theorem get?_erase (t : Table κ υ) (k l : κ) :
    (t.erase k).get? l = if l = k then none else t.get? l := by
  obtain ⟨es⟩ := t
  simp only [get?, erase]
  induction es with
  | nil => simp
  | cons e es ih =>
    obtain ⟨x, v⟩ := e
    by_cases hx : x = k
    · subst hx
      rw [List.filter_cons_of_neg (by simp), ih]
      by_cases hl : l = x
      · simp only [hl, if_true]
      · simp only [hl, if_false, List.lookup_cons, beq_false_of_ne hl]
    · rw [List.filter_cons_of_pos (by simp [hx]), List.lookup_cons, List.lookup_cons, ih]
      by_cases hl : l = x
      · subst hl
        simp only [beq_self_eq_true, hx, if_false]
      · simp only [beq_false_of_ne hl]

/-! ### Insertion -/

variable [LT κ] [DecidableLT κ]

def insertEntry (k : κ) (v : υ) : List (κ × υ) → List (κ × υ)
  | [] => [(k, v)]
  | (x, w) :: es =>
    if k < x then (k, v) :: (x, w) :: es
    else if k = x then (k, v) :: es
    else (x, w) :: insertEntry k v es

def insert (t : Table κ υ) (k : κ) (v : υ) : Table κ υ :=
  ⟨insertEntry k v t.entries⟩

theorem lookup_insertEntry (k l : κ) (v : υ) (es : List (κ × υ)) :
    (insertEntry k v es).lookup l = if l = k then some v else es.lookup l := by
  induction es with
  | nil =>
    by_cases h : l = k
    · simp only [insertEntry, h, List.lookup_cons, beq_self_eq_true, if_true]
    · simp only [insertEntry, List.lookup_cons, beq_false_of_ne h, h, if_false]
  | cons e es ih =>
    obtain ⟨x, w⟩ := e
    by_cases h : l = k
    · subst h
      simp only [insertEntry]
      split
      · simp only [List.lookup_cons, beq_self_eq_true, if_true]
      · split
        · simp only [List.lookup_cons, beq_self_eq_true, if_true]
        · next hx => simp only [List.lookup_cons, beq_false_of_ne hx, ih, if_true]
    · simp only [insertEntry]
      rw [if_neg h]
      split
      · simp only [List.lookup_cons, beq_false_of_ne h]
      · split
        · next hx =>
          subst hx
          simp only [List.lookup_cons, beq_false_of_ne h]
        · simp only [List.lookup_cons, ih, if_neg h]

theorem get?_insert (t : Table κ υ) (k l : κ) (v : υ) :
    (t.insert k v).get? l = if l = k then some v else t.get? l :=
  lookup_insertEntry k l v t.entries

/-- The map of some entries; a later entry replaces an earlier one of the same key. -/
def ofList (es : List (κ × υ)) : Table κ υ :=
  es.foldl (fun t e => t.insert e.1 e.2) empty

example : (ofList [(3, 'c'), (1, 'a'), (3, 'd')]).entries = [(1, 'a'), (3, 'd')] := by decide

end Table

end Interchain
