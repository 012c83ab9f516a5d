import Interchain.Proofs.Message.Wire
import Mathlib.Control.Monad.Basic

/-!
# Scripts of steps

Any number of steps, written one behind the other and read in the same order. What is written and what is read go by
one written form, the forms of the single items in a row (`Wire.Item.form`), which is a fact about single steps and
then an induction on the script.

A script whose items all fit is read back by their shapes, and nothing else is. A step that is refused has written
nothing, so a script that goes on behind it comes out as if the step were not there; this is what `Wire.tryAll` is
for. Reading has no such second chance: the script stops at the first step that fails.
-/

namespace Interchain.Wire

variable {bs out written rest : Bytes} {i : Item} {items : List Item} {s : Shape} {shapes : List Shape}

/-! ### Single steps -/

namespace Item

/-- The bytes that stand for an item. -/
def form : Item → Bytes
  | fixed bs => bs
  | word n => Bytes.ofNat 4 n.toNat
  | field bs => Wire.field bs

/-- Only byte strings behind their length can be too large. -/
def Fits : Item → Prop
  | field bs => bs.length ≤ maxFieldSize
  | _ => True

instance : DecidablePred Fits
  | fixed _ => inferInstanceAs (Decidable True)
  | word _ => inferInstanceAs (Decidable True)
  | field bs => inferInstanceAs (Decidable (bs.length ≤ maxFieldSize))

end Item

/-- An item is written as its form, if it fits. -/
theorem run_write_eq_ok_iff : i.write.run written = (.ok (), out) ↔ i.Fits ∧ out = written ++ i.form := by
  cases i with
  | fixed bs =>
    rw [Item.write, run_put, Prod.mk.injEq]
    exact ⟨fun h => ⟨trivial, h.2.symm⟩, fun h => ⟨rfl, h.2.symm⟩⟩
  | word n =>
    rw [Item.write, run_putWord, Prod.mk.injEq]
    exact ⟨fun h => ⟨trivial, h.2.symm⟩, fun h => ⟨rfl, h.2.symm⟩⟩
  | field bs =>
    rw [Item.write, run_putField]
    by_cases h : maxFieldSize < bs.length
    · rw [if_pos h]
      exact ⟨nofun, fun hfits => absurd hfits.1 (Nat.not_le_of_lt h)⟩
    · rw [if_neg h, Prod.mk.injEq]
      exact ⟨fun hout => ⟨Nat.le_of_not_lt h, hout.2.symm⟩, fun hout => ⟨rfl, hout.2.symm⟩⟩

/-- An item is read by its shape from its form, whatever follows. -/
theorem run_read_form (hi : i.Fits) (rest : Bytes) : i.shape.read.run (i.form ++ rest) = (.ok i, rest) := by
  cases i with
  | fixed bs => exact Steps.run_bind_eq_ok_iff.2 ⟨⟨bs, rfl⟩, rest, run_get_eq_ok_iff.2 rfl, rfl⟩
  | word n => exact Steps.run_bind_eq_ok_iff.2 ⟨n, rest, run_getWord_eq_ok_iff.2 rfl, rfl⟩
  | field bs => exact Steps.run_bind_eq_ok_iff.2 ⟨bs, rest, run_getField_eq_ok_iff.2 ⟨hi, rfl⟩, rfl⟩

/-- Nothing else is read: the form of the item stood at the front. -/
theorem form_of_run_read (h : s.read.run bs = (.ok i, rest)) : i.shape = s ∧ i.Fits ∧ bs = i.form ++ rest := by
  cases s with
  | fixed n =>
    obtain ⟨x, u, hx, h⟩ := Steps.run_bind_eq_ok_iff.1 h
    obtain ⟨rfl, rfl⟩ := Steps.run_pure_eq_ok_iff.1 h
    exact ⟨congrArg Shape.fixed x.length_bytes, trivial, run_get_eq_ok_iff.1 hx⟩
  | word =>
    obtain ⟨w, u, hw, h⟩ := Steps.run_bind_eq_ok_iff.1 h
    obtain ⟨rfl, rfl⟩ := Steps.run_pure_eq_ok_iff.1 h
    exact ⟨rfl, trivial, run_getWord_eq_ok_iff.1 hw⟩
  | field =>
    obtain ⟨content, u, hcontent, h⟩ := Steps.run_bind_eq_ok_iff.1 h
    obtain ⟨rfl, rfl⟩ := Steps.run_pure_eq_ok_iff.1 h
    exact ⟨rfl, run_getField_eq_ok_iff.1 hcontent⟩

/-! ### Whole scripts -/

def writeAll (items : List Item) : WireM Unit :=
  items.forM Item.write

def readAll (shapes : List Shape) : WireM (List Item) :=
  shapes.mapM Shape.read

/-- Takes every step, also behind one that has failed, and notes the results. -/
def tryAll (items : List Item) : StateM Bytes (List (Except MessageError Unit)) :=
  items.mapM fun i => i.write.run

theorem run_writeAll_eq_ok_iff :
    (writeAll items).run written = (.ok (), out) ↔
      (∀ i ∈ items, i.Fits) ∧ out = written ++ items.flatMap Item.form := by
  induction items generalizing written with
  | nil =>
    show (Except.ok (), written) = (Except.ok (), out) ↔ _
    simp [eq_comm]
  | cons i items ih =>
    show (i.write >>= fun _ => writeAll items).run written = (.ok (), out) ↔ _
    rw [Steps.run_bind_eq_ok_iff, List.forall_mem_cons, List.flatMap_cons, ← List.append_assoc]
    constructor
    · intro ⟨_, middle, hi, hitems⟩
      obtain ⟨hfits, rfl⟩ := run_write_eq_ok_iff.1 hi
      obtain ⟨hrest, hout⟩ := ih.1 hitems
      exact ⟨⟨hfits, hrest⟩, hout⟩
    · intro ⟨⟨hfits, hrest⟩, hout⟩
      exact ⟨(), written ++ i.form, run_write_eq_ok_iff.2 ⟨hfits, rfl⟩, ih.2 ⟨hrest, hout⟩⟩

theorem run_readAll_eq_ok_iff :
    (readAll shapes).run bs = (.ok items, rest) ↔
      items.map Item.shape = shapes ∧ (∀ i ∈ items, i.Fits) ∧ bs = items.flatMap Item.form ++ rest := by
  -- The reader goes by the shapes, so the induction is on them, for every input and every list of items.
  induction shapes generalizing items bs with
  | nil =>
    rw [readAll, List.mapM_nil, Steps.run_pure_eq_ok_iff]
    constructor
    · rintro ⟨rfl, rfl⟩
      exact ⟨rfl, List.forall_mem_nil _, rfl⟩
    · intro ⟨hshapes, _, hbs⟩
      obtain rfl := List.map_eq_nil_iff.1 hshapes
      exact ⟨rfl, hbs⟩
  | cons s shapes ih =>
    rw [readAll, List.mapM_cons, Steps.run_bind_eq_ok_iff]
    constructor
    · intro ⟨i, middle, hi, h⟩
      obtain ⟨others, left, hothers, h⟩ := Steps.run_bind_eq_ok_iff.1 h
      obtain ⟨rfl, rfl⟩ := Steps.run_pure_eq_ok_iff.1 h
      obtain ⟨hshape, hfits, rfl⟩ := form_of_run_read hi
      obtain ⟨hshapes, hrest, rfl⟩ := ih.1 hothers
      refine ⟨congrArg₂ List.cons hshape hshapes, List.forall_mem_cons.2 ⟨hfits, hrest⟩, ?_⟩
      rw [List.flatMap_cons, List.append_assoc]
    · intro ⟨hshapes, hfits, hbs⟩
      cases items with
      | nil => cases hshapes
      | cons i items =>
        obtain ⟨hshape, hothers⟩ := List.cons.inj hshapes
        obtain ⟨hi, hitems⟩ := List.forall_mem_cons.1 hfits
        rw [hbs, ← hshape, List.flatMap_cons, List.append_assoc]
        refine ⟨i, _, run_read_form hi _, ?_⟩
        exact Steps.run_bind_eq_ok_iff.2 ⟨items, rest, ih.2 ⟨hothers, hitems, rfl⟩, rfl⟩

/-! ### Scripts that go on -/

theorem run_tryAll_cons (i : Item) (items : List Item) (written : Bytes) :
    (tryAll (i :: items)).run written =
      ((i.write.run written).1 :: ((tryAll items).run (i.write.run written).2).1,
        ((tryAll items).run (i.write.run written).2).2) := by
  rw [tryAll, List.mapM_cons]
  rfl

theorem run_tryAll_append (front back : List Item) (written : Bytes) :
    (tryAll (front ++ back)).run written =
      (((tryAll front).run written).1 ++ ((tryAll back).run ((tryAll front).run written).2).1,
        ((tryAll back).run ((tryAll front).run written).2).2) := by
  rw [tryAll, List.mapM_append]
  rfl

theorem length_run_tryAll (items : List Item) (written : Bytes) :
    ((tryAll items).run written).1.length = items.length := by
  induction items generalizing written with
  | nil => rfl
  | cons i items ih => rw [run_tryAll_cons, List.length_cons, List.length_cons, ih]

/-! ### Both directions -/

theorem encode_eq_ok_iff {steps : WireM Unit} :
    encode steps = .ok bs ↔ steps.run versionTag = (.ok (), bs) := by
  unfold encode
  cases steps.run versionTag with
  | mk result written =>
    rw [Prod.mk.injEq]
    cases result with
    | ok _ => exact ⟨fun h => ⟨rfl, Except.ok.inj h⟩, fun h => congrArg Except.ok h.2⟩
    | error e => exact ⟨nofun, fun h => nomatch h.1⟩

/-- Items are read by their shapes from exactly the bytes that are written for them. -/
theorem decode_readAll_iff :
    decode (readAll shapes) bs = .ok items ↔
      items.map Item.shape = shapes ∧ encode (writeAll items) = .ok bs := by
  rw [decode_eq_ok_iff, encode_eq_ok_iff, run_writeAll_eq_ok_iff]
  simp only [run_readAll_eq_ok_iff, List.append_nil]
  constructor
  · rintro ⟨_, rfl, hshapes, hfits, rfl⟩
    exact ⟨hshapes, hfits, rfl⟩
  · intro ⟨hshapes, hfits, hbs⟩
    exact ⟨_, hbs, hshapes, hfits, rfl⟩

/-- Whatever a script of items that fit has written is read back by their shapes, up to the end. Whatever is read up to the
end by a script of shapes is what its items are written as. A byte string that is too large is refused at any place of a
script, and the rest is written as if it were not there. -/
theorem scripts_dual :
    (∀ items : List Item, (∀ i ∈ items, i.Fits) → ∃ bs, encode (writeAll items) = .ok bs ∧
      decode (readAll (items.map Item.shape)) bs = .ok items) ∧
    (∀ shapes bs items, decode (readAll shapes) bs = .ok items →
      items.map Item.shape = shapes ∧ encode (writeAll items) = .ok bs) ∧
    ∀ front back content written, maxFieldSize < content.length → ∃ rs ss bs, rs.length = front.length ∧
      (tryAll (front ++ back)).run written = (rs ++ ss, bs) ∧
      (tryAll (front ++ .field content :: back)).run written =
        (rs ++ .error (.fieldTooLarge content.length maxFieldSize) :: ss, bs) := by
  refine ⟨fun items hfits => ?_, fun shapes bs items h => decode_readAll_iff.1 h, ?_⟩
  · have hencode : encode (writeAll items) = .ok (versionTag ++ items.flatMap Item.form) :=
      encode_eq_ok_iff.2 (run_writeAll_eq_ok_iff.2 ⟨hfits, rfl⟩)
    exact ⟨_, hencode, decode_readAll_iff.2 ⟨rfl, hencode⟩⟩
  · intro front back content written hlarge
    refine ⟨_, _, _, length_run_tryAll front written, run_tryAll_append front back written, ?_⟩
    rw [run_tryAll_append, run_tryAll_cons, Item.write, run_putField, if_pos hlarge]

/-- Three steps of three kinds, and a byte string that is one byte too large between two numbers. -/
theorem scripts_dual_greeting :
    (∃ bs, encode (writeAll [.fixed [0xaa, 0xaa], .word 7, .field (Bytes.ofString "hi")]) = .ok bs ∧
      decode (readAll [.fixed 2, .word, .field]) bs =
        .ok [.fixed [0xaa, 0xaa], .word 7, .field (Bytes.ofString "hi")]) ∧
    encode (writeAll [.fixed [1, 2], .field [3]]) = .ok [0, 0, 1, 2, 0, 0, 0, 1, 3] ∧
    (tryAll [.word 7, .field (List.replicate (maxFieldSize + 1) 0), .word 9]).run versionTag =
      ([.ok (), .error (.fieldTooLarge (maxFieldSize + 1) maxFieldSize), .ok ()],
        [0, 0, 0, 0, 0, 7, 0, 0, 0, 9]) := by
  obtain ⟨hwritten, hread, hlarge⟩ := scripts_dual
  refine ⟨?_, ?_, ?_⟩
  · exact hwritten [.fixed [0xaa, 0xaa], .word 7, .field (Bytes.ofString "hi")] (by decide +kernel)
  · have hdecode : decode (readAll [.fixed 2, .field]) [0, 0, 1, 2, 0, 0, 0, 1, 3] =
        .ok [.fixed [1, 2], .field [3]] := by decide +kernel
    exact (hread _ _ _ hdecode).2
  · obtain ⟨rs, ss, bs, hlength, hwithout, hwith⟩ :=
      hlarge [.word 7] [.word 9] (List.replicate (maxFieldSize + 1) 0) versionTag
        (by rw [List.length_replicate]; exact Nat.lt_succ_self _)
    have hrun : (tryAll ([.word 7] ++ [.word 9])).run versionTag =
        ([.ok ()] ++ [.ok ()], [0, 0, 0, 0, 0, 7, 0, 0, 0, 9]) := by rfl
    obtain ⟨hresults, hbs⟩ := Prod.mk.inj (hwithout.symm.trans hrun)
    obtain ⟨rfl, rfl⟩ := List.append_inj hresults hlength
    rw [List.length_replicate] at hwith
    rw [← hbs]
    exact hwith

end Interchain.Wire
