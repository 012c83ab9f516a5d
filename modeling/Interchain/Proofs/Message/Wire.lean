import Interchain.Message.Wire
import Interchain.Proofs.Steps

/-!
# Steps of the wire format

Each step of a reader is characterised by the bytes that it takes from the front of its input, and each step of a
writer by the bytes that it leaves at the end of its output. Where steps are put together, these equivalences are
put together, with no need to look into a step again.

* `Wire.field`: the written form of a byte string behind its length.
* `Wire.run_get_eq_ok_iff`, `Wire.run_getWord_eq_ok_iff`, `Wire.run_getField_eq_ok_iff`: a step reads a value exactly
  if its written form stands at the front.
* `Wire.decode_eq_ok_iff`: a whole value is read from the version tag and the bytes of its steps, and nothing else.
* `Wire.run_putField`: a string that is too large is refused, and nothing is written.
* `Wire.checked`, `Wire.Lawful`: writers that fail only where a field is too large, and readers that undo them.

Errors of readers are not characterised here.
-/

namespace Interchain.Wire

variable {α : Type} {n : Nat} {bs rest : Bytes}

/-! ### Reading -/

theorem run_get (n : Nat) (bs : Bytes) :
    (get n).run bs =
      if h : bs.length < n then (.error (.truncated n bs.length), bs)
      else (.ok ⟨bs.take n, List.length_take_of_le (Nat.le_of_not_lt h)⟩, bs.drop n) := by
  unfold get
  rw [Steps.run_bind]
  show (if h : bs.length < n then _ else _ : WireM (FixedBytes n)).run bs = _
  split
  · rfl
  · rfl

theorem run_get_eq_ok_iff {x : FixedBytes n} :
    (get n).run bs = (.ok x, rest) ↔ bs = x.bytes ++ rest := by
  rw [run_get]
  constructor
  · intro h
    split at h
    · cases h
    · cases h
      exact (List.take_append_drop n bs).symm
  · intro h
    have hlength : ¬ bs.length < n := by
      rw [h, List.length_append, x.length_bytes]
      omega
    have htake : bs.take n = x.bytes := by rw [h, List.take_left' x.length_bytes]
    have hdrop : bs.drop n = rest := by rw [h, List.drop_left' x.length_bytes]
    rw [dif_neg hlength, hdrop]
    exact Prod.ext (congrArg Except.ok (FixedBytes.ext htake)) rfl

theorem run_getWord_eq_ok_iff {w : UInt32} :
    getWord.run bs = (.ok w, rest) ↔ bs = Bytes.ofNat 4 w.toNat ++ rest := by
  unfold getWord
  rw [Steps.run_bind_eq_ok_iff]
  constructor
  · intro ⟨x, u, hx, h⟩
    obtain ⟨rfl, rfl⟩ := Steps.run_pure_eq_ok_iff.1 h
    have hlt : x.toNat < 2 ^ 32 := x.toNat_lt
    rw [run_get_eq_ok_iff.1 hx, UInt32.toNat_ofNat_of_lt' hlt]
    exact congrArg (·.bytes ++ u) (FixedBytes.ofNat_toNat x).symm
  · intro h
    refine ⟨.ofNat 4 w.toNat, rest, run_get_eq_ok_iff.2 h, ?_⟩
    rw [FixedBytes.toNat_ofNat w.toNat_lt, UInt32.ofNat_toNat]
    rfl

/-- A string behind its length. -/
def field (bs : Bytes) : Bytes := Bytes.ofNat 4 bs.length ++ bs

theorem length_field (bs : Bytes) : (field bs).length = 4 + bs.length := by
  rw [field, List.length_append, Bytes.length_ofNat]

theorem toNat_length_of_le (h : bs.length ≤ maxFieldSize) :
    (UInt32.ofNat bs.length).toNat = bs.length := by
  have hmax : maxFieldSize < 2 ^ 32 := by decide
  exact UInt32.toNat_ofNat_of_lt' (Nat.lt_of_le_of_lt h hmax)

theorem run_getField_eq_ok_iff {content : Bytes} :
    getField.run bs = (.ok content, rest) ↔
      content.length ≤ maxFieldSize ∧ bs = field content ++ rest := by
  unfold getField
  rw [Steps.run_bind_eq_ok_iff]
  constructor
  · intro ⟨w, body, hw, h⟩
    obtain ⟨hle, h⟩ := Steps.run_guard_eq_ok_iff.1 h
    obtain ⟨x, u, hx, h⟩ := Steps.run_bind_eq_ok_iff.1 h
    obtain ⟨rfl, rfl⟩ := Steps.run_pure_eq_ok_iff.1 h
    have hword : w.toNat = x.bytes.length := x.length_bytes.symm
    refine ⟨hword ▸ Nat.le_of_not_lt hle, ?_⟩
    rw [run_getWord_eq_ok_iff.1 hw, run_get_eq_ok_iff.1 hx, field, ← hword, List.append_assoc]
  · intro ⟨hle, hbs⟩
    have hword := toNat_length_of_le hle
    refine ⟨.ofNat content.length, content ++ rest, run_getWord_eq_ok_iff.2 ?_, ?_⟩
    · rw [hbs, field, hword, List.append_assoc]
    · have hlt : ¬ (UInt32.ofNat content.length).toNat > maxFieldSize := by
        rw [hword]
        exact Nat.not_lt_of_le hle
      refine Steps.run_guard_eq_ok_iff.2 ⟨hlt, ?_⟩
      exact Steps.run_bind_eq_ok_iff.2 ⟨⟨content, hword.symm⟩, rest, run_get_eq_ok_iff.2 rfl, rfl⟩

theorem run_getVersion_eq_ok_iff : getVersion.run bs = (.ok (), rest) ↔ bs = versionTag ++ rest := by
  unfold getVersion
  rw [Steps.run_bind_eq_ok_iff]
  constructor
  · intro ⟨x, u, hx, h⟩
    by_cases hv : x.toNat = version
    · rw [if_neg (not_not_intro hv)] at h
      obtain ⟨-, rfl⟩ := Steps.run_pure_eq_ok_iff.1 h
      rw [run_get_eq_ok_iff.1 hx, versionTag, ← hv]
      exact congrArg (·.bytes ++ u) (FixedBytes.ofNat_toNat x).symm
    · rw [if_pos hv] at h
      cases h
  · intro h
    exact ⟨.ofNat 2 version, rest, run_get_eq_ok_iff.2 h, rfl⟩

theorem run_finish_eq_ok_iff : finish.run bs = (.ok (), rest) ↔ bs = [] ∧ rest = [] := by
  cases bs with
  | nil =>
    constructor
    · intro h
      cases h
      exact ⟨rfl, rfl⟩
    · intro ⟨_, h⟩
      rw [h]
      rfl
  | cons b bs => exact ⟨nofun, nofun⟩

/-- A value is read if its steps consume all that stands behind the version tag. -/
theorem decode_eq_ok_iff {steps : WireM α} {a : α} :
    decode steps bs = .ok a ↔ ∃ body, bs = versionTag ++ body ∧ steps.run body = (.ok a, []) := by
  have hfst {r : Except MessageError α × Bytes} : r.1 = .ok a ↔ ∃ left, r = (.ok a, left) :=
    ⟨fun h => ⟨r.2, Prod.ext h rfl⟩, fun ⟨_, h⟩ => h ▸ rfl⟩
  unfold decode
  rw [hfst]
  constructor
  · intro ⟨left, h⟩
    obtain ⟨_, body, hversion, h⟩ := Steps.run_bind_eq_ok_iff.1 h
    obtain ⟨value, tail, hsteps, h⟩ := Steps.run_bind_eq_ok_iff.1 h
    obtain ⟨_, u, hfinish, h⟩ := Steps.run_bind_eq_ok_iff.1 h
    obtain ⟨rfl, rfl⟩ := Steps.run_pure_eq_ok_iff.1 h
    obtain ⟨rfl, rfl⟩ := run_finish_eq_ok_iff.1 hfinish
    exact ⟨body, run_getVersion_eq_ok_iff.1 hversion, hsteps⟩
  · intro ⟨body, hbs, hsteps⟩
    refine ⟨[], Steps.run_bind_eq_ok_iff.2 ⟨(), body, run_getVersion_eq_ok_iff.2 hbs, ?_⟩⟩
    refine Steps.run_bind_eq_ok_iff.2 ⟨a, [], hsteps, ?_⟩
    exact Steps.run_bind_eq_ok_iff.2 ⟨(), [], run_finish_eq_ok_iff.2 ⟨rfl, rfl⟩, rfl⟩

/-! ### Writing -/

theorem run_put (bs written : Bytes) : (put bs).run written = (.ok (), written ++ bs) := rfl

theorem run_putWord (w : UInt32) (written : Bytes) :
    (putWord w).run written = (.ok (), written ++ Bytes.ofNat 4 w.toNat) := rfl

theorem run_putField (bs written : Bytes) :
    (putField bs).run written =
      if maxFieldSize < bs.length then (.error (.fieldTooLarge bs.length maxFieldSize), written)
      else (.ok (), written ++ field bs) := by
  unfold putField
  by_cases h : maxFieldSize < bs.length
  · rw [if_pos h, if_pos h]
    rfl
  · rw [if_neg h, if_neg h, Steps.run_bind]
    show (Except.ok (), written ++ Bytes.ofNat 4 (UInt32.ofNat bs.length).toNat ++ bs) = _
    rw [toNat_length_of_le (Nat.le_of_not_lt h), List.append_assoc, field]

/-! ### Laws of a value -/

/-- The written form of a value whose fields have these sizes, unless one of them is too large: the first such field is
reported. -/
def checked (sizes : List Nat) (form : Bytes) : Except MessageError Bytes :=
  match sizes.find? (maxFieldSize < ·) with
  | some size => .error (.fieldTooLarge size maxFieldSize)
  | none => .ok form

variable {sizes : List Nat} {form : Bytes}

@[simp] theorem checked_nil (form : Bytes) : checked [] form = .ok form := rfl

theorem checked_cons (size : Nat) (sizes : List Nat) (form : Bytes) :
    checked (size :: sizes) form =
      if maxFieldSize < size then .error (.fieldTooLarge size maxFieldSize) else checked sizes form := by
  unfold checked
  by_cases h : maxFieldSize < size
  · rw [List.find?_cons_of_pos (by simpa using h), if_pos h]
  · rw [List.find?_cons_of_neg (by simpa using h), if_neg h]

theorem checked_eq_ok_iff :
    checked sizes form = .ok bs ↔ (∀ n ∈ sizes, n ≤ maxFieldSize) ∧ form = bs := by
  have hfind : sizes.find? (maxFieldSize < ·) = none ↔ ∀ n ∈ sizes, n ≤ maxFieldSize := by
    simp only [List.find?_eq_none, decide_eq_true_eq, Nat.not_lt]
  unfold checked
  rw [← hfind]
  cases sizes.find? (maxFieldSize < ·) with
  | none => simp
  | some size => simp

theorem checked_eq_error_iff {e : MessageError} :
    checked sizes form = .error e ↔
      ∃ size, sizes.find? (maxFieldSize < ·) = some size ∧ e = .fieldTooLarge size maxFieldSize := by
  unfold checked
  cases sizes.find? (maxFieldSize < ·) with
  | none => simp
  | some size => simp [eq_comm]

/-- What can be read is exactly what can be written, and a value is not written only if one of its fields is too
large. -/
structure Lawful (encode : α → Except MessageError Bytes) (decode : Bytes → Except MessageError α)
    (fieldSizes : α → List Nat) : Prop where
  decode_eq_ok_iff : ∀ bs a, decode bs = .ok a ↔ encode a = .ok bs
  encode_eq_error_iff : ∀ a e, encode a = .error e ↔
    ∃ size, (fieldSizes a).find? (maxFieldSize < ·) = some size ∧ e = .fieldTooLarge size maxFieldSize

/-- A writer and a reader are lawful if both go by the same written form. -/
theorem Lawful.of_form {encode : α → Except MessageError Bytes}
    {decode : Bytes → Except MessageError α} {fieldSizes : α → List Nat} {form : α → Bytes}
    (hencode : ∀ a, encode a = checked (fieldSizes a) (form a))
    (hdecode : ∀ bs a, decode bs = .ok a ↔ (∀ n ∈ fieldSizes a, n ≤ maxFieldSize) ∧ bs = form a) :
    Lawful encode decode fieldSizes where
  decode_eq_ok_iff bs a := by
    rw [hdecode, hencode, checked_eq_ok_iff, eq_comm (a := bs)]
  encode_eq_error_iff a e := by
    rw [hencode]
    exact checked_eq_error_iff

end Interchain.Wire
