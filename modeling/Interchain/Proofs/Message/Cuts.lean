import Interchain.Proofs.Message.Codec

/-!
# Messages that are cut short or go on

A value says by itself where it ends. So a reader that stops inside it knows how many bytes are missing, and a
reader that has come to its end knows how many are left.

* `Wire.Reads`: steps that read a value from its written form, whatever follows it, and from no shorter part of it.
* `Wire.Prompt`: steps that read each value in this way. Single steps are prompt, and `Wire.Prompt.bind` puts two
  together.
* `Wire.decode_take`, `Wire.decode_append`: a whole value that is cut short, and one that goes on.
* `Wire.Delimited`, `wireFormats_delimited`: both for the three kinds of value, none of which starts with another.

The number of bytes that are missed is that of the step which fails, not of the whole value, and it is only bounded
here.
-/

namespace Interchain

namespace Wire

variable {α β : Type} {bs form front back rest : Bytes} {a : α} {b : β} {n j k : Nat} {e : MessageError}

/-! ### Cut short -/

/-- More bytes are needed than the at most `k` that remain. -/
def CutShort (k : Nat) (e : MessageError) : Prop :=
  ∃ needed remaining, e = .truncated needed remaining ∧ remaining < needed ∧ remaining ≤ k

theorem CutShort.mono (h : CutShort j e) (hjk : j ≤ k) : CutShort k e := by
  obtain ⟨needed, remaining, he, hlt, hle⟩ := h
  exact ⟨needed, remaining, he, hlt, Nat.le_trans hle hjk⟩

/-! ### Steps that end where the value ends -/

/-- The steps read a value from its written form, whatever follows it, and no shorter part of the form is enough. -/
structure Reads (steps : WireM α) (form : Bytes) (a : α) : Prop where
  run_append : ∀ rest, steps.run (form ++ rest) = (.ok a, rest)
  run_take : ∀ k < form.length, ∃ e left, steps.run (form.take k) = (.error e, left) ∧ CutShort k e

variable {steps x : WireM α} {f : α → WireM β}

theorem Reads.pure (a : α) : Reads (Pure.pure a) [] a where
  run_append _ := rfl
  run_take _ hk := absurd hk (Nat.not_lt_zero _)

/-- The form of two steps one after the other. A cut hits the first step, or the second behind the whole form of
the first. -/
theorem Reads.bind (hx : Reads x front a) (hf : Reads (f a) back b) : Reads (x >>= f) (front ++ back) b where
  run_append rest := by
    rw [List.append_assoc, Steps.run_bind, hx.run_append]
    exact hf.run_append rest
  run_take k hk := by
    by_cases hfront : k < front.length
    · obtain ⟨e, left, hrun, hcut⟩ := hx.run_take k hfront
      refine ⟨e, left, ?_, hcut⟩
      rw [List.take_append_of_le_length (Nat.le_of_lt hfront), Steps.run_bind, hrun]
    · have htake : (front ++ back).take k = front ++ back.take (k - front.length) := by
        rw [List.take_append, List.take_of_length_le (Nat.le_of_not_lt hfront)]
      have hback : k - front.length < back.length := by
        rw [List.length_append] at hk
        omega
      obtain ⟨e, left, hrun, hcut⟩ := hf.run_take (k - front.length) hback
      refine ⟨e, left, ?_, hcut.mono (Nat.sub_le _ _)⟩
      rw [htake, Steps.run_bind, hx.run_append]
      exact hrun

/-- Whatever the steps read ends where they stop. -/
def Prompt (steps : WireM α) : Prop :=
  ∀ bs a rest, steps.run bs = (.ok a, rest) → ∃ form, bs = form ++ rest ∧ Reads steps form a

theorem Prompt.pure (a : α) : Prompt (Pure.pure a) := by
  intro bs a' rest h
  obtain ⟨rfl, rfl⟩ := Steps.run_pure_eq_ok_iff.1 h
  exact ⟨[], rfl, Reads.pure a⟩

theorem Prompt.bind (hx : Prompt x) (hf : ∀ a, Prompt (f a)) : Prompt (x >>= f) := by
  intro bs b rest h
  obtain ⟨a, middle, hrun, h⟩ := Steps.run_bind_eq_ok_iff.1 h
  obtain ⟨front, hbs, hfront⟩ := hx bs a middle hrun
  obtain ⟨back, hmiddle, hback⟩ := hf a middle b rest h
  refine ⟨front ++ back, ?_, hfront.bind hback⟩
  rw [hbs, hmiddle, List.append_assoc]

/-- A check takes nothing from the input. -/
theorem Prompt.guard {p : Prop} [Decidable p] {g : β → WireM α} (hx : Prompt x) :
    Prompt (if p then (throw e : WireM β) >>= g else x) := by
  by_cases hp : p
  · rw [if_pos hp]
    intro bs a rest h
    cases h
  · rw [if_neg hp]
    exact hx

/-- Neither does a result in the midst of the steps. -/
theorem Prompt.result (r : Except MessageError α) : Prompt (ExceptT.mk (Pure.pure r) : WireM α) := by
  intro bs a rest h
  obtain ⟨rfl, rfl⟩ := SignedEnvelope.run_mk_eq_ok_iff.1 h
  exact ⟨[], rfl, Reads.pure a⟩

/-! ### The single steps -/

theorem prompt_get (n : Nat) : Prompt (get n) := by
  intro bs x rest h
  refine ⟨x.bytes, run_get_eq_ok_iff.1 h, fun rest => run_get_eq_ok_iff.2 rfl, ?_⟩
  intro k hk
  rw [x.length_bytes] at hk
  have hlength : (x.bytes.take k).length = k := by
    rw [List.length_take, x.length_bytes]
    omega
  refine ⟨.truncated n k, x.bytes.take k, ?_, n, k, rfl, hk, Nat.le_refl k⟩
  rw [run_get, dif_pos (by rwa [hlength]), hlength]

theorem prompt_getWord : Prompt getWord :=
  (prompt_get 4).bind fun _ => Prompt.pure _

theorem prompt_getField : Prompt getField :=
  prompt_getWord.bind fun _ => Prompt.guard ((prompt_get _).bind fun _ => Prompt.pure _)

theorem prompt_getVersion : Prompt getVersion := by
  refine (prompt_get 2).bind ?_
  intro found
  by_cases hv : found.toNat = version
  · rw [if_neg (not_not_intro hv)]
    exact Prompt.pure ()
  · rw [if_pos hv]
    intro bs a rest h
    cases h

/-! ### Whole values -/

/-- The version tag, and the steps behind it. -/
theorem decode_eq (steps : WireM α) (bs : Bytes) :
    decode steps bs = (((getVersion >>= fun _ => steps) >>= fun a => finish >>= fun _ => pure a).run bs).1 := by
  rw [bind_assoc]
  rfl

theorem reads_of_decode (hsteps : Prompt steps) (h : decode steps bs = .ok a) :
    Reads (getVersion >>= fun _ => steps) bs a := by
  obtain ⟨body, rfl, hrun⟩ := decode_eq_ok_iff.1 h
  have hall : (getVersion >>= fun _ => steps).run (versionTag ++ body) = (.ok a, []) :=
    Steps.run_bind_eq_ok_iff.2 ⟨(), body, run_getVersion_eq_ok_iff.2 rfl, hrun⟩
  obtain ⟨form, hform, hreads⟩ := prompt_getVersion.bind (fun _ => hsteps) _ a [] hall
  rw [List.append_nil] at hform
  rwa [hform]

/-- A value that is cut anywhere is refused because bytes are missing. -/
theorem decode_take (hsteps : Prompt steps) (h : decode steps bs = .ok a) (hk : k < bs.length) :
    ∃ e, decode steps (bs.take k) = .error e ∧ CutShort k e := by
  obtain ⟨e, left, hrun, hcut⟩ := (reads_of_decode hsteps h).run_take k hk
  refine ⟨e, ?_, hcut⟩
  rw [decode_eq, Steps.run_bind, hrun]

/-- A value that goes on is refused because of the bytes behind it. -/
theorem decode_append (hsteps : Prompt steps) (h : decode steps bs = .ok a) (hrest : rest ≠ []) :
    decode steps (bs ++ rest) = .error (.trailingBytes rest.length) := by
  rw [decode_eq, Steps.run_bind, (reads_of_decode hsteps h).run_append]
  cases rest with
  | nil => exact absurd rfl hrest
  | cons b rest => rfl

/-- A value that is cut short or goes on is refused, with the number of bytes that are missing or too many, and no
value starts with another. -/
structure Delimited (encode : α → Except MessageError Bytes) (decode : Bytes → Except MessageError α) : Prop where
  decode_take : ∀ bs a, decode bs = .ok a → ∀ k < bs.length, ∃ needed remaining,
    decode (bs.take k) = .error (.truncated needed remaining) ∧ remaining < needed ∧ remaining ≤ k
  decode_append : ∀ bs a, decode bs = .ok a → ∀ rest, rest ≠ [] →
    decode (bs ++ rest) = .error (.trailingBytes rest.length)
  eq_of_isPrefix : ∀ a a' bs bs', encode a = .ok bs → encode a' = .ok bs' → bs <+: bs' → a = a' ∧ bs = bs'

/-- Prompt steps read a value that is delimited, if it is read as it is written. -/
theorem Prompt.delimited {encode : α → Except MessageError Bytes} {fieldSizes : α → List Nat}
    (hsteps : Prompt steps) (hlaws : Lawful encode (decode steps) fieldSizes) :
    Delimited encode (decode steps) where
  decode_take bs a h k hk := by
    obtain ⟨e, hdecode, needed, remaining, rfl, hlt, hle⟩ := Wire.decode_take hsteps h hk
    exact ⟨needed, remaining, hdecode, hlt, hle⟩
  decode_append bs a h rest hrest := Wire.decode_append hsteps h hrest
  eq_of_isPrefix a a' bs bs' ha ha' hprefix := by
    obtain ⟨rest, rfl⟩ := hprefix
    have hread := (hlaws.decode_eq_ok_iff bs a).2 ha
    have hread' := (hlaws.decode_eq_ok_iff (bs ++ rest) a').2 ha'
    cases rest with
    | nil =>
      rw [List.append_nil] at hread' ⊢
      exact ⟨Except.ok.inj (hread.symm.trans hread'), rfl⟩
    | cons b rest =>
      rw [Wire.decode_append hsteps hread (List.cons_ne_nil b rest)] at hread'
      cases hread'

end Wire

/-! ### The three kinds of value -/

theorem Message.delimited : Wire.Delimited Message.encode Message.decode := by
  refine Wire.Prompt.delimited ?_ Message.lawful
  refine (Wire.prompt_get 32).bind fun _ => (Wire.prompt_get 32).bind fun _ => ?_
  refine (Wire.prompt_get 32).bind fun _ => (Wire.prompt_get 32).bind fun _ => ?_
  exact Wire.prompt_getField.bind fun _ => Wire.Prompt.pure _

theorem Envelope.delimited : Wire.Delimited Envelope.encode Envelope.decode := by
  refine Wire.Prompt.delimited ?_ Envelope.lawful
  refine (Wire.prompt_get 32).bind fun _ => (Wire.prompt_get 32).bind fun _ => ?_
  exact Wire.prompt_getField.bind fun _ => Wire.Prompt.pure _

/-- The envelope is read from a field that is there as a whole, so a cut never shows in it. -/
theorem SignedEnvelope.delimited : Wire.Delimited SignedEnvelope.encode SignedEnvelope.decode := by
  refine Wire.Prompt.delimited ?_ SignedEnvelope.lawful
  refine Wire.prompt_getField.bind fun _ => (Wire.Prompt.result _).bind fun _ => ?_
  refine Wire.prompt_getWord.bind fun _ => Wire.Prompt.guard ?_
  exact Wire.prompt_getField.bind fun _ => (Wire.prompt_get 96).bind fun _ => Wire.Prompt.pure _

/-- Messages, envelopes and signed envelopes that are cut anywhere are refused because bytes are missing, and those that
go on because bytes are left. None of them starts with another of its kind. -/
theorem wireFormats_delimited :
    Wire.Delimited Message.encode Message.decode ∧ Wire.Delimited Envelope.encode Envelope.decode ∧
      Wire.Delimited SignedEnvelope.encode SignedEnvelope.decode :=
  ⟨Message.delimited, Envelope.delimited, SignedEnvelope.delimited⟩

/-- A cut in the message that the second of two validators has signed, anywhere in it, and one byte too many. -/
theorem wireFormats_delimited_secondValidator :
    (∀ k < TwoValidators.wire.length, ∃ needed remaining,
      SignedEnvelope.decode (TwoValidators.wire.take k) = .error (.truncated needed remaining) ∧
        remaining < needed ∧ remaining ≤ k) ∧
      SignedEnvelope.decode (TwoValidators.wire ++ [0]) = .error (.trailingBytes 1) := by
  have hdecode : SignedEnvelope.decode TwoValidators.wire = .ok TwoValidators.signed := by
    decide +kernel
  obtain ⟨-, -, hsigned⟩ := wireFormats_delimited
  exact ⟨hsigned.decode_take _ _ hdecode, hsigned.decode_append _ _ hdecode [0] (List.cons_ne_nil 0 [])⟩

end Interchain
