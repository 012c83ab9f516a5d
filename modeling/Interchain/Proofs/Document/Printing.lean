import Interchain.Document.Compact
import Interchain.Document.Json
import Mathlib.Data.List.TakeDrop

/-!
# Reading what was printed

The canonical text of a document without escapes is read back as this document. Reading is in two stages, and so is
the proof: the text gives the tokens that spell the document, and these tokens are put together to it.

* `Document.IsPlain`: documents that can be printed without escapes; `Document.compact` is their text,
  `Document.spelling` their tokens.
* `Json.Spells`: a piece of text gives these tokens in front of a rest, with enough fuel left. Pieces are put together
  by `Json.Spells.append`.
* `Json.spells_compact`: the text of a document gives its tokens, in front of anything that does not go on a number.
* `Json.assembleFrom_spelling`: its tokens give the document, inside any open containers.
* `Json.parse_compact`: both stages.

The inductions go over a document and its lists of items and members at once. Blanks, escapes and signed numbers
occur in no canonical text and are not dealt with.
-/

namespace Interchain

/-! ### Documents that can be printed -/

/-- A text that stands between quotes as it is. -/
def Json.IsPlainText (s : String) : Prop :=
  ∀ c ∈ s.toList, c ≠ '"' ∧ c ≠ '\\' ∧ 32 ≤ c.toNat

instance (s : String) : Decidable (Json.IsPlainText s) :=
  List.decidableBAll _ s.toList

namespace Document

mutual

/-- Numbers, truth values and texts without escapes, and what is made of them. -/
def IsPlain : Document → Prop
  | natural _ => True
  | bool _ => True
  | text (some s) => Json.IsPlainText s
  | array items => PlainItems items
  | object members => PlainMembers members
  | _ => False

def PlainItems : List Document → Prop
  | [] => True
  | d :: ds => d.IsPlain ∧ PlainItems ds

def PlainMembers : List (Option String × Document) → Prop
  | [] => True
  | (some name, d) :: ms => Json.IsPlainText name ∧ d.IsPlain ∧ PlainMembers ms
  | (none, _) :: _ => False

end

mutual

/-- The text of a plain document, without blanks. -/
def compact : Document → List Char
  | natural n => Compact.natural n
  | bool b => Compact.bool b
  | text (some s) => Compact.text s
  | array items => Compact.array (compactItems items)
  | object members => Compact.object (compactMembers members)
  | _ => []

def compactItems : List Document → List (List Char)
  | [] => []
  | d :: ds => d.compact :: compactItems ds

def compactMembers : List (Option String × Document) → List (List Char)
  | [] => []
  | (name, d) :: ms => Compact.member (name.getD "") d.compact :: compactMembers ms

end

mutual

/-- The tokens of a document. -/
def spelling : Document → List Json.Token
  | array items => .openArray :: (spellItems items ++ [.closeArray])
  | object members => .openObject :: (spellMembers members ++ [.closeObject])
  | d => [.scalar d]

def spellItems : List Document → List Json.Token
  | [] => []
  | [d] => d.spelling
  | d :: d' :: ds => d.spelling ++ .comma :: spellItems (d' :: ds)

def spellMembers : List (Option String × Document) → List Json.Token
  | [] => []
  | [(name, d)] => .scalar (.text name) :: .colon :: d.spelling
  | (name, d) :: m :: ms => .scalar (.text name) :: .colon :: (d.spelling ++ .comma :: spellMembers (m :: ms))

end

end Document

namespace Json

open Document

/-! ### Texts -/

theorem pieces_append {cs : List Char} (h : ∀ c ∈ cs, c ≠ '"' ∧ c ≠ '\\' ∧ 32 ≤ c.toNat)
    (done : List Piece) (rest : List Char) :
    pieces done (cs ++ '"' :: rest) = some (done.reverse ++ cs.map .char, rest) := by
  induction cs generalizing done with
  | nil => simp [pieces]
  | cons c cs ih =>
    obtain ⟨⟨hquote, hescape, hshown⟩, hcs⟩ := List.forall_mem_cons.1 h
    have hnext : pieces done (c :: (cs ++ '"' :: rest)) = pieces (.char c :: done) (cs ++ '"' :: rest) := by
      have hcontrol : ¬ c.toNat < 32 := Nat.not_lt.2 hshown
      simp [pieces, hescape, hcontrol]
    rw [List.cons_append, hnext, ih hcs]
    simp

theorem join_map_char (done cs : List Char) : join done (cs.map .char) = some (done.reverse ++ cs) := by
  induction cs generalizing done with
  | nil => simp [join]
  | cons c cs ih =>
    rw [List.map_cons, join, ih]
    simp

/-! ### Numbers -/

/-- Nothing that would go on a number. -/
def EndsNumber : List Char → Prop
  | [] => True
  | c :: _ => isDigit c = false ∧ c ≠ '.' ∧ c ≠ 'e' ∧ c ≠ 'E'

theorem isDigit_of_mem_toDigits {n : Nat} {c : Char} (h : c ∈ Nat.toDigits 10 n) : isDigit c = true :=
  Nat.isDigit_of_mem_toDigits (by decide) (by decide) h

theorem decimalValue_toDigits (n : Nat) : decimalValue (Nat.toDigits 10 n) = n :=
  Nat.ofDigitChars_ten_toDigits

/-- No number is written with a zero in front. -/
theorem head?_toDigits_ne_zero {n : Nat} (hn : n ≠ 0) : (Nat.toDigits 10 n).head? ≠ some '0' := by
  induction n using Nat.strongRecOn with
  | ind n ih =>
    rcases Nat.lt_or_ge n 10 with hsmall | hlarge
    · simpa [Nat.toDigits_of_lt_base hsmall, Nat.digitChar_eq_zero] using hn
    · have hdigits : ((Nat.toDigits 10 (n / 10)).head?).isSome := by
        simp [Nat.toDigits_ne_nil]
      rw [Nat.toDigits_of_base_le (by decide) hlarge, List.head?_append, Option.or_of_isSome hdigits]
      exact ih (n / 10) (by omega) (by omega)

theorem span_append {cs rest : List Char} (h : ∀ c ∈ cs, isDigit c = true) (hrest : EndsNumber rest) :
    (cs ++ rest).span isDigit = (cs, rest) := by
  rw [List.span_eq_takeWhile_dropWhile, List.takeWhile_append_of_pos h, List.dropWhile_append_of_pos h]
  cases rest with
  | nil => simp
  | cons c rest => simp [hrest.1]

theorem fraction_of_endsNumber {rest : List Char} (h : EndsNumber rest) : fraction rest = some (none, rest) := by
  cases rest with
  | nil => rfl
  | cons c rest =>
    obtain ⟨-, hpoint, -⟩ := h
    simp [fraction, hpoint]

theorem exponent_of_endsNumber {rest : List Char} (h : EndsNumber rest) : exponent rest = some (none, rest) := by
  cases rest with
  | nil => rfl
  | cons c rest =>
    obtain ⟨-, -, hsmall, hlarge⟩ := h
    simp [exponent, hsmall, hlarge]

theorem number_toDigits (n : Nat) {rest : List Char} (h : EndsNumber rest) :
    number false (Nat.toDigits 10 n ++ rest) = some (.natural n, rest) := by
  have hzero : ¬ ((Nat.toDigits 10 n).length > 1 ∧ (Nat.toDigits 10 n).head? = some '0') := by
    rintro ⟨hlength, hhead⟩
    rcases eq_or_ne n 0 with rfl | hn
    · simp at hlength
    · exact head?_toDigits_ne_zero hn hhead
  simp only [number, span_append (fun _ => isDigit_of_mem_toDigits) h]
  simp [hzero, Nat.toDigits_ne_nil, fraction_of_endsNumber h, exponent_of_endsNumber h, decimalValue_toDigits]

/-! ### Tokens -/

variable {p q rest : List Char} {t : Token} {ts us : List Token}

/-- In front of `rest`, the text `p` gives the tokens `ts`: collecting goes on behind it, with enough fuel left. -/
def Spells (p : List Char) (ts : List Token) (rest : List Char) : Prop :=
  ∀ fuel done, (p ++ rest).length ≤ fuel →
    ∃ fuel', rest.length ≤ fuel' ∧ tokensFrom fuel done (p ++ rest) = tokensFrom fuel' (ts.reverse ++ done) rest

theorem Spells.nil : Spells [] [] rest :=
  fun fuel _ hfuel => ⟨fuel, hfuel, rfl⟩

theorem Spells.append (hp : Spells p ts (q ++ rest)) (hq : Spells q us rest) : Spells (p ++ q) (ts ++ us) rest := by
  intro fuel done hfuel
  rw [List.append_assoc] at hfuel ⊢
  obtain ⟨fuel₁, hfuel₁, heq₁⟩ := hp fuel done hfuel
  obtain ⟨fuel₂, hfuel₂, heq₂⟩ := hq fuel₁ (ts.reverse ++ done) hfuel₁
  refine ⟨fuel₂, hfuel₂, ?_⟩
  rw [heq₁, heq₂, List.reverse_append, List.append_assoc]

theorem spells_token {c : Char} (hblank : isBlank c = false) (htoken : token (c :: (p ++ rest)) = some (t, rest)) :
    Spells (c :: p) [t] rest := by
  intro fuel done hfuel
  cases fuel with
  | zero => simp at hfuel
  | succ fuel =>
    refine ⟨fuel, ?_, ?_⟩
    · simp at hfuel; omega
    · simp [tokensFrom, hblank, htoken]

/-- One character that is a token by itself, and what follows. -/
theorem Spells.cons {c : Char} (hblank : isBlank c = false) (htoken : token (c :: (p ++ rest)) = some (t, p ++ rest))
    (hp : Spells p ts rest) : Spells (c :: p) (t :: ts) rest :=
  (spells_token (p := []) hblank htoken).append hp

theorem spells_natural (n : Nat) (hrest : EndsNumber rest) :
    Spells (Compact.natural n) [.scalar (.natural n)] rest := by
  obtain ⟨c, cs, hdigits⟩ := List.exists_cons_of_ne_nil (Nat.toDigits_ne_nil (b := 10) (n := n))
  have hc : isDigit c = true := isDigit_of_mem_toDigits (n := n) (by simp [hdigits])
  have hnumber : number false (c :: (cs ++ rest)) = some (.natural n, rest) := by
    rw [← List.cons_append, ← hdigits, number_toDigits n hrest]
  have htoken : token (c :: (cs ++ rest)) = some (.scalar (.natural n), rest) := by
    unfold token
    split <;> simp_all [isDigit]
  rw [Compact.natural, hdigits]
  refine spells_token ?_ htoken
  by_contra hblank
  simp only [isBlank, Bool.not_eq_false, Bool.or_eq_true, beq_iff_eq] at hblank
  obtain ((rfl | rfl) | rfl) | rfl := hblank <;> simp [isDigit] at hc

theorem spells_bool (b : Bool) : Spells (Compact.bool b) [.scalar (.bool b)] rest := by
  cases b with
  | true => exact spells_token rfl rfl
  | false => exact spells_token rfl rfl

theorem token_text {s : String} (hs : IsPlainText s) :
    token (Compact.text s ++ rest) = some (.scalar (.text s), rest) := by
  have hpieces : pieces [] (s.toList ++ '"' :: rest) = some (s.toList.map .char, rest) :=
    pieces_append hs [] rest
  simp [Compact.text, token, hpieces, join_map_char]

theorem spells_text {s : String} (hs : IsPlainText s) : Spells (Compact.text s) [.scalar (.text s)] rest :=
  spells_token rfl (by simpa [Compact.text] using token_text hs)

/-! ### Documents -/

theorem endsNumber_comma : EndsNumber (',' :: rest) :=
  ⟨by decide, by decide⟩

theorem endsNumber_closeArray : EndsNumber (']' :: rest) :=
  ⟨by decide, by decide⟩

theorem endsNumber_closeObject : EndsNumber ('\x7d' :: rest) :=
  ⟨by decide, by decide⟩

theorem Spells.comma (hp : Spells p ts rest) : Spells (',' :: p) (.comma :: ts) rest :=
  .cons rfl rfl hp

theorem Spells.member {name : String} (hname : IsPlainText name) (hp : Spells p ts rest) :
    Spells (Compact.member name p) (.scalar (.text name) :: .colon :: ts) rest :=
  (spells_text hname).append (.cons rfl rfl hp)

theorem Spells.array {items : List (List Char)} (hitems : Spells (Compact.commas items) ts (']' :: rest)) :
    Spells (Compact.array items) (.openArray :: (ts ++ [.closeArray])) rest :=
  .cons rfl rfl (hitems.append (.cons rfl rfl .nil))

theorem Spells.object {members : List (List Char)} (hmembers : Spells (Compact.commas members) ts ('\x7d' :: rest)) :
    Spells (Compact.object members) (.openObject :: (ts ++ [.closeObject])) rest :=
  .cons rfl rfl (hmembers.append (.cons rfl rfl .nil))

mutual

/-- The text of a plain document gives its tokens, in front of anything that does not go on a number. -/
theorem spells_compact : ∀ {d : Document} {rest : List Char}, d.IsPlain → EndsNumber rest →
    Spells d.compact d.spelling rest
  | .natural n, _, _, hrest => spells_natural n hrest
  | .bool b, _, _, _ => spells_bool b
  | .text (some _), _, hs, _ => spells_text hs
  | .array _, _, hitems, _ => .array (spells_compactItems hitems endsNumber_closeArray)
  | .object _, _, hmembers, _ => .object (spells_compactMembers hmembers endsNumber_closeObject)

theorem spells_compactItems : ∀ {ds : List Document} {rest : List Char}, PlainItems ds → EndsNumber rest →
    Spells (Compact.commas (compactItems ds)) (spellItems ds) rest
  | [], _, _, _ => .nil
  | [_], _, ⟨hd, _⟩, hrest => spells_compact hd hrest
  | _ :: _ :: _, _, ⟨hd, hds⟩, hrest =>
    (spells_compact hd endsNumber_comma).append (spells_compactItems hds hrest).comma

theorem spells_compactMembers : ∀ {ms : List (Option String × Document)} {rest : List Char}, PlainMembers ms →
    EndsNumber rest → Spells (Compact.commas (compactMembers ms)) (spellMembers ms) rest
  | [], _, _, _ => .nil
  | [(some _, _)], _, ⟨hname, hd, _⟩, hrest => (spells_compact hd hrest).member hname
  | (some _, _) :: _ :: _, _, ⟨hname, hd, hms⟩, hrest =>
    ((spells_compact hd endsNumber_comma).member hname).append (spells_compactMembers hms hrest).comma

end

/-- The tokens of a whole text. -/
theorem tokens_compact {d : Document} (hd : d.IsPlain) : tokens d.compact = some d.spelling := by
  have hspells : Spells d.compact d.spelling [] := spells_compact hd trivial
  obtain ⟨fuel, -, htokens⟩ := hspells d.compact.length [] (by simp)
  rw [List.append_nil, List.append_nil] at htokens
  rw [tokens, htokens]
  cases fuel <;> simp [tokensFrom]

/-! ### Putting tokens together -/

/-- An array or object whose first part has begun cannot be closed yet. -/
theorem assembleFrom_firstItem (d : Document) (ds done : List Document) (frames : List Frame) (ts : List Token) :
    assembleFrom .valueOrClose (.array done :: frames) (spellItems (d :: ds) ++ ts) =
      assembleFrom .value (.array done :: frames) (spellItems (d :: ds) ++ ts) := by
  cases ds <;> cases d <;> simp [spellItems, spelling, assembleFrom]

theorem assembleFrom_firstMember (m : Option String × Document) (ms done : List (Option String × Document))
    (frames : List Frame) (ts : List Token) :
    assembleFrom .nameOrClose (.object done :: frames) (spellMembers (m :: ms) ++ ts) =
      assembleFrom .name (.object done :: frames) (spellMembers (m :: ms) ++ ts) := by
  cases ms <;> simp [spellMembers, assembleFrom]

mutual

/-- Where a value is expected, the tokens of a plain document are taken up as this document. -/
theorem assembleFrom_spelling : ∀ {d : Document} (frames : List Frame) (ts : List Token), d.IsPlain →
    assembleFrom .value frames (d.spelling ++ ts) = assembleFrom (.after d) frames ts
  | .natural _, _, _, _ => by simp [spelling, assembleFrom]
  | .bool _, _, _, _ => by simp [spelling, assembleFrom]
  | .text (some _), _, _, _ => by simp [spelling, assembleFrom]
  | .array [], _, _, _ => by simp [spelling, spellItems, assembleFrom]
  | .array (d :: ds), frames, ts, hitems => by
    have hopen := assembleFrom_firstItem d ds [] frames (.closeArray :: ts)
    have hparts := assembleFrom_items [] frames ts (List.cons_ne_nil d ds) hitems
    simpa [spelling, assembleFrom, hopen] using hparts
  | .object [], _, _, _ => by simp [spelling, spellMembers, assembleFrom]
  | .object (m :: ms), frames, ts, hmembers => by
    have hopen := assembleFrom_firstMember m ms [] frames (.closeObject :: ts)
    have hparts := assembleFrom_members [] frames ts (List.cons_ne_nil m ms) hmembers
    simpa [spelling, assembleFrom, hopen] using hparts

/-- The remaining elements of an array, up to its end. -/
theorem assembleFrom_items : ∀ {ds : List Document} (done : List Document) (frames : List Frame) (ts : List Token),
    ds ≠ [] → PlainItems ds →
      assembleFrom .value (.array done :: frames) (spellItems ds ++ .closeArray :: ts) =
        assembleFrom (.after (.array (done.reverse ++ ds))) frames ts
  | [], _, _, _, hne, _ => absurd rfl hne
  | [d], done, frames, ts, _, ⟨hd, _⟩ => by
    rw [spellItems, assembleFrom_spelling _ _ hd]
    simp [assembleFrom]
  | d :: d' :: ds, done, frames, ts, _, ⟨hd, hds⟩ => by
    have hrest := assembleFrom_items (d :: done) frames ts (List.cons_ne_nil d' ds) hds
    rw [spellItems, List.append_assoc, assembleFrom_spelling _ _ hd]
    simpa [assembleFrom] using hrest

/-- The remaining members of an object, up to its end. -/
theorem assembleFrom_members : ∀ {ms : List (Option String × Document)} (done : List (Option String × Document))
    (frames : List Frame) (ts : List Token), ms ≠ [] → PlainMembers ms →
      assembleFrom .name (.object done :: frames) (spellMembers ms ++ .closeObject :: ts) =
        assembleFrom (.after (.object (done.reverse ++ ms))) frames ts
  | [], _, _, _, hne, _ => absurd rfl hne
  | [(some _, d)], done, frames, ts, _, ⟨_, hd, _⟩ => by
    simp only [spellMembers, List.cons_append, assembleFrom]
    rw [assembleFrom_spelling _ _ hd]
    simp [assembleFrom]
  | (some name, d) :: m :: ms, done, frames, ts, _, ⟨_, hd, hms⟩ => by
    have hrest := assembleFrom_members ((some name, d) :: done) frames ts (List.cons_ne_nil m ms) hms
    simp only [spellMembers, List.cons_append, assembleFrom, List.append_assoc]
    rw [assembleFrom_spelling _ _ hd]
    simpa [assembleFrom] using hrest

end

/-! ### Both together -/

/-- A plain document is read back from its text. -/
theorem parse_compact {d : Document} (hd : d.IsPlain) : parse (String.ofList d.compact) = some d := by
  have hassemble := assembleFrom_spelling [] [] hd
  rw [List.append_nil] at hassemble
  have hdone : assembleFrom (.after d) [] [] = some d := by simp [assembleFrom]
  simp [parse, tokens_compact hd, assemble, hassemble, hdone]

end Json

end Interchain
