import Interchain.Document.Basic

/-!
# JSON

A text is cut into tokens, and the tokens are put together with a stack of open containers, so that nesting has no
limit here. Escapes in texts are read but need not pair up to code points, and numbers need not fit a float: whether
they do is kept in the document.

* `Json.tokens`: the tokens of a text.
* `Json.assemble`: the document that tokens spell.
* `Json.parse`: both together. It answers nothing for a text that is not JSON, without a position or a reason.
-/

namespace Interchain.Json

inductive Token where
  | openArray
  | closeArray
  | openObject
  | closeObject
  | colon
  | comma
  /-- A value without parts: a literal, a number or a text. -/
  | scalar (d : Document)

/-! ### Numbers -/

def isDigit (c : Char) : Bool := '0' ≤ c && c ≤ '9'

def decimalValue (digits : List Char) : Nat :=
  digits.foldl (fun n c => 10 * n + (c.toNat - 48)) 0

/-- Whether a float holds the number with these digits before and after the point, times ten to `exponent`. -/
def inFloatRange (whole fraction : List Char) (exponent : Int) : Bool :=
  let digits := (whole ++ fraction).dropWhile (· == '0')
  let m := decimalValue digits
  let e := exponent - fraction.length
  -- The leading digit decides except near the limit, so that no huge power is computed.
  let size := digits.length + e
  if digits.isEmpty then true
  else if size > 310 then false
  else if size < 300 then true
  else if e < 0 then m < Document.floatLimit * Nat.pow 10 (-e).toNat
  else m * Nat.pow 10 e.toNat < Document.floatLimit

/-- Reads an optional fraction: a point and at least one digit. -/
def fraction (cs : List Char) : Option (Option (List Char) × List Char) :=
  match cs with
  | '.' :: rest =>
    let (digits, rest) := rest.span isDigit
    if digits.isEmpty then none else some (some digits, rest)
  | _ => some (none, cs)

/-- Reads an optional exponent: the letter, an optional sign, and at least one digit. -/
def exponent (cs : List Char) : Option (Option Int × List Char) :=
  let body (negative : Bool) (rest : List Char) : Option (Option Int × List Char) :=
    let (digits, rest) := rest.span isDigit
    if digits.isEmpty then none
    else
      let n : Int := decimalValue digits
      some (some (if negative then -n else n), rest)
  match cs with
  | c :: rest =>
    if c = 'e' ∨ c = 'E' then
      match rest with
      | '+' :: rest => body false rest
      | '-' :: rest => body true rest
      | _ => body false rest
    else some (none, cs)
  | [] => some (none, cs)

/-- Reads a number after its sign. A zero stands alone before the point. -/
def number (negative : Bool) (cs : List Char) : Option (Document × List Char) := do
  let (whole, rest) := cs.span isDigit
  if whole.isEmpty then none
  if whole.length > 1 ∧ whole.head? = some '0' then none
  let (frac, rest) ← fraction rest
  let (exp, rest) ← exponent rest
  if frac.isNone ∧ exp.isNone ∧ !negative then
    return (.natural (decimalValue whole), rest)
  return (.number (inFloatRange whole (frac.getD []) (exp.getD 0)), rest)

/-! ### Texts -/

/-- A character of a text, or a UTF-16 unit given by an escape. -/
inductive Piece where
  | char (c : Char)
  | unit (n : Nat)

def hexDigit? (c : Char) : Option Nat :=
  if isDigit c then some (c.toNat - 48)
  else if 'a' ≤ c ∧ c ≤ 'f' then some (c.toNat - 87)
  else if 'A' ≤ c ∧ c ≤ 'F' then some (c.toNat - 55)
  else none

def hexUnit? (a b c d : Char) : Option Nat := do
  return (((← hexDigit? a) * 16 + (← hexDigit? b)) * 16 + (← hexDigit? c)) * 16 + (← hexDigit? d)

/-- The character that a one-letter escape names. -/
def escape? : Char → Option Char
  | '"' => some '"'
  | '\\' => some '\\'
  | '/' => some '/'
  | 'b' => some '\x08'
  | 'f' => some '\x0c'
  | 'n' => some '\n'
  | 'r' => some '\r'
  | 't' => some '\t'
  | _ => none

/-- Reads the pieces of a text up to its closing quote; `done` holds those before, last first. -/
def pieces (done : List Piece) : List Char → Option (List Piece × List Char)
  | '"' :: rest => some (done.reverse, rest)
  | '\\' :: 'u' :: a :: b :: c :: d :: rest =>
    match hexUnit? a b c d with
    | some n => pieces (.unit n :: done) rest
    | none => none
  | '\\' :: c :: rest =>
    match escape? c with
    | some e => pieces (.char e :: done) rest
    | none => none
  | c :: rest => if c.toNat < 32 then none else pieces (.char c :: done) rest
  | [] => none

/-- Joins surrogate pairs; a surrogate without its partner spoils the text. The characters before are in `done`,
last first. -/
def join (done : List Char) : List Piece → Option (List Char)
  | .unit h :: .unit l :: rest =>
    if 0xd800 ≤ h ∧ h ≤ 0xdbff then
      if 0xdc00 ≤ l ∧ l ≤ 0xdfff then
        join (Char.ofNat (0x10000 + (h - 0xd800) * 0x400 + (l - 0xdc00)) :: done) rest
      else none
    else if 0xdc00 ≤ h ∧ h ≤ 0xdfff then none
    else join (Char.ofNat h :: done) (.unit l :: rest)
  | .unit n :: rest =>
    if 0xd800 ≤ n ∧ n ≤ 0xdfff then none else join (Char.ofNat n :: done) rest
  | .char c :: rest => join (c :: done) rest
  | [] => some done.reverse

/-! ### Tokens -/

def isBlank (c : Char) : Bool :=
  c == ' ' || c == '\n' || c == '\t' || c == '\r'

/-- The token at the front of a text that does not start with a blank. -/
def token : List Char → Option (Token × List Char)
  | '[' :: rest => some (.openArray, rest)
  | ']' :: rest => some (.closeArray, rest)
  | '\x7b' :: rest => some (.openObject, rest)
  | '\x7d' :: rest => some (.closeObject, rest)
  | ':' :: rest => some (.colon, rest)
  | ',' :: rest => some (.comma, rest)
  | '"' :: rest =>
    (pieces [] rest).map fun (ps, rest) => (.scalar (.text ((join [] ps).map String.ofList)), rest)
  | 'n' :: 'u' :: 'l' :: 'l' :: rest => some (.scalar .null, rest)
  | 't' :: 'r' :: 'u' :: 'e' :: rest => some (.scalar (.bool true), rest)
  | 'f' :: 'a' :: 'l' :: 's' :: 'e' :: rest => some (.scalar (.bool false), rest)
  | '-' :: rest => (number true rest).map fun (d, rest) => (.scalar d, rest)
  | cs => (number false cs).map fun (d, rest) => (.scalar d, rest)

/-- Collects tokens, each of which takes at least one character; `done` holds those before, last first. -/
def tokensFrom : Nat → List Token → List Char → Option (List Token)
  | _, done, [] => some done.reverse
  | 0, _, _ :: _ => none
  | fuel + 1, done, c :: rest =>
    if isBlank c then tokensFrom fuel done rest
    else
      match token (c :: rest) with
      | some (t, rest) => tokensFrom fuel (t :: done) rest
      | none => none

def tokens (cs : List Char) : Option (List Token) :=
  tokensFrom cs.length [] cs

/-! ### Documents -/

/-- A container that is still open, with its parts so far, last first. -/
inductive Frame where
  | array (done : List Document)
  | object (done : List (Option String × Document))
  /-- An object with the name of the member that is being read. -/
  | member (done : List (Option String × Document)) (name : Option String)

/-- What may come next. -/
inductive Expectation where
  | value
  | valueOrClose
  | name
  | nameOrClose
  | colon
  /-- A value has just ended; the innermost open container decides. -/
  | after (d : Document)

def assembleFrom : Expectation → List Frame → List Token → Option Document
  | .after d, [], [] => some d
  | _, _, [] => none
  | .after d, .array done :: frames, .comma :: ts => assembleFrom .value (.array (d :: done) :: frames) ts
  | .after d, .array done :: frames, .closeArray :: ts =>
    assembleFrom (.after (.array (d :: done).reverse)) frames ts
  | .after d, .member done name :: frames, .comma :: ts =>
    assembleFrom .name (.object ((name, d) :: done) :: frames) ts
  | .after d, .member done name :: frames, .closeObject :: ts =>
    assembleFrom (.after (.object ((name, d) :: done).reverse)) frames ts
  | .after _, _, _ :: _ => none
  | .colon, frames, .colon :: ts => assembleFrom .value frames ts
  | .colon, _, _ :: _ => none
  | .name, .object done :: frames, .scalar (.text name) :: ts =>
    assembleFrom .colon (.member done name :: frames) ts
  | .name, _, _ :: _ => none
  | .nameOrClose, .object done :: frames, .scalar (.text name) :: ts =>
    assembleFrom .colon (.member done name :: frames) ts
  | .nameOrClose, .object done :: frames, .closeObject :: ts =>
    assembleFrom (.after (.object done.reverse)) frames ts
  | .nameOrClose, _, _ :: _ => none
  | .valueOrClose, .array done :: frames, .closeArray :: ts =>
    assembleFrom (.after (.array done.reverse)) frames ts
  | .value, frames, .scalar d :: ts => assembleFrom (.after d) frames ts
  | .valueOrClose, frames, .scalar d :: ts => assembleFrom (.after d) frames ts
  | .value, frames, .openArray :: ts => assembleFrom .valueOrClose (.array [] :: frames) ts
  | .valueOrClose, frames, .openArray :: ts => assembleFrom .valueOrClose (.array [] :: frames) ts
  | .value, frames, .openObject :: ts => assembleFrom .nameOrClose (.object [] :: frames) ts
  | .valueOrClose, frames, .openObject :: ts => assembleFrom .nameOrClose (.object [] :: frames) ts
  | .value, _, _ :: _ => none
  | .valueOrClose, _, _ :: _ => none

def assemble (ts : List Token) : Option Document :=
  assembleFrom .value [] ts

def parse (s : String) : Option Document := do
  assemble (← tokens s.toList)

end Interchain.Json
