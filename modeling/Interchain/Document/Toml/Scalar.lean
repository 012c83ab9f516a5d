import Interchain.Document.Json

/-!
# TOML scalars

Readers of the values without parts: texts in quotes, on one line or on several, integers in four bases, floats,
dates and times of day. Each takes the characters at hand and answers with the value and what follows, or fails.
None of them skips blanks.

Integers outside 64 bits are refused. Of a float it is kept that it is one and whether it is finite, and of a date
only that it is one, since no configuration holds either; still a date that the calendar does not have is refused.
-/

namespace Interchain.Toml

/-- Reads a value from the front of the characters. -/
abbrev Reader (α : Type) := StateT (List Char) Option α

/-- Takes the given characters off the front. -/
def exactly (cs : List Char) : Reader Unit := fun s =>
  if cs.isPrefixOf s then some ((), s.drop cs.length) else none

/-- Takes one character that satisfies the test. -/
def one (p : Char → Bool) : Reader Char
  | c :: rest => if p c then some (c, rest) else none
  | [] => none

def takeWhile (p : Char → Bool) : Reader (List Char) := fun s =>
  some (s.span p)

/-- Takes one of the given characters off the front if it stands there, and says whether it did. -/
def accept (cs : List Char) : Reader Bool
  | d :: rest => if d ∈ cs then some (true, rest) else some (false, d :: rest)
  | [] => some (false, [])

def peek : Reader (Option Char) := fun s => some (s.head?, s)

/-- Takes a line break, in either of its forms. -/
def newline : Reader Unit
  | '\n' :: rest => some ((), rest)
  | '\r' :: '\n' :: rest => some ((), rest)
  | _ => none

def isBlank (c : Char) : Bool := c == ' ' || c == '\t'

def blanks : Reader Unit := do
  let _ ← takeWhile isBlank

/-- The characters that comments and texts may hold: no control character but the tab. -/
def isPlain (c : Char) : Bool :=
  c == '\t' || (32 ≤ c.toNat && c.toNat ≠ 127)

/-! ### Texts -/

/-- The value of hexadecimal digits, if all are digits and they name a code point. -/
def codePoint? (digits : List Char) : Option Char := do
  let n ← digits.foldlM (fun n c => do return n * 16 + (← Json.hexDigit? c)) 0
  if n.isValidChar then return Char.ofNat n else none

/-- Reads what follows a backslash that starts an escape. -/
def escape : List Char → Option (Char × List Char)
  | 'b' :: rest => some ('\x08', rest)
  | 't' :: rest => some ('\t', rest)
  | 'n' :: rest => some ('\n', rest)
  | 'f' :: rest => some ('\x0c', rest)
  | 'r' :: rest => some ('\r', rest)
  | '"' :: rest => some ('"', rest)
  | '\\' :: rest => some ('\\', rest)
  | 'u' :: rest =>
    if (rest.take 4).length = 4 then (codePoint? (rest.take 4)).map (·, rest.drop 4) else none
  | 'U' :: rest =>
    if (rest.take 8).length = 8 then (codePoint? (rest.take 8)).map (·, rest.drop 8) else none
  | _ => none

/-- The rest of a text in double quotes on one line. -/
def basicBody : Nat → List Char → Reader String
  | 0, _, _ => none
  | fuel + 1, done, s =>
    match s with
    | '"' :: rest => some (String.ofList done.reverse, rest)
    | '\\' :: rest =>
      match escape rest with
      | some (c, rest) => basicBody fuel (c :: done) rest
      | none => none
    | c :: rest => if isPlain c then basicBody fuel (c :: done) rest else none
    | [] => none

def basicText : Reader String := fun s => do
  let ((), s) ← exactly ['"'] s
  basicBody (s.length + 1) [] s

def literalText : Reader String := do
  exactly ['\'']
  let body ← takeWhile fun c => isPlain c && c != '\''
  exactly ['\'']
  return String.ofList body

/-- Skips the blanks and line breaks after a backslash at the end of a line. -/
def skipLines : List Char → List Char
  | ' ' :: rest => skipLines rest
  | '\t' :: rest => skipLines rest
  | '\n' :: rest => skipLines rest
  | '\r' :: '\n' :: rest => skipLines rest
  | s => s

/-- What follows a backslash that ends its line: the text from the next visible character on. -/
def lineEnd (s : List Char) : Option (List Char) := do
  let ((), s) ← blanks s
  let ((), s) ← newline s
  return skipLines s

/-- The rest of a text in three quotes; `basic` texts know escapes. Up to two quotes may stand before the
closing three. -/
def longBody (quote : Char) (basic : Bool) : Nat → List Char → Reader String
  | 0, _, _ => none
  | fuel + 1, done, s =>
    match s with
    | '\\' :: rest =>
      if basic then
        match escape rest with
        | some (c, rest) => longBody quote basic fuel (c :: done) rest
        | none =>
          match lineEnd rest with
          | some rest => longBody quote basic fuel done rest
          | none => none
      else longBody quote basic fuel ('\\' :: done) rest
    | '\n' :: rest => longBody quote basic fuel ('\n' :: done) rest
    | '\r' :: '\n' :: rest => longBody quote basic fuel ('\n' :: done) rest
    | c :: rest =>
      if c = quote then
        let quotes := s.takeWhile (· == quote)
        let after := s.drop quotes.length
        if quotes.length < 3 then longBody quote basic fuel (quotes ++ done) after
        else if quotes.length ≤ 5 then
          some (String.ofList ((quotes.drop 3 ++ done).reverse), after)
        else none
      else if isPlain c then longBody quote basic fuel (c :: done) rest
      else none
    | [] => none

/-- Reads a text in three quotes; a line break right after them is left out. -/
def longText (quote : Char) (basic : Bool) : Reader String := fun s => do
  let ((), s) ← exactly [quote, quote, quote] s
  let s := match newline s with
    | some ((), rest) => rest
    | none => s
  longBody quote basic (s.length + 1) [] s

def text : Reader String := fun s =>
  match s with
  | '"' :: '"' :: '"' :: _ => longText '"' true s
  | '"' :: _ => basicText s
  | '\'' :: '\'' :: '\'' :: _ => longText '\'' false s
  | _ => literalText s

/-! ### Numbers -/

/-- Reads digits with single underscores between them; at least one digit must come first, and one after each
underscore. -/
def digitsBody (isDigit : Char → Bool) : Nat → List Char → Reader (List Char)
  | 0, done, s => some (done.reverse, s)
  | fuel + 1, done, s =>
    match s with
    | '_' :: c :: rest => if isDigit c then digitsBody isDigit fuel (c :: done) rest else none
    | ['_'] => none
    | c :: rest => if isDigit c then digitsBody isDigit fuel (c :: done) rest else some (done.reverse, s)
    | [] => some (done.reverse, [])

def digits (isDigit : Char → Bool) : Reader (List Char) := fun s => do
  let (c, rest) ← one isDigit s
  digitsBody isDigit rest.length [c] rest

def inBase (base : Nat) (ds : List Char) : Nat :=
  ds.foldl (fun n c => n * base + (Json.hexDigit? c).getD 0) 0

/-- The least number above the integers of 64 bits. -/
def integerLimit : Nat := 0x8000000000000000

/-- Reads the digits of an integer in a base that a marker names. -/
def basedInteger (base : Nat) : Reader Document := do
  let ds ← digits fun c => (Json.hexDigit? c).any (· < base)
  let n := inBase base ds
  if n < integerLimit then return .natural n else failure

/-- Reads decimal digits; a zero stands alone. -/
def decimalDigits : Reader (List Char) := fun s =>
  match s with
  | '0' :: rest => some (['0'], rest)
  | _ => digits Json.isDigit s

def decimalInteger (negative : Bool) (whole : List Char) : Option Document :=
  let n := inBase 10 whole
  if negative then if n = 0 then some (.natural 0) else if n ≤ integerLimit then some (.number true) else none
  else if n < integerLimit then some (.natural n)
  else none

/-- Reads an optional exponent. -/
def exponent : Reader (Option Int) := do
  if ← accept ['e', 'E'] then
    let negative ← accept ['-']
    unless negative do let _ ← accept ['+']
    let n : Int := inBase 10 (← digits Json.isDigit)
    return some (if negative then -n else n)
  else return none

/-- Reads a number: an integer, or a float that does not exceed the floats upwards. -/
def number : Reader Document := do
  let negative ← accept ['-']
  let signed ← if negative then pure true else accept ['+']
  match ← peek with
  | some 'i' =>
    exactly ['i', 'n', 'f']
    return .number false
  | some 'n' =>
    exactly ['n', 'a', 'n']
    return .number false
  | _ =>
    let s ← get
    match signed, s with
    | false, '0' :: 'x' :: rest => set rest; basedInteger 16
    | false, '0' :: 'o' :: rest => set rest; basedInteger 8
    | false, '0' :: 'b' :: rest => set rest; basedInteger 2
    | _, _ =>
      let whole ← decimalDigits
      let fraction ← if ← accept ['.'] then some <$> digits Json.isDigit else pure none
      match fraction, ← exponent with
      | none, none => StateT.lift (decimalInteger negative whole)
      | fraction, exp =>
        let inRange := Json.inFloatRange whole (fraction.getD []) (exp.getD 0)
        if inRange || negative then return .number inRange else failure

/-! ### Dates and times -/

/-- Reads a number of exactly `k` digits within bounds. -/
def field (k low high : Nat) : Reader Nat := fun s =>
  let ds := s.take k
  let n := inBase 10 ds
  if ds.length = k ∧ ds.all Json.isDigit ∧ low ≤ n ∧ n ≤ high then some (n, s.drop k) else none

def daysIn (year month : Nat) : Nat :=
  if month = 2 then
    if year % 4 = 0 ∧ (year % 100 ≠ 0 ∨ year % 400 = 0) then 29 else 28
  else if month = 4 ∨ month = 6 ∨ month = 9 ∨ month = 11 then 30
  else 31

def date : Reader Unit := do
  let year ← field 4 0 9999
  exactly ['-']
  let month ← field 2 1 12
  exactly ['-']
  let _ ← field 2 1 (daysIn year month)

def time : Reader Unit := do
  let _ ← field 2 0 23
  exactly [':']
  let _ ← field 2 0 59
  exactly [':']
  let _ ← field 2 0 60
  if ← accept ['.'] then
    let ds ← takeWhile Json.isDigit
    if ds.isEmpty then failure

/-- Reads an optional distance from universal time. -/
def offset : Reader Unit := do
  if ← accept ['Z', 'z'] then return
  if ← accept ['+', '-'] then
    let _ ← field 2 0 23
    exactly [':']
    let _ ← field 2 0 59

/-- Reads a date, a time of day, or both with an optional offset. -/
def dateTime : Reader Document := fun s =>
  match date s with
  | some ((), rest) =>
    match (do let _ ← one fun c => c == 'T' || c == 't' || c == ' '
              time : Reader Unit) rest with
    | some ((), rest) => (offset rest).map fun (_, rest) => (.date, rest)
    | none => some (.date, rest)
  | none => (time s).map fun (_, rest) => (.date, rest)

end Interchain.Toml
