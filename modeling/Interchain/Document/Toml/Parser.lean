import Interchain.Document.Toml.Scalar
import Interchain.Document.Toml.Table

/-!
# TOML documents

A document is read line by line, after an optional byte order mark: a key with its value, or a header. Values nest
less than 80 deep, and a dotted key has fewer than 80 parts.

Loops over characters carry the length of the text as fuel. Each round takes at least one character, so that it
never runs out before the text does.
-/

namespace Interchain.Toml

/-- The bound on the nesting of values and on the parts of a dotted key. -/
def nestingLimit : Nat := 80

/-! ### Keys -/

def isBare (c : Char) : Bool := c.isAlphanum || c == '-' || c == '_'

def simpleKey : Reader String := fun s =>
  match s with
  | '"' :: _ => basicText s
  | '\'' :: _ => literalText s
  | _ =>
    match takeWhile isBare s with
    | some (c :: cs, rest) => some (String.ofList (c :: cs), rest)
    | _ => none

/-- Reads the parts of a key up to the last dot, blanks around each of them included. -/
def keyParts : Nat → List String → Reader (List String)
  | 0, _, _ => none
  | fuel + 1, done, s => do
    let ((), s) ← blanks s
    let (k, s) ← simpleKey s
    let ((), s) ← blanks s
    match s with
    | '.' :: rest => keyParts fuel (k :: done) rest
    | _ => return ((k :: done).reverse, s)

/-- Reads a key as its path and its last part. -/
def key : Reader (List String × String) := do
  let parts ← keyParts (nestingLimit - 1) []
  match parts.getLast? with
  | some name => return (parts.dropLast, name)
  | none => failure

/-! ### Values -/

/-- Skips blanks, line breaks and whole comments, as allowed inside arrays. -/
def gap : Nat → Reader Unit
  | 0, s => some ((), s)
  | fuel + 1, s =>
    match s with
    | '#' :: rest =>
      match newline (rest.dropWhile isPlain) with
      | some ((), rest) => gap fuel rest
      | none => none
    | ' ' :: rest => gap fuel rest
    | '\t' :: rest => gap fuel rest
    | '\n' :: rest => gap fuel rest
    | '\r' :: '\n' :: rest => gap fuel rest
    | _ => some ((), s)

def skipGap : Reader Unit := fun s => gap s.length s

/-- Reads the elements of an array after its bracket; `done` holds those before, last first. A comma may stand
after the last element. -/
def arrayBody (element : Reader Document) : Nat → List Document → Reader Document
  | 0, _, _ => none
  | fuel + 1, done, s => do
    let ((), s) ← skipGap s
    match s with
    | ']' :: rest => return (.array done.reverse, rest)
    | _ =>
      let (d, s) ← element s
      let ((), s) ← skipGap s
      match s with
      | ',' :: rest => arrayBody element fuel (d :: done) rest
      | ']' :: rest => return (.array (d :: done).reverse, rest)
      | _ => none

/-- Reads a key, the equals sign and a value into the entries. -/
def keyValue (element : Reader Document) (define : List String → String → Document → Option Entries) :
    Reader Entries := do
  let (path, name) ← key
  exactly ['=']
  blanks
  let d ← element
  StateT.lift (define path name d)

/-- Reads the members of an inline table up to its brace. -/
def inlineBody (element : Reader Document) : Nat → Entries → Reader Document
  | 0, _, _ => none
  | fuel + 1, entries, s => do
    let (entries, s) ← keyValue element (entries.define · · ·) s
    let ((), s) ← blanks s
    match s with
    | ',' :: rest => inlineBody element fuel entries rest
    | '\x7d' :: rest => return (.object (Entries.toMembers entries), rest)
    | _ => none

/-- Reads an inline table after its brace: everything on one line, and no comma after the last member. -/
def inlineTable (element : Reader Document) : Reader Document := fun s => do
  let ((), t) ← blanks s
  match t with
  | '\x7d' :: rest => return (.object [], rest)
  | _ => inlineBody element s.length [] s

def value : Nat → Reader Document
  | 0, _ => none
  | depth + 1, s =>
    match s with
    | [] => none
    | c :: rest =>
      if c = '"' ∨ c = '\'' then (text s).map fun (t, rest) => (.text (some t), rest)
      else if c = '[' then
        if depth = 0 then none else arrayBody (value depth) s.length [] rest
      else if c = '\x7b' then
        if depth = 0 then none else inlineTable (value depth) rest
      else if c = 't' then (exactly ['t', 'r', 'u', 'e'] s).map fun (_, rest) => (.bool true, rest)
      else if c = 'f' then (exactly ['f', 'a', 'l', 's', 'e'] s).map fun (_, rest) => (.bool false, rest)
      else
        match dateTime s with
        | some r => some r
        | none => number s

/-! ### Lines -/

/-- The table so far and the header that is in force, if any. -/
structure Progress where
  entries : Entries := []
  header : Option (List String × String) := none

/-- Skips blanks and a comment up to the end of the line or of the text. -/
def lineRest : Reader Unit := fun s => do
  let ((), s) ← blanks s
  let s := match s with
    | '#' :: rest => rest.dropWhile isPlain
    | _ => s
  if s.isEmpty then return ((), s) else newline s

/-- Defines a key in the table that the last header has opened. -/
def Progress.define (p : Progress) (path : List String) (name : String) (d : Document) : Option Entries :=
  match p.header with
  | none => p.entries.define path name d
  | some (header, last) =>
    p.entries.update false (fun _ inner => inner.define path name d) (header ++ [last]) .header

def header (p : Progress) (opening closing : List Char)
    (change : List String → String → Entries → Option Entries) : Reader Progress := do
  exactly opening
  let (path, name) ← key
  exactly closing
  lineRest
  let entries ← StateT.lift (change path name p.entries)
  return { entries, header := some (path, name) }

def line (p : Progress) : Reader Progress := fun s =>
  match s with
  | '#' :: _ => (lineRest s).map fun (_, rest) => (p, rest)
  | '\n' :: rest => some (p, rest)
  | '\r' :: '\n' :: rest => some (p, rest)
  | '[' :: '[' :: _ => header p ['[', '['] [']', ']'] Entries.openElement s
  | '[' :: _ => header p ['['] [']'] Entries.openTable s
  | _ => do
    let (entries, s) ← keyValue (value nestingLimit) p.define s
    let ((), s) ← lineRest s
    return ({ p with entries }, s)

/-- Reads lines to the end of the text; each takes at least one character. -/
def lines : Nat → Progress → List Char → Option Progress
  | fuel, p, s => do
    let ((), s) ← blanks s
    if s.isEmpty then return p
    match fuel with
    | 0 => none
    | fuel + 1 =>
      let (p, s) ← line p s
      lines fuel p s

def parse (s : String) : Option Document := do
  let cs := match s.toList with
    | '\ufeff' :: rest => rest
    | cs => cs
  let p ← lines cs.length {} cs
  return .object (Entries.toMembers p.entries)

end Interchain.Toml
