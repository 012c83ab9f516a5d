import Interchain.Document.Basic

/-!
# TOML tables

Tables grow while a text is read: by headers, by dotted keys, and by plain keys. What was made by one of these may
not always be extended by another, so a table under construction remembers how it came about (`Toml.Origin`).

All three kinds of line come down to `Toml.Entries.update`, the change at the end of a path, which creates the
tables on the way and goes into the last element of an array of tables.
-/

namespace Interchain.Toml

/-- How a table came about. -/
inductive Origin where
  /-- Defined by a header of its own, as an element of an array, or as the outermost table. -/
  | header
  /-- Named on the way to a table with a header. -/
  | implied
  /-- Named on the way to a key. -/
  | dotted
deriving DecidableEq

inductive Node where
  | value (d : Document)
  | table (origin : Origin) (entries : List (String × Node))
  | tables (elements : List (List (String × Node)))

abbrev Entries := List (String × Node)

namespace Entries

/-- Replaces the node under a name, or adds one at the end. -/
def replace (name : String) (n : Node) : Entries → Entries
  | [] => [(name, n)]
  | (k, m) :: rest => if k = name then (name, n) :: rest else (k, m) :: replace name n rest

/-- Changes the entries of the last element. -/
def changeLast (f : Entries → Option Entries) : List Entries → Option (List Entries)
  | [] => none
  | [e] => (f e).map ([·])
  | e :: es => (changeLast f es).map (e :: ·)

/-- Follows a path, entering tables and the last elements of arrays and creating tables where there are none,
and changes the table at its end. The change is told how that table came about. -/
def update (dotted : Bool) (change : Origin → Entries → Option Entries) :
    List String → Origin → Entries → Option Entries
  | [], origin, entries => change origin entries
  | name :: path, _, entries =>
    match entries.lookup name with
    | none => do
      let origin := if dotted then .dotted else .implied
      let inner ← update dotted change path origin []
      return replace name (.table origin inner) entries
    | some (.value _) => none
    | some (.tables elements) => do
      let elements ← changeLast (update dotted change path .header) elements
      return replace name (.tables elements) entries
    | some (.table origin inner) => do
      if dotted ∧ origin = .header then none
      let inner ← update dotted change path origin inner
      return replace name (.table origin inner) entries

/-- Defines a key. A dotted key must end in a table made by dotted keys, a plain key in one that was not. -/
def define (path : List String) (name : String) (d : Document) (entries : Entries) : Option Entries :=
  update true
    (fun origin inner =>
      if (origin = .dotted) = path.isEmpty then none
      else if (inner.lookup name).isSome then none
      else some (inner ++ [(name, .value d)]))
    path .header entries

/-- Starts the table of a header; an implied one may be taken over. -/
def openTable (path : List String) (name : String) (entries : Entries) : Option Entries :=
  update false
    (fun _ inner =>
      match inner.lookup name with
      | none => some (inner ++ [(name, .table .header [])])
      | some (.table .implied body) => some (replace name (.table .header body) inner)
      | some _ => none)
    path .header entries

/-- Starts the next element of an array of tables. -/
def openElement (path : List String) (name : String) (entries : Entries) : Option Entries :=
  update false
    (fun _ inner =>
      match inner.lookup name with
      | none => some (inner ++ [(name, .tables [[]])])
      | some (.tables elements) => some (replace name (.tables (elements ++ [[]])) inner)
      | some _ => none)
    path .header entries

end Entries

/-! ### Finished documents -/

mutual

def Node.toDocument : Node → Document
  | .value d => d
  | .table _ entries => .object (Entries.toMembers entries)
  | .tables elements => .array (Entries.toDocuments elements)

def Entries.toMembers : List (String × Node) → List (Option String × Document)
  | [] => []
  | (k, n) :: rest => (some k, n.toDocument) :: Entries.toMembers rest

def Entries.toDocuments : List (List (String × Node)) → List Document
  | [] => []
  | e :: es => .object (Entries.toMembers e) :: Entries.toDocuments es

end

end Interchain.Toml
