/-!
# Documents

The value of a configuration text, whichever format it is written in. Only what a reader of configurations can tell
apart is kept: integers from zero up with their value, and of any other number just whether a float can hold it.
Members of an object stay in their order, repeated names included.

Texts with unpaired surrogates and numbers beyond the floats have a place in a document, since some readers pass
over them; `Document.isSound` tells whether there are any.
-/

namespace Interchain

inductive Document where
  | null
  | bool (b : Bool)
  | natural (n : Nat)
  | number (inRange : Bool)
  | date
  /-- A text, or `none` where escapes name surrogates that do not pair up. -/
  | text (s : Option String)
  | array (items : List Document)
  | object (members : List (Option String × Document))

namespace Document

/-- Numbers from here on round to infinity. -/
def floatLimit : Nat := Nat.pow 2 1024 - Nat.pow 2 970

mutual

def depth : Document → Nat
  | array items => depthItems items + 1
  | object members => depthMembers members + 1
  | _ => 0

def depthItems : List Document → Nat
  | [] => 0
  | d :: ds => max d.depth (depthItems ds)

def depthMembers : List (Option String × Document) → Nat
  | [] => 0
  | (_, d) :: ms => max d.depth (depthMembers ms)

end

mutual

def isSound : Document → Bool
  | natural n => n < floatLimit
  | number inRange => inRange
  | text s => s.isSome
  | array items => soundItems items
  | object members => soundMembers members
  | _ => true

def soundItems : List Document → Bool
  | [] => true
  | d :: ds => d.isSound && soundItems ds

def soundMembers : List (Option String × Document) → Bool
  | [] => true
  | (k, d) :: ms => k.isSome && d.isSound && soundMembers ms

end

end Document

end Interchain
