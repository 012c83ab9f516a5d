import Interchain.Bytes.Hex

/-!
# Compact JSON

Printers for the canonical text of a configuration, without blanks. No text is written that would need escapes.
-/

namespace Interchain.Compact

def natural (n : Nat) : List Char :=
  Nat.toDigits 10 n

def bool : Bool → List Char
  | true => ['t', 'r', 'u', 'e']
  | false => ['f', 'a', 'l', 's', 'e']

def text (s : String) : List Char :=
  '"' :: s.toList ++ ['"']

def hex (bs : Bytes) : List Char :=
  text (Hex.encode0x bs)

/-- Puts a comma between the parts. -/
def commas : List (List Char) → List Char
  | [] => []
  | [p] => p
  | p :: ps => p ++ ',' :: commas ps

def array (items : List (List Char)) : List Char :=
  '[' :: commas items ++ [']']

def member (name : String) (value : List Char) : List Char :=
  text name ++ ':' :: value

def object (members : List (List Char)) : List Char :=
  '\x7b' :: commas members ++ ['\x7d']

end Interchain.Compact
