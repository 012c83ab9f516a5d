/-!
# Quoted characters and texts

How a character or a text is shown in a message: in quotes, with escapes for quotes, backslashes and the characters
that have no picture of their own. Which these are is known here for the first 256 code points only; all later ones
are shown as they are.
-/

namespace Interchain.Quoted

/-- The digits of a number in base 16, without leading zeros. -/
def hexDigits (n : Nat) : List Char := Nat.toDigits 16 n

/-- Whether a character has a picture of its own. Control characters, the no-break space and the soft hyphen have
none; characters beyond the first 256 are taken to have one. -/
def isShown (c : Char) : Bool :=
  let n := c.toNat
  !(n < 32 || (127 ≤ n && n ≤ 160) || n = 173)

/-- A character as it stands between quotes of the given kind. -/
def escape (quote c : Char) : List Char :=
  if c = quote then ['\\', c]
  else match c with
    | '\x00' => ['\\', '0']
    | '\t' => ['\\', 't']
    | '\n' => ['\\', 'n']
    | '\r' => ['\\', 'r']
    | '\\' => ['\\', '\\']
    | _ => if isShown c then [c] else ['\\', 'u', '\x7b'] ++ hexDigits c.toNat ++ ['\x7d']

def character (c : Char) : String :=
  String.ofList ('\'' :: escape '\'' c ++ ['\''])

def text (s : String) : String :=
  String.ofList ('"' :: s.toList.flatMap (escape '"') ++ ['"'])

example : (escape '"' '\x7f', escape '\'' '"') = (['\\', 'u', '\x7b', '7', 'f', '\x7d'], ['"']) := by decide

end Interchain.Quoted
