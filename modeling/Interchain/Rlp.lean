import Interchain.Bytes.Basic

/-!
# Recursive length prefixes

An item is a byte string or a list of items. Short payloads carry their length in the first byte, longer ones in up
to eight bytes after it. Items are handled in their encoded form; what they hold is read one level at a time.

* `Rlp.encodeBytes`, `Rlp.encodeList`: the two kinds of item.
* `Rlp.header?`, `Rlp.split`: the length of the first item of a string, and the item itself.
* `Rlp.elements`: the items that a list holds. It stops without an error at the first one that is malformed or cut
  short.
* `Rlp.bytesOf`: the content of a byte string item.
-/

namespace Interchain.Rlp

inductive Error where
  | tooShort
  | zeroLengthPrefix
  | invalidIndirection
  | expectedList
  | expectedData
  | incorrectListLength
  | invalidLength
deriving DecidableEq, Repr

def Error.message : Error → String
  | .tooShort => "RlpIsTooShort"
  | .zeroLengthPrefix => "RlpDataLenWithZeroPrefix"
  | .invalidIndirection => "RlpInvalidIndirection"
  | .expectedList => "RlpExpectedToBeList"
  | .expectedData => "RlpExpectedToBeData"
  | .incorrectListLength => "RlpIncorrectListLen"
  | .invalidLength => "RlpInvalidLength"

/-! ### Writing -/

/-- The header of a payload of `n` bytes, counted from `short` up to 55 and from `long` by the width of the
length above that. -/
def lengthHeader (short long : UInt8) (n : Nat) : Bytes :=
  if n ≤ 55 then [short + UInt8.ofNat n]
  else
    let digits := Bytes.ofNatTrim n
    (long + UInt8.ofNat digits.length) :: digits

/-- A single byte below 128 is its own encoding. -/
def encodeBytes (bs : Bytes) : Bytes :=
  match bs with
  | [b] => if b < 0x80 then [b] else [0x81, b]
  | _ => lengthHeader 0x80 0xb7 bs.length ++ bs

/-- Wraps items that are already encoded. -/
def encodeList (items : List Bytes) : Bytes :=
  let payload := items.flatten
  lengthHeader 0xc0 0xf7 payload.length ++ payload

/-! ### Reading -/

/-- The widths of an item's header and of its payload. -/
structure Header where
  width : Nat
  payload : Nat
deriving DecidableEq, Repr

def Header.total (h : Header) : Nat := h.width + h.payload

/-- Reads a length of `k` bytes after the first byte: no leading zero, and more than a short header can say. -/
def longHeader (rest : Bytes) (k : Nat) : Except Error Header :=
  match rest with
  | [] => .error .tooShort
  | b :: _ =>
    let digits := rest.take k
    if b = 0 then .error .zeroLengthPrefix
    else if digits.length < k then .error .tooShort
    else if Bytes.toNat digits ≤ 55 then .error .invalidIndirection
    else .ok ⟨1 + k, Bytes.toNat digits⟩

/-- Reads the header of the first item, without asking whether the payload is there. -/
def header? : Bytes → Except Error Header
  | [] => .error .tooShort
  | b :: rest =>
    let n := b.toNat
    if n < 0x80 then .ok ⟨0, 1⟩
    else if n ≤ 0xb7 then .ok ⟨1, n - 0x80⟩
    else if n < 0xc0 then longHeader rest (n - 0xb7)
    else if n ≤ 0xf7 then .ok ⟨1, n - 0xc0⟩
    else longHeader rest (n - 0xf7)

/-- The header of the first item, which must be there as a whole. -/
def header (bs : Bytes) : Except Error Header := do
  let h ← header? bs
  if (bs.take h.total).length < h.total then throw .tooShort
  return h

/-- The first item and what follows it. -/
def split (bs : Bytes) : Except Error (Bytes × Bytes) := do
  let h ← header bs
  return (bs.take h.total, bs.drop h.total)

def isList : Bytes → Bool
  | [] => false
  | b :: _ => 0xc0 ≤ b

/-- The items at the front of a string, up to the first one that is malformed or cut short. -/
def itemsFrom : Nat → Bytes → List Bytes
  | 0, _ => []
  | fuel + 1, bs =>
    match split bs with
    | .ok (item, rest) => item :: itemsFrom fuel rest
    | .error _ => []

/-- The items that a list holds. The first must lie within the list's payload; from there on items are read as
far as the string reaches, and reading stops without an error where no further item stands. -/
def elements (bs : Bytes) : List Bytes :=
  if isList bs then
    match header bs with
    | .ok h =>
      let rest := bs.drop h.width
      match split (rest.take h.payload) with
      | .ok (first, _) => first :: itemsFrom bs.length (rest.drop first.length)
      | .error _ => []
    | .error _ => []
  else []

/-- The content of a byte string item. A single byte that stands for itself may not carry a header. -/
def bytesOf (item : Bytes) : Except Error Bytes := do
  if isList item then throw .expectedData
  let h ← header item
  let content := (item.drop h.width).take h.payload
  match h, content with
  | ⟨1, 1⟩, [b] => if b < 0x80 then throw .invalidIndirection else return content
  | _, _ => return content

example : encodeList [encodeBytes [1], encodeBytes [200, 201]] = [0xc4, 1, 0x82, 200, 201] := by decide

example : elements [0xc4, 1, 0x82, 200, 201] = [[1], [0x82, 200, 201]] := by decide

end Interchain.Rlp
