import Interchain.Bytes.Fixed
import Interchain.Rlp

/-!
# Byte strings in storage keys

A predicate travels in the storage keys of an access list: the payload, a delimiter byte, and zeros up to whole
keys. `Predicate.pack` and `Predicate.unpack` go between payloads and keys.

A payload that carries several messages is an encoded list of byte strings, which `Predicate.encodeList` writes and
`Predicate.decodeList` reads. The list must fill the payload from end to end; what stands inside it is read as far
as items go.
-/

namespace Interchain

/-- Why storage keys are not the packing of a payload. -/
inductive PackingError where
  | allZero
  | missingDelimiter
  | excessPadding
deriving DecidableEq, Repr

def PackingError.message : PackingError → String
  | .allZero => "all-zero predicate"
  | .missingDelimiter => "missing delimiter"
  | .excessPadding => "excess padding"

/-- Why the bytes of a transaction's access list are not understood. -/
inductive EncodingError where
  | lengthMismatch (expected actual : Nat)
  | packing (cause : PackingError)
  | rlp (cause : Rlp.Error)
deriving DecidableEq, Repr

def EncodingError.message : EncodingError → String
  | .lengthMismatch expected actual => s!"invalid length: expected {expected}, got {actual}"
  | .packing e => s!"invalid packed predicate: {e.message}"
  | .rlp e => s!"RLP decode error: {e.message}"

namespace Predicate

def delimiter : UInt8 := 0xff

/-! ### Storage keys -/

def pack (payload : Bytes) : List Hash32 :=
  FixedBytes.blocks 32 (payload.length / 32 + 1) (payload ++ [delimiter])

theorem length_pack (payload : Bytes) : (pack payload).length = payload.length / 32 + 1 := by
  simp only [pack, FixedBytes.length_blocks]

/-- The last byte that is not zero must be the delimiter and lie in the last key. No keys are an empty payload. -/
def unpack (keys : List Hash32) : Except EncodingError Bytes :=
  match keys with
  | [] => .ok []
  | _ =>
    let bytes := keys.flatMap (·.bytes)
    match bytes.reverse.dropWhile (· == 0) with
    | [] => .error (.packing .allZero)
    | b :: front =>
      if b ≠ delimiter then .error (.packing .missingDelimiter)
      else if bytes.length - front.length > 32 then .error (.packing .excessPadding)
      else .ok front.reverse

example : (pack []).map (·.bytes.head?) = [some delimiter] := by decide

/-! ### Lists of byte strings -/

def encodeList (items : List Bytes) : Bytes :=
  Rlp.encodeList (items.map Rlp.encodeBytes)

/-- The payload must be one list from end to end, and each element that is read a byte string. -/
def decodeList (payload : Bytes) : Except EncodingError (List Bytes) := do
  unless Rlp.isList payload do throw (.rlp .expectedList)
  let h ← (Rlp.header payload).mapError .rlp
  if h.total ≠ payload.length then throw (.lengthMismatch h.total payload.length)
  ((Rlp.elements payload).mapM Rlp.bytesOf).mapError .rlp

end Predicate

end Interchain
