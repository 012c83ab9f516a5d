import Interchain.AccessList.Basic
import Interchain.ChainConfig.Schedule
import Interchain.Document.Json
import Interchain.Document.Toml.Parser

/-!
# Reading configurations

What a document must look like to be a configuration. A record is an object with the record's names, in any order
and with others besides, or an array of its fields in their order. The two formats differ in what they pass over:
see `Notation`.

A reader gives a value or nothing. Where in a text reading fails, and in which words a parser complains about it, is
not kept, so `LoadError.badText` names the format alone; a configuration that can be read but makes no sense is
refused with the full `ConfigError`. Files are given by name and contents, as reading them is up to the caller.
-/

namespace Interchain

/-- The format that a document was written in. -/
inductive Notation where
  | json
  | toml
deriving DecidableEq

namespace Reading

variable {α : Type}

/-! ### Scalars -/

def natural (limit : Nat) : Document → Option Nat
  | .natural n => if n < limit then some n else none
  | _ => none

def uint64 (d : Document) : Option UInt64 := (natural UInt64.size d).map UInt64.ofNat

def uint32 (d : Document) : Option UInt32 := (natural UInt32.size d).map UInt32.ofNat

def byte (d : Document) : Option UInt8 := (natural 256 d).map UInt8.ofNat

def bool : Document → Option Bool
  | .bool b => some b
  | _ => none

/-- Whether the elements after the last byte of a byte string are passed over. The first of them must not be a
byte itself; JSON passes over that one alone, and only if it has no parts. -/
def toleratesAfterBytes (format : Notation) : List Document → Bool
  | [] => true
  | d :: rest =>
    (byte d).isNone &&
      match format, d with
      | .toml, _ => true
      | .json, .array _ | .json, .object _ | .json, .text none => false
      | .json, _ => rest.isEmpty

/-- A byte string of length `n`: hexadecimal text, with or without its marker, or an array of bytes. -/
def fixedBytes (format : Notation) (n : Nat) : Document → Option (FixedBytes n)
  | .text (some s) =>
    match Hex.decode (Hex.dropMarker (Bytes.ofString s)) with
    | .ok bs => FixedBytes.ofBytes? n bs
    | .error _ => none
  | .array items => do
    if !toleratesAfterBytes format (items.drop n) then none
    FixedBytes.ofBytes? n (← (items.take n).mapM byte)
  | _ => none

/-! ### Records -/

/-- The members with a name. -/
def named (name : String) (members : List (Option String × Document)) : List Document :=
  members.filterMap fun (k, d) => if k = some name then some d else none

/-- A field that must be there, once. -/
def required (read : Document → Option α) (values : List Document) : Option α :=
  match values with
  | [d] => read d
  | _ => none

/-- A field that may be left out, and otherwise is there once. -/
def optional (read : Document → Option α) (standard : α) (values : List Document) : Option α :=
  match values with
  | [] => some standard
  | [d] => read d
  | _ => none

/-- The values of each field of a record, in the order of the given names. Names of an object must be texts;
an array has at most as many elements as the record has fields, unless the format passes over the rest. -/
def fields (format : Notation) (names : List String) : Document → Option (List (List Document))
  | .object members =>
    if members.all fun (k, _) => k.isSome then some (names.map (named · members)) else none
  | .array items =>
    if format = .toml ∨ items.length ≤ names.length then
      some ((List.range names.length).map fun i => items[i]?.toList)
    else none
  | _ => none

def list (read : Document → Option α) : Document → Option (List α)
  | .array items => items.mapM read
  | _ => none

/-! ### Upgrades -/

/-- How deep containers may lie within each other where a JSON value has to be kept before it is read. -/
def keptDepth : Nat := 127

/-- The body of an upgrade as a record. -/
def upgradeRecord (format : Notation) (d : Document) : Option Upgrade := do
  match ← fields format ["blockTimestamp", "disable"] d with
  | [timestamp, disable] =>
    return { timestamp := ← required uint64 timestamp, disabled := ← optional bool false disable }
  | _ => none

/-- The body of an upgrade inside `above` containers. It must be an object; in JSON all of it is kept until it is
read, so that every part has to be sound and the nesting is limited. -/
def upgradeBody (format : Notation) (above : Nat) (d : Document) : Option Upgrade :=
  match d with
  | .object _ =>
    if format = .toml ∨ (d.isSound ∧ d.depth + above ≤ keptDepth) then upgradeRecord format d else none
  | _ => none

/-- An upgrade under the key of its contract, which is the only member. -/
def upgrade (format : Notation) (above : Nat) : Document → Option Upgrade
  | .object [(some key, d)] =>
    if key = BuiltIn.warpMessenger.key then upgradeBody format (above + 1) d else none
  | _ => none

/-! ### Configurations -/

def quorum (format : Notation) (d : Document) : Option Quorum := do
  match ← fields format ["numerator", "denominator"] d with
  | [n, m] => return ⟨← required uint64 n, ← required uint64 m⟩
  | _ => none

def config (format : Notation) (d : Document) : Option ChainConfig := do
  match ← fields format ["chainId", "networkId", "warpQuorum", "precompileUpgrades"] d with
  | [chainId, networkId, warpQuorum, upgrades] =>
    return {
      chainId := ← required (fixedBytes format 32) chainId
      networkId := ← optional uint32 0 networkId
      quorum := ← optional (quorum format) .standard warpQuorum
      upgrades := ← optional (list (upgrade format 2)) [] upgrades }
  | _ => none

/-! ### Access lists -/

def accessItem (format : Notation) (d : Document) : Option AccessItem := do
  match ← fields format ["address", "storageKeys"] d with
  | [address, keys] =>
    return ⟨← required (fixedBytes format 20) address, ← required (list (fixedBytes format 32)) keys⟩
  | _ => none

def accessList (format : Notation) : Document → Option AccessList :=
  list (accessItem format)

end Reading

def AccessItem.compact (item : AccessItem) : List Char :=
  Compact.object
    [Compact.member "address" (Compact.hex item.address.bytes),
      Compact.member "storageKeys" (Compact.array (item.storageKeys.map fun k => Compact.hex k.bytes))]

def AccessList.compact (items : AccessList) : List Char :=
  Compact.array (items.map AccessItem.compact)

namespace ChainConfig

/-- The configuration that a JSON text spells, valid or not. -/
def parseJson (text : String) : Option ChainConfig := do
  Reading.config .json (← Json.parse text)

/-- The configuration that a TOML text spells, valid or not. -/
def parseToml (text : String) : Option ChainConfig := do
  Reading.config .toml (← Toml.parse text)

end ChainConfig

/-! ### Texts and files -/

/-- Why a text or a file gives no configuration. -/
inductive LoadError where
  | unreadable
  | unsupportedFormat
  | badText (format : Notation)
  | invalid (cause : ConfigError)
deriving DecidableEq

namespace ChainConfig

/-- Passes on a configuration that was read, if it is valid. -/
def ofParsed (format : Notation) : Option ChainConfig → Except LoadError ChainConfig
  | none => .error (.badText format)
  | some c =>
    match c.validate with
    | .ok () => .ok c
    | .error e => .error (.invalid e)

def ofJson (text : String) : Except LoadError ChainConfig :=
  ofParsed .json (parseJson text)

def ofToml (text : String) : Except LoadError ChainConfig :=
  ofParsed .toml (parseToml text)

/-- The part of a file's name after its last point, if there is a point after the first character. -/
def extension? (name : String) : Option String :=
  let after := name.toList.reverse.takeWhile (· != '.')
  let before := name.toList.reverse.dropWhile (· != '.')
  if before.length ≤ 1 ∨ name = ".." then none else some (String.ofList after.reverse)

/-- Reads a file of the given name; there are no contents where it cannot be opened. -/
def load (name : String) (contents : Option Bytes) : Except LoadError ChainConfig := do
  let some bytes := contents | throw .unreadable
  let some text := String.fromUTF8? ⟨bytes.toArray⟩ | throw .unreadable
  match extension? name with
  | some "json" => ofJson text
  | some "toml" => ofToml text
  | _ => throw .unsupportedFormat

end ChainConfig

end Interchain
