import Interchain.Bytes.Hex
import Interchain.Hash.Keccak

/-!
# Checksummed addresses

The text of an address in which the case of each letter tells a bit of a hash of the digits, so that most
misspellings can be noticed. It is only written here, to show addresses in errors; texts with a wrong checksum are
read like any others.
-/

namespace Interchain

/-- A letter is upper case where the hash of the lower-case digits has a digit of 8 or more. -/
def Address.checksummed (a : Address) : String :=
  let digits := Hex.encode a.bytes
  let hash := Hex.encode (keccak256 (Bytes.ofString digits)).bytes
  let mark (c h : Char) : Char := if '8' ≤ h then c.toUpper else c
  "0x" ++ String.ofList (List.zipWith mark digits.toList hash.toList)

end Interchain
