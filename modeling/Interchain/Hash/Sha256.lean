import Interchain.Bytes.Fixed

/-!
# SHA-256 and the constructions over it

`sha256` is the hash of a byte string, with its message schedule kept as a window of the next sixteen words. Over it
are built the keyed hash `hmac`, key derivation in its two steps (`Hkdf.extract`, `Hkdf.expand`), and
`expandMessage`, which gives uniform bytes of a wanted length from a message and a domain tag.

Lengths are not checked: an expansion longer than 255 blocks and a tag of more than 255 bytes are outside what these
functions are for.
-/

namespace Interchain

namespace Sha256

structure State where
  a : UInt32
  b : UInt32
  c : UInt32
  d : UInt32
  e : UInt32
  f : UInt32
  g : UInt32
  h : UInt32

/-- Rotates to the right by `n` bits, for `0 < n < 32`. -/
def rotr (x n : UInt32) : UInt32 :=
  (x >>> n) ||| (x <<< (32 - n))

def roundConstants : List UInt32 :=
  [0x428a2f98, 0x71374491, 0xb5c0fbcf, 0xe9b5dba5, 0x3956c25b, 0x59f111f1, 0x923f82a4, 0xab1c5ed5,
    0xd807aa98, 0x12835b01, 0x243185be, 0x550c7dc3, 0x72be5d74, 0x80deb1fe, 0x9bdc06a7, 0xc19bf174,
    0xe49b69c1, 0xefbe4786, 0x0fc19dc6, 0x240ca1cc, 0x2de92c6f, 0x4a7484aa, 0x5cb0a9dc, 0x76f988da,
    0x983e5152, 0xa831c66d, 0xb00327c8, 0xbf597fc7, 0xc6e00bf3, 0xd5a79147, 0x06ca6351, 0x14292967,
    0x27b70a85, 0x2e1b2138, 0x4d2c6dfc, 0x53380d13, 0x650a7354, 0x766a0abb, 0x81c2c92e, 0x92722c85,
    0xa2bfe8a1, 0xa81a664b, 0xc24b8b70, 0xc76c51a3, 0xd192e819, 0xd6990624, 0xf40e3585, 0x106aa070,
    0x19a4c116, 0x1e376c08, 0x2748774c, 0x34b0bcb5, 0x391c0cb3, 0x4ed8aa4a, 0x5b9cca4f, 0x682e6ff3,
    0x748f82ee, 0x78a5636f, 0x84c87814, 0x8cc70208, 0x90befffa, 0xa4506ceb, 0xbef9a3f7, 0xc67178f2]

def initial : State :=
  ⟨0x6a09e667, 0xbb67ae85, 0x3c6ef372, 0xa54ff53a,
    0x510e527f, 0x9b05688c, 0x1f83d9ab, 0x5be0cd19⟩

def State.add (s t : State) : State :=
  ⟨s.a + t.a, s.b + t.b, s.c + t.c, s.d + t.d, s.e + t.e, s.f + t.f, s.g + t.g, s.h + t.h⟩

/-- One round with the sum of the round constant and the scheduled word. -/
def State.round (s : State) (kw : UInt32) : State :=
  let s1 := rotr s.e 6 ^^^ rotr s.e 11 ^^^ rotr s.e 25
  let choice := (s.e &&& s.f) ^^^ (~~~s.e &&& s.g)
  let t1 := s.h + s1 + choice + kw
  let s0 := rotr s.a 2 ^^^ rotr s.a 13 ^^^ rotr s.a 22
  let majority := (s.a &&& s.b) ^^^ (s.a &&& s.c) ^^^ (s.b &&& s.c)
  ⟨t1 + (s0 + majority), s.a, s.b, s.c, s.d + t1, s.e, s.f, s.g⟩

/-- The word that follows sixteen words of the schedule. -/
def nextWord : List UInt32 → UInt32
  | [w0, w1, _, _, _, _, _, _, _, w9, _, _, _, _, w14, _] =>
    let s0 := rotr w1 7 ^^^ rotr w1 18 ^^^ (w1 >>> 3)
    let s1 := rotr w14 17 ^^^ rotr w14 19 ^^^ (w14 >>> 10)
    w0 + s0 + w9 + s1
  | _ => 0

/-- The rounds of one block, along the constants, with the next sixteen words of the schedule at hand. -/
def rounds : List UInt32 → List UInt32 → State → State
  | [], _, s => s
  | k :: ks, window, s =>
    rounds ks (window.drop 1 ++ [nextWord window]) (s.round (k + window.headD 0))

def compress (s : State) (block : Bytes) : State :=
  s.add (rounds roundConstants ((FixedBytes.blocks 4 16 block).map fun w => UInt32.ofNat w.toNat) s)

/-- Takes in the first `k` blocks of the string. -/
def compressAll : Nat → State → Bytes → State
  | 0, s, _ => s
  | k + 1, s, bs => compressAll k (compress s (bs.take 64)) (bs.drop 64)

/-- The padding of a message of `n` bytes: a set bit, zeros, and the length in bits. -/
def padding (n : Nat) : Bytes :=
  0x80 :: List.replicate ((119 - n % 64) % 64) 0 ++ Bytes.ofNat 8 (8 * n)

def State.toBytes (s : State) : Bytes :=
  [s.a, s.b, s.c, s.d, s.e, s.f, s.g, s.h].flatMap fun x => Bytes.ofNat 4 x.toNat

end Sha256

def sha256 (message : Bytes) : Bytes :=
  let n := message.length
  (Sha256.compressAll ((n + 8) / 64 + 1) Sha256.initial (message ++ Sha256.padding n)).toBytes

/-! ### Keyed hash and key derivation -/

def xorBytes (a b : Bytes) : Bytes :=
  List.zipWith (· ^^^ ·) a b

def hmac (key message : Bytes) : Bytes :=
  let block := Bytes.fit 64 (if key.length > 64 then sha256 key else key)
  sha256 (block.map (· ^^^ 0x5c) ++ sha256 (block.map (· ^^^ 0x36) ++ message))

namespace Hkdf

def extract (salt material : Bytes) : Bytes :=
  hmac salt material

/-- The blocks numbered from `i` on, `k` of them; each is keyed over the one before it. -/
def expandBlocks (key info : Bytes) : Nat → Nat → Bytes → Bytes
  | 0, _, _ => []
  | k + 1, i, previous =>
    let block := hmac key (previous ++ info ++ [UInt8.ofNat i])
    block ++ expandBlocks key info k (i + 1) block

def expand (key info : Bytes) (length : Nat) : Bytes :=
  (expandBlocks key info ((length + 31) / 32) 1 []).take length

end Hkdf

/-! ### Uniform bytes -/

/-- The blocks numbered from `i` on, `k` of them; each hashes the first block added to the one before it. -/
def expandMessageBlocks (first tag : Bytes) : Nat → Nat → Bytes → Bytes
  | 0, _, _ => []
  | k + 1, i, previous =>
    let block := sha256 (xorBytes first previous ++ [UInt8.ofNat i] ++ tag)
    block ++ expandMessageBlocks first tag k (i + 1) block

/-- Expands a message to `length` uniform bytes under a domain tag of at most 255 bytes. -/
def expandMessage (message domain : Bytes) (length : Nat) : Bytes :=
  let tag := domain ++ [UInt8.ofNat domain.length]
  let first := sha256 (List.replicate 64 0 ++ message ++ Bytes.ofNat 2 length ++ [0] ++ tag)
  let block := sha256 (first ++ [1] ++ tag)
  (block ++ expandMessageBlocks first tag ((length + 31) / 32 - 1) 2 block).take length

end Interchain
