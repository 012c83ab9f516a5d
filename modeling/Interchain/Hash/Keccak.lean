import Interchain.Bytes.Fixed

/-!
# Keccak-256

The sponge over 1600-bit states with a rate of 136 bytes and the original padding, which is not that of SHA-3. A
state is five rows of five lanes, so that each step of a round is an operation on whole rows, and the 24 rounds are
a fold over their constants.

`keccak256` is the hash of a byte string, `Selector.ofSignature` the first four bytes of the hash of a function's
signature.
-/

namespace Interchain

namespace Keccak

structure Row where
  a : UInt64
  b : UInt64
  c : UInt64
  d : UInt64
  e : UInt64

/-- Rotates to the left by `n` bits, for `0 < n < 64`. -/
def rotl (x : UInt64) (n : UInt64) : UInt64 :=
  (x <<< n) ||| (x >>> (64 - n))

namespace Row

def zero : Row := ⟨0, 0, 0, 0, 0⟩

instance : XorOp Row where
  xor r s := ⟨r.a ^^^ s.a, r.b ^^^ s.b, r.c ^^^ s.c, r.d ^^^ s.d, r.e ^^^ s.e⟩

/-- Each lane becomes its right neighbour. -/
def next (r : Row) : Row := ⟨r.b, r.c, r.d, r.e, r.a⟩

/-- Each lane becomes its left neighbour. -/
def prev (r : Row) : Row := ⟨r.e, r.a, r.b, r.c, r.d⟩

/-- Rotates every lane by its own amount; an amount of zero leaves the lane. -/
def rotate (r n : Row) : Row :=
  let turn (x k : UInt64) : UInt64 := if k = 0 then x else rotl x k
  ⟨turn r.a n.a, turn r.b n.b, turn r.c n.c, turn r.d n.d, turn r.e n.e⟩

/-- The nonlinear step: each lane takes in its second neighbour where its first is clear. -/
def chi (r : Row) : Row :=
  ⟨r.a ^^^ (~~~r.b &&& r.c), r.b ^^^ (~~~r.c &&& r.d), r.c ^^^ (~~~r.d &&& r.e),
    r.d ^^^ (~~~r.e &&& r.a), r.e ^^^ (~~~r.a &&& r.b)⟩

end Row

structure State where
  r0 : Row
  r1 : Row
  r2 : Row
  r3 : Row
  r4 : Row

namespace State

def zero : State := ⟨.zero, .zero, .zero, .zero, .zero⟩

/-- Adds to every lane the parities of the two neighbouring columns, the right one rotated by one bit. -/
def theta (s : State) : State :=
  let parity := s.r0 ^^^ s.r1 ^^^ s.r2 ^^^ s.r3 ^^^ s.r4
  let d := parity.prev ^^^ parity.next.rotate ⟨1, 1, 1, 1, 1⟩
  ⟨s.r0 ^^^ d, s.r1 ^^^ d, s.r2 ^^^ d, s.r3 ^^^ d, s.r4 ^^^ d⟩

def rho (s : State) : State :=
  ⟨s.r0.rotate ⟨0, 1, 62, 28, 27⟩, s.r1.rotate ⟨36, 44, 6, 55, 20⟩, s.r2.rotate ⟨3, 10, 43, 25, 39⟩,
    s.r3.rotate ⟨41, 45, 15, 21, 8⟩, s.r4.rotate ⟨18, 2, 61, 56, 14⟩⟩

/-- Lane `x` of row `y` moves to lane `y` of row `2x + 3y`. -/
def pi (s : State) : State :=
  ⟨⟨s.r0.a, s.r1.b, s.r2.c, s.r3.d, s.r4.e⟩, ⟨s.r0.d, s.r1.e, s.r2.a, s.r3.b, s.r4.c⟩,
    ⟨s.r0.b, s.r1.c, s.r2.d, s.r3.e, s.r4.a⟩, ⟨s.r0.e, s.r1.a, s.r2.b, s.r3.c, s.r4.d⟩,
    ⟨s.r0.c, s.r1.d, s.r2.e, s.r3.a, s.r4.b⟩⟩

def chi (s : State) : State :=
  ⟨s.r0.chi, s.r1.chi, s.r2.chi, s.r3.chi, s.r4.chi⟩

def round (s : State) (constant : UInt64) : State :=
  let t := s.theta.rho.pi.chi
  { t with r0 := t.r0 ^^^ ⟨constant, 0, 0, 0, 0⟩ }

end State

def roundConstants : List UInt64 :=
  [0x0000000000000001, 0x0000000000008082, 0x800000000000808a, 0x8000000080008000,
    0x000000000000808b, 0x0000000080000001, 0x8000000080008081, 0x8000000000008009,
    0x000000000000008a, 0x0000000000000088, 0x0000000080008009, 0x000000008000000a,
    0x000000008000808b, 0x800000000000008b, 0x8000000000008089, 0x8000000000008003,
    0x8000000000008002, 0x8000000000000080, 0x000000000000800a, 0x800000008000000a,
    0x8000000080008081, 0x8000000000008080, 0x0000000080000001, 0x8000000080008008]

namespace State

def permute (s : State) : State :=
  roundConstants.foldl round s

end State

/-! ### Sponge -/

/-- The lane at position `i` of a block: eight bytes, least significant first. -/
def lane (block : Bytes) (i : Nat) : UInt64 :=
  ((block.drop (8 * i)).take 8).foldr (fun b n => n <<< 8 ||| b.toUInt64) 0

/-- Adds a block of 136 bytes to the outer part of the state. -/
def State.absorb (s : State) (block : Bytes) : State :=
  let l := lane block
  { s with
    r0 := s.r0 ^^^ ⟨l 0, l 1, l 2, l 3, l 4⟩
    r1 := s.r1 ^^^ ⟨l 5, l 6, l 7, l 8, l 9⟩
    r2 := s.r2 ^^^ ⟨l 10, l 11, l 12, l 13, l 14⟩
    r3 := s.r3 ^^^ ⟨l 15, l 16, 0, 0, 0⟩ }

/-- The padding that fills a message of `n` bytes up to whole blocks: a first byte 1, a last byte 128, which
fall together where one byte is missing. -/
def padding (n : Nat) : Bytes :=
  let missing := 136 - n % 136
  if missing = 1 then [0x81] else 0x01 :: List.replicate (missing - 2) 0 ++ [0x80]

/-- Absorbs the first `k` blocks of the string. -/
def absorbAll : Nat → State → Bytes → State
  | 0, s, _ => s
  | k + 1, s, bs => absorbAll k (s.absorb (bs.take 136)).permute (bs.drop 136)

def laneBytes (x : UInt64) : Bytes :=
  (Bytes.ofNat 8 x.toNat).reverse

end Keccak

def keccak256 (message : Bytes) : Hash32 :=
  let n := message.length
  let final := Keccak.absorbAll (n / 136 + 1) .zero (message ++ Keccak.padding n)
  .ofFit 32 ([final.r0.a, final.r0.b, final.r0.c, final.r0.d].flatMap Keccak.laneBytes)

def Selector.ofSignature (signature : String) : Selector :=
  .ofFit 4 (keccak256 (Bytes.ofString signature)).bytes

end Interchain
