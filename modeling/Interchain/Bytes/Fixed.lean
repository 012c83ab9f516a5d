import Interchain.Bytes.Basic

/-!
# Byte strings of a fixed length

The length is part of the type: hashes, addresses and selectors are byte strings that carry the proof of their
length, so none of another length can be built. `FixedBytes.ofBytes?` is strict about it, while `FixedBytes.ofFit`
cuts or fills with zeros. They are ordered byte by byte.

A 256-bit `Word` is a number. `Word.toHash` and `Hash32.toWord` go between it and its 32 big-endian bytes, and are
inverse to each other.
-/

namespace Interchain

structure FixedBytes (n : Nat) where
  bytes : Bytes
  length_eq : bytes.length = n
deriving DecidableEq

/-- A 32-byte hash or identifier. -/
abbrev Hash32 := FixedBytes 32

/-- A 20-byte account address. -/
abbrev Address := FixedBytes 20

/-- The four bytes that select a function of a contract. -/
abbrev Selector := FixedBytes 4

namespace FixedBytes

-- The lemmas on lengths and values are stated with the core library's power.
attribute [local instance (high)] instPowNat

variable {n : Nat}

instance : Hashable (FixedBytes n) where
  hash x := hash x.bytes

theorem ext {x y : FixedBytes n} (h : x.bytes = y.bytes) : x = y := by
  cases x; cases y; cases h; rfl

@[simp] theorem length_bytes (x : FixedBytes n) : x.bytes.length = n := x.length_eq

def ofBytes? (n : Nat) (bs : Bytes) : Option (FixedBytes n) :=
  if h : bs.length = n then some ⟨bs, h⟩ else none

theorem ofBytes?_eq_some_iff {bs : Bytes} {x : FixedBytes n} :
    ofBytes? n bs = some x ↔ x.bytes = bs := by
  unfold ofBytes?
  split
  · next h => exact ⟨fun e => by cases e; rfl, fun e => congrArg some (ext e.symm)⟩
  · next h => exact ⟨nofun, fun e => absurd (e ▸ x.length_eq) h⟩

@[simp] theorem ofBytes?_bytes (x : FixedBytes n) : ofBytes? n x.bytes = some x :=
  ofBytes?_eq_some_iff.2 rfl

/-- Cuts or zero-fills on the right. -/
def ofFit (n : Nat) (bs : Bytes) : FixedBytes n :=
  ⟨Bytes.fit n bs, Bytes.length_fit n bs⟩

@[simp] theorem bytes_ofFit (bs : Bytes) : (ofFit n bs).bytes = Bytes.fit n bs := rfl

/-- The first `k` pieces of a string, each filled up with zeros where the string ends early. -/
def blocks (n : Nat) : Nat → Bytes → List (FixedBytes n)
  | 0, _ => []
  | k + 1, bs => ofFit n bs :: blocks n k (bs.drop n)

@[simp] theorem length_blocks (n k : Nat) (bs : Bytes) : (blocks n k bs).length = k := by
  induction k generalizing bs with
  | zero => rfl
  | succ k ih => simp only [blocks, List.length_cons, ih]

theorem length_flatMap_bytes (xs : List (FixedBytes n)) : (xs.flatMap (·.bytes)).length = n * xs.length := by
  induction xs with
  | nil => rfl
  | cons x xs ih =>
    rw [List.flatMap_cons, List.length_append, ih, x.length_eq, List.length_cons, Nat.mul_succ, Nat.add_comm]

/-- Strings of one length are known from what they are put together. -/
theorem eq_of_flatMap_bytes {xs ys : List (FixedBytes n)} (hlength : xs.length = ys.length)
    (h : xs.flatMap (·.bytes) = ys.flatMap (·.bytes)) : xs = ys := by
  induction xs generalizing ys with
  | nil => exact (List.eq_nil_of_length_eq_zero hlength.symm).symm
  | cons x xs ih =>
    cases ys with
    | nil => cases hlength
    | cons y ys =>
      rw [List.flatMap_cons, List.flatMap_cons] at h
      obtain ⟨hhead, htail⟩ := List.append_inj h (x.length_eq.trans y.length_eq.symm)
      rw [ext hhead, ih (Nat.succ.inj hlength) htail]

def ofNat (n v : Nat) : FixedBytes n :=
  ⟨Bytes.ofNat n v, Bytes.length_ofNat n v⟩

def toNat (x : FixedBytes n) : Nat :=
  Bytes.toNat x.bytes

theorem toNat_lt (x : FixedBytes n) : x.toNat < 256 ^ n := by
  simpa only [toNat, length_bytes] using Bytes.toNat_lt x.bytes

theorem toNat_inj {x y : FixedBytes n} (h : x.toNat = y.toNat) : x = y :=
  ext (Bytes.toNat_inj (by simp) h)

theorem toNat_ofNat {v : Nat} (h : v < 256 ^ n) : (ofNat n v).toNat = v :=
  Bytes.toNat_ofNat_of_lt h

@[simp] theorem ofNat_toNat (x : FixedBytes n) : ofNat n x.toNat = x :=
  toNat_inj (toNat_ofNat x.toNat_lt)

/-- The string that repeats one byte. -/
def replicate (n : Nat) (b : UInt8) : FixedBytes n :=
  ⟨List.replicate n b, List.length_replicate⟩

def zero : FixedBytes n := replicate n 0

instance : Inhabited (FixedBytes n) := ⟨zero⟩

instance : LT (FixedBytes n) where
  lt x y := x.bytes < y.bytes

instance (x y : FixedBytes n) : Decidable (x < y) :=
  inferInstanceAs (Decidable (x.bytes < y.bytes))

variable {x y z : FixedBytes n}

theorem lt_iff_bytes : x < y ↔ x.bytes < y.bytes := .rfl

theorem lt_irrefl (x : FixedBytes n) : ¬x < x := List.lt_irrefl x.bytes

theorem lt_trans (h : x < y) (h' : y < z) : x < z :=
  lt_iff_bytes.2 (List.lt_trans (lt_iff_bytes.1 h) (lt_iff_bytes.1 h'))

theorem eq_of_not_lt (h : ¬x < y) (h' : ¬y < x) : x = y :=
  ext (List.le_antisymm (List.not_lt.1 (mt lt_iff_bytes.2 h')) (List.not_lt.1 (mt lt_iff_bytes.2 h)))

end FixedBytes

/-! ### 256-bit words -/

/-- A 256-bit number: the unit of contract storage and of call data. -/
abbrev Word := BitVec 256

namespace Word

/-- The 32 big-endian bytes of a word. -/
def toHash (w : Word) : Hash32 := FixedBytes.ofNat 32 w.toNat

def toBytes (w : Word) : Bytes := w.toHash.bytes

@[simp] theorem length_toBytes (w : Word) : w.toBytes.length = 32 := w.toHash.length_eq

end Word

namespace Hash32

/-- The word with these big-endian bytes. -/
def toWord (h : Hash32) : Word := BitVec.ofNat 256 h.toNat

theorem toNat_toWord (h : Hash32) : (toWord h).toNat = h.toNat := by
  rw [toWord, BitVec.toNat_ofNat]
  exact Nat.mod_eq_of_lt h.toNat_lt

@[simp] theorem toHash_toWord (h : Hash32) : Word.toHash (toWord h) = h := by
  apply FixedBytes.toNat_inj
  rw [Word.toHash, FixedBytes.toNat_ofNat (by simpa using (toWord h).isLt), toNat_toWord]

@[simp] theorem toWord_toHash (w : Word) : toWord w.toHash = w := by
  rw [toWord, Word.toHash, FixedBytes.toNat_ofNat (by simpa using w.isLt), BitVec.ofNat_toNat]
  simp

end Hash32

/-- The 32-byte form of an address: twelve zero bytes, then the address. -/
def Address.leftPad (a : Address) : Hash32 :=
  ⟨List.replicate 12 0 ++ a.bytes, by simp⟩

end Interchain
