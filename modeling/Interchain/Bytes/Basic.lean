/-!
# Byte strings and big-endian numbers

Byte strings are lists of bytes. A string spells a number, the most significant byte first (`Bytes.toNat`), and a
number is written in a given number of bytes (`Bytes.ofNat`), where the digits that do not fit are lost. The two are
inverse up to the width, so strings of one length are equal if they spell the same number.

The shortest form of a number, the UTF-8 form of a text and filling with zeros are only defined here; what is needed
about them is proved where they are used.
-/

namespace Interchain

abbrev Bytes := List UInt8

namespace Bytes

-- The lemmas on lengths and values are stated with the core library's power.
attribute [local instance (high)] instPowNat

variable {a b : Bytes} {w n : Nat}

/-! ### Values -/

def toNat (bs : Bytes) : Nat :=
  bs.foldl (fun n b => n * 256 + b.toNat) 0

theorem foldl_toNat (bs : Bytes) (acc : Nat) :
    bs.foldl (fun n b => n * 256 + b.toNat) acc = acc * 256 ^ bs.length + toNat bs := by
  induction bs generalizing acc with
  | nil => simp [toNat]
  | cons b bs ih =>
    simp only [toNat, List.foldl_cons, List.length_cons]
    rw [ih, ih (0 * 256 + b.toNat), Nat.add_mul, Nat.pow_succ, Nat.mul_assoc acc,
      Nat.mul_comm 256, Nat.zero_mul, Nat.zero_add, Nat.add_assoc]

@[simp] theorem toNat_nil : toNat [] = 0 := rfl

theorem toNat_cons (x : UInt8) (bs : Bytes) :
    toNat (x :: bs) = x.toNat * 256 ^ bs.length + toNat bs := by
  simp only [toNat, List.foldl_cons]
  rw [foldl_toNat]
  simp only [Nat.zero_mul, Nat.zero_add, toNat]

theorem toNat_append (a b : Bytes) : toNat (a ++ b) = toNat a * 256 ^ b.length + toNat b := by
  simp only [toNat, List.foldl_append]
  rw [foldl_toNat]
  rfl

theorem toNat_lt (bs : Bytes) : toNat bs < 256 ^ bs.length := by
  induction bs with
  | nil => simp
  | cons b bs ih =>
    rw [toNat_cons, List.length_cons, Nat.pow_succ]
    have hb : b.toNat + 1 ≤ 256 := b.toNat_lt
    have := Nat.mul_le_mul_right (256 ^ bs.length) hb
    rw [Nat.add_mul, Nat.one_mul, Nat.mul_comm 256] at this
    omega

/-! ### Digits -/

/-- The last `w` base-256 digits of `n`, most significant first. -/
def ofNat : Nat → Nat → Bytes
  | 0, _ => []
  | w + 1, n => ofNat w (n / 256) ++ [UInt8.ofNat n]

@[simp] theorem length_ofNat (w n : Nat) : (ofNat w n).length = w := by
  induction w generalizing n with
  | zero => rfl
  | succ w ih => simp only [ofNat, List.length_append, ih, List.length_singleton]

theorem toNat_ofNat (w n : Nat) : toNat (ofNat w n) = n % 256 ^ w := by
  induction w generalizing n with
  | zero => simp [ofNat, Nat.mod_one]
  | succ w ih =>
    have h : toNat [UInt8.ofNat n] = n % 256 := by simp [toNat]
    rw [ofNat, toNat_append, ih, h, Nat.pow_succ, Nat.mul_comm (256 ^ w), Nat.mod_mul]
    simp only [List.length_singleton, Nat.pow_one]
    omega

theorem toNat_ofNat_of_lt (h : n < 256 ^ w) : toNat (ofNat w n) = n := by
  rw [toNat_ofNat, Nat.mod_eq_of_lt h]

theorem toNat_inj (hl : a.length = b.length) (h : toNat a = toNat b) : a = b := by
  induction a generalizing b with
  | nil => simpa [eq_comm] using hl
  | cons x a ih =>
    cases b with
    | nil => simp at hl
    | cons y b =>
      have hl' : a.length = b.length := by simpa using hl
      rw [toNat_cons, toNat_cons, hl'] at h
      have ha := toNat_lt a
      have hb := toNat_lt b
      rw [hl'] at ha
      have hx : (x.toNat * 256 ^ b.length + toNat a) / 256 ^ b.length = x.toNat := by
        rw [Nat.mul_comm, Nat.mul_add_div (by omega), Nat.div_eq_of_lt ha, Nat.add_zero]
      have hy : (y.toNat * 256 ^ b.length + toNat b) / 256 ^ b.length = y.toNat := by
        rw [Nat.mul_comm, Nat.mul_add_div (by omega), Nat.div_eq_of_lt hb, Nat.add_zero]
      have hxy : x = y := UInt8.toNat_inj.1 (by rw [← hx, ← hy, h])
      subst hxy
      rw [ih hl' (by omega)]

theorem ofNat_toNat (bs : Bytes) : ofNat bs.length (toNat bs) = bs :=
  toNat_inj (length_ofNat _ _) (by rw [toNat_ofNat_of_lt (toNat_lt bs)])

/-- The shortest big-endian form: no leading zero byte, and nothing at all for zero. -/
def ofNatTrim (n : Nat) : Bytes :=
  (ofNat (n.log2 / 8 + 1) n).dropWhile (· == 0)

/-! ### Text and padding -/

/-- The UTF-8 form of a text. -/
def ofString (s : String) : Bytes :=
  s.toList.flatMap String.utf8EncodeChar

/-- Extends or cuts on the right to exactly `n` bytes; the filling is zero. -/
def fit (n : Nat) (bs : Bytes) : Bytes :=
  let head := bs.take n
  head ++ List.replicate (n - head.length) 0

@[simp] theorem length_fit (n : Nat) (bs : Bytes) : (fit n bs).length = n := by
  simp only [fit, List.length_append, List.length_take, List.length_replicate]
  omega

theorem fit_of_length_eq {n : Nat} {bs : Bytes} (h : bs.length = n) : fit n bs = bs := by
  simp [fit, ← h]

end Bytes

end Interchain
