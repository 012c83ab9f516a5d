import Interchain.Proofs.Abi.Offsets

/-!
# Reading written call data

Call data that was written is read again. Each lemma takes the data apart at an offset: what stands before it, what
is read, and what follows, so that data of any layout can be matched against it. `Abi.wordAt?_of_words` and
`Abi.bytesAt?_of_words` are the layouts in use, words at the front and a byte string behind them.

The offsets have to fit in 64 bits, which is a hypothesis of each lemma; data in memory always meets it.
-/

namespace Interchain.Abi

variable {data bs : Bytes} {offset : UInt64} (pre : Bytes) (n : Nat) (mid post : Bytes)

theorem wordAt?_of_append {w : Hash32} (h : data = pre ++ w.bytes ++ post)
    (hoffset : offset.toNat = pre.length) (hfit : pre.length + 32 < 2 ^ 64) :
    wordAt? data offset = some w := by
  rw [wordAt?_eq_some_iff, hoffset, h]
  refine ⟨hfit, ?_, ?_⟩
  · rw [List.length_append, List.length_append, w.length_bytes]
    omega
  · rw [List.append_assoc, List.drop_left, List.take_left' w.length_bytes]

/-- One of the words at the front of the data. -/
theorem wordAt?_of_words (ws : List Hash32) {w : Hash32} {k : Nat}
    (h : data = ws.flatMap (·.bytes) ++ post) (hk : ws[k]? = some w) (hoffset : offset.toNat = 32 * k)
    (hfit : 32 * ws.length < 2 ^ 64) : wordAt? data offset = some w := by
  obtain ⟨hlt, hget⟩ := List.getElem?_eq_some_iff.1 hk
  have hws : ws = ws.take k ++ w :: ws.drop (k + 1) := by
    rw [← hget, ← List.drop_eq_getElem_cons hlt, List.take_append_drop]
  have htake : ((ws.take k).flatMap (·.bytes)).length = 32 * k := by
    rw [FixedBytes.length_flatMap_bytes, List.length_take, Nat.min_eq_left (Nat.le_of_lt hlt)]
  refine wordAt?_of_append ((ws.take k).flatMap (·.bytes))
    ((ws.drop (k + 1)).flatMap (·.bytes) ++ post) ?_ ?_ ?_
  · rw [h]
    conv => lhs; rw [hws]
    simp only [List.flatMap_append, List.flatMap_cons, List.append_assoc]
  · rw [hoffset, htake]
  · rw [htake]
    omega

theorem numberAt?_of_append (h : data = pre ++ ofNat n ++ post) (hoffset : offset.toNat = pre.length)
    (hfit : pre.length + 32 < 2 ^ 64) : numberAt? data offset = some (BitVec.ofNat 256 n) := by
  have hword : (FixedBytes.ofNat 32 n).bytes = ofNat n := rfl
  have hvalue : Hash32.toWord (.ofNat 32 n) = BitVec.ofNat 256 n := by
    have hmod : (FixedBytes.ofNat 32 n).toNat = n % 2 ^ 256 := Bytes.toNat_ofNat 32 n
    rw [Hash32.toWord, hmod]
    exact BitVec.eq_of_toNat_eq (by rw [BitVec.toNat_ofNat, BitVec.toNat_ofNat, Nat.mod_mod])
  rw [numberAt?, wordAt?_of_append pre post (w := .ofNat 32 n) (by rw [hword, h]) hoffset hfit, Option.map_some,
    hvalue]

theorem offsetAt?_of_append (h : data = pre ++ ofNat n ++ post) (hoffset : offset.toNat = pre.length)
    (hfit : pre.length + 32 < 2 ^ 64) (hn : n < 2 ^ 64) : offsetAt? data offset = some (.ofNat n) := by
  rw [offsetAt?_eq_some_iff, hoffset, UInt64.toNat_ofNat_of_lt' hn, h]
  exact ⟨hfit, hasWord_of_append pre post (Nat.lt_trans hn (by decide))⟩

/-- A byte string is read from the place to which its own word points. -/
theorem bytesAt?_of_append (head : Nat) (h : data = pre ++ ofNat head ++ mid ++ bytesTail bs ++ post)
    (hoffset : offset.toNat = pre.length) (hhead : head = pre.length + 32 + mid.length)
    (hfit : head + 32 + bs.length < 2 ^ 64) : bytesAt? data offset = some bs := by
  have hsmall : ∀ n < 2 ^ 64, n < 2 ^ 256 := fun n hn => Nat.lt_trans hn (by decide)
  have hbefore : (pre ++ ofNat head ++ mid).length = head := by
    rw [List.length_append, List.length_append, length_ofNat, hhead]
  have hpointer : HasWord data pre.length head := by
    have hword := hasWord_of_append pre (mid ++ bytesTail bs ++ post) (hsmall head (by omega))
    simpa only [h, List.append_assoc] using hword
  obtain ⟨hlength, hdata, hbs⟩ := hasWord_bytesTail (pre ++ ofNat head ++ mid) bs post (hsmall _ (by omega))
  rw [hbefore, ← h] at hlength hdata hbs
  exact bytesAt?_eq_some_iff.2 ⟨head, bs.length, by omega, hfit, hoffset ▸ hpointer, hlength, hdata, hbs⟩

/-- A byte string behind several words and its own word. -/
theorem bytesAt?_of_words (ws : List Hash32) (head : Nat)
    (h : data = ws.flatMap (·.bytes) ++ ofNat head ++ bytesTail bs) (hhead : head = 32 * (ws.length + 1))
    (hoffset : offset.toNat = 32 * ws.length) (hfit : head + 32 + bs.length < 2 ^ 64) :
    bytesAt? data offset = some bs := by
  have hwords := FixedBytes.length_flatMap_bytes ws
  refine bytesAt?_of_append (ws.flatMap (·.bytes)) [] [] head ?_ ?_ ?_ hfit
  · rw [h, List.append_nil, List.append_nil]
  · rw [hoffset, hwords]
  · rw [hhead, hwords, List.length_nil]
    omega

end Interchain.Abi
