import Interchain.Proofs.Curve.Encoding
import Interchain.Proofs.TwoValidators
import Interchain.Signing.Keys

/-!
# Keys stand for points of the subgroup

Each way to a key leads to the canonical encoding of a point of the subgroup: reading one, deriving one from a
secret key, and adding keys up. Such a key is read back from its own bytes, unless it is infinity, which only an
aggregate can be.

* `PublicKey.StandsFor`: the point of the subgroup that a key encodes.
* `PublicKey.Produced`: the keys that can be had, closed under aggregates of aggregates.
* `PublicKey.standsFor_aggregate`, `SecretKey.publicKey_standsFor`: the sum of points, and the multiple of the base
  point.
* `PublicKey.Produced.encodes_valid`: all of these keys.
* `PublicKey.aggregate_negativeKey_refused`: a key and its negative add up to infinity, which is not accepted as a
  key.

The group is that of the elliptic curve itself, so nothing is assumed of the points.
-/

namespace Interchain

/-! ### Keys and points -/

namespace PublicKey

variable {k : PublicKey} {P : G1.Group} {p : G1} {e : FixedBytes 48}

/-- The key encodes this point, which lies in the subgroup. -/
structure StandsFor (k : PublicKey) (P : G1.Group) : Prop where
  exists_point : ∃ p, k.point = .ok p ∧ G1.Denotes p P
  annihilated : groupOrder • P = 0

theorem validPoint_of_point (h : k.point = .ok p) :
    k.validPoint =
      if p = .infinity then .error .isInfinity
      else if p.inSubgroup = true then .ok p else .error .notInSubgroup := by
  rw [validPoint, h, Steps.ok_bind]
  by_cases hinfinity : p = .infinity
  · rw [if_pos hinfinity, if_pos hinfinity]
    rfl
  · cases hsubgroup : p.inSubgroup <;> simp [hinfinity, throw, throwThe, MonadExceptOf.throw, pure, Except.pure]

theorem point_of_validPoint (h : k.validPoint = .ok p) :
    k.point = .ok p ∧ p ≠ .infinity ∧ p.inSubgroup = true := by
  cases hpoint : k.point with
  | error cause =>
    rw [validPoint, hpoint] at h
    cases h
  | ok q =>
    rw [validPoint_of_point hpoint] at h
    split at h
    · cases h
    · next hinfinity =>
      split at h
      · next hsubgroup =>
        cases h
        exact ⟨rfl, hinfinity, hsubgroup⟩
      · cases h

/-- A key that is read stands for a point other than infinity. -/
theorem standsFor_of_ofBytes (h : ofBytes e = .ok k) : ∃ P, P ≠ 0 ∧ k.StandsFor P := by
  obtain ⟨-, p, hvalid⟩ := ofBytes_eq_ok_iff.1 h
  obtain ⟨hpoint, hinfinity, hsubgroup⟩ := point_of_validPoint hvalid
  obtain ⟨P, hP⟩ := G1.denotes_decode hpoint
  exact ⟨P, mt hP.eq_infinity_iff.2 hinfinity, ⟨p, hpoint, hP⟩, hP.inSubgroup_iff.1 hsubgroup⟩

theorem standsFor_of_ofSlice {bs : Bytes} (h : ofSlice bs = .ok k) : ∃ P, P ≠ 0 ∧ k.StandsFor P := by
  unfold ofSlice at h
  split at h
  · exact standsFor_of_ofBytes h
  · cases h

theorem standsFor_of_ofHex {text : String} (h : ofHex text = .ok k) : ∃ P, P ≠ 0 ∧ k.StandsFor P := by
  unfold ofHex at h
  split at h
  · exact standsFor_of_ofSlice h
  · cases h

theorem StandsFor.encoding_eq_infinity_iff (h : k.StandsFor P) : k.encoding = infinityEncoding 48 ↔ P = 0 := by
  obtain ⟨⟨p, hpoint, hP⟩, -⟩ := h
  rw [← G1.decode_eq_infinity_iff, ← hP.eq_infinity_iff]
  exact ⟨fun hinfinity => Except.ok.inj (hpoint.symm.trans hinfinity), fun hp => hp ▸ hpoint⟩

/-- A key has the canonical encoding of its point. -/
theorem StandsFor.exists_encode (h : k.StandsFor P) :
    ∃ p, k.point = .ok p ∧ G1.encode p = k.encoding ∧ G1.Denotes p P := by
  obtain ⟨⟨p, hpoint, hP⟩, hannihilated⟩ := h
  exact ⟨p, hpoint, G1.encode_decode hpoint (hP.ne_affine_zero hannihilated), hP⟩

/-- Only infinity is not accepted again. -/
theorem StandsFor.ofBytes_encoding (h : k.StandsFor P) :
    ofBytes k.encoding =
      if k.encoding = infinityEncoding 48 then .error (.invalidPublicKey .isInfinity) else .ok k := by
  have hzero := h.encoding_eq_infinity_iff
  obtain ⟨⟨p, hpoint, hP⟩, hannihilated⟩ := h
  have hvalid := validPoint_of_point hpoint
  rw [if_pos (hP.inSubgroup_iff.2 hannihilated)] at hvalid
  by_cases hk : k.encoding = infinityEncoding 48
  · rw [if_pos (hP.eq_infinity_iff.2 (hzero.1 hk))] at hvalid
    simp only [ofBytes, hvalid, if_pos hk]
  · rw [if_neg (mt hP.eq_infinity_iff.1 (mt hzero.2 hk))] at hvalid
    simp only [ofBytes, hvalid, if_neg hk]

theorem standsFor_encode {p : G1} (hp : G1.Denotes p P) (hP : groupOrder • P = 0) :
    StandsFor ⟨G1.encode p⟩ P :=
  ⟨⟨p, G1.decode_encode hp, hp⟩, hP⟩

theorem exists_standsFor {ks : List PublicKey} (h : ∀ k ∈ ks, ∃ P, k.StandsFor P) :
    ∃ Ps, List.Forall₂ StandsFor ks Ps := by
  induction ks with
  | nil => exact ⟨[], .nil⟩
  | cons k ks ih =>
    obtain ⟨⟨P, hP⟩, hks⟩ := List.forall_mem_cons.1 h
    obtain ⟨Ps, hPs⟩ := ih hks
    exact ⟨P :: Ps, .cons hP hPs⟩

theorem denotes_points {ks : List PublicKey} {Ps : List G1.Group} (h : List.Forall₂ StandsFor ks Ps) :
    List.Forall₂ G1.Denotes (ks.filterMap fun k => k.point.toOption) Ps := by
  induction h with
  | nil => exact .nil
  | cons hk _ ih =>
    obtain ⟨p, hpoint, hP⟩ := hk.exists_point
    rw [List.filterMap_cons_some (by rw [hpoint]; rfl)]
    exact .cons hP ih

theorem annihilated_sum {ks : List PublicKey} {Ps : List G1.Group} (h : List.Forall₂ StandsFor ks Ps) :
    groupOrder • Ps.sum = 0 := by
  induction h with
  | nil => rw [List.sum_nil, nsmul_zero]
  | cons hk _ ih => rw [List.sum_cons, nsmul_add, hk.annihilated, ih, add_zero]

/-- An aggregate stands for the sum of the points. -/
theorem standsFor_aggregate {ks : List PublicKey} {Ps : List G1.Group} (h : List.Forall₂ StandsFor ks Ps)
    (hk : aggregate ks = .ok k) : k.StandsFor Ps.sum := by
  have hsum : ks ≠ [] → k = ⟨G1.encode (Point.sum (ks.filterMap fun k => k.point.toOption))⟩ := by
    intro hne
    cases ks with
    | nil => exact absurd rfl hne
    | cons l ks => exact (Except.ok.inj hk).symm
  have hne : ks ≠ [] := by
    rintro rfl
    cases hk
  rw [hsum hne]
  exact standsFor_encode (.sum (denotes_points h)) (annihilated_sum h)

end PublicKey

/-! ### Keys of secret keys -/

/-- The base point has the order of the subgroup. -/
theorem G1.exists_denotes_generator : ∃ G : G1.Group, G1.Denotes G1.generator G ∧ addOrderOf G = groupOrder := by
  obtain ⟨G, hG⟩ : ∃ G, G1.Denotes G1.generator G := G1.exists_denotes_affine (by decide +kernel)
  have hannihilated : groupOrder • G = 0 := hG.inSubgroup_iff.1 (by decide +kernel)
  have hG0 : G ≠ 0 := mt hG.eq_infinity_iff.2 (by decide)
  have : Fact groupOrder.Prime := ⟨groupOrder_prime⟩
  exact ⟨G, hG, addOrderOf_eq_prime hannihilated hG0⟩

namespace SecretKey

/-- A derived key stands for a point other than infinity. -/
theorem publicKey_standsFor (s : SecretKey) : ∃ P, P ≠ 0 ∧ s.publicKey.StandsFor P := by
  obtain ⟨G, hG, horder⟩ := G1.exists_denotes_generator
  refine ⟨s.scalar • G, fun hzero => ?_, PublicKey.standsFor_encode (hG.scale s.scalar) ?_⟩
  · have hdvd : groupOrder ∣ s.scalar := horder ▸ addOrderOf_dvd_of_nsmul_eq_zero hzero
    exact absurd (Nat.le_of_dvd s.pos hdvd) (Nat.not_le.2 s.lt_order)
  · rw [nsmul_left_comm, ← horder, addOrderOf_nsmul_eq_zero, nsmul_zero]

end SecretKey

/-! ### All ways to a key -/

namespace PublicKey

open TwoValidators (firstKey secondKey)

variable {k : PublicKey}

/-- The keys that are read, derived from secret keys, or put together from such keys. -/
inductive Produced : PublicKey → Prop where
  | ofBytes {k : PublicKey} {e : FixedBytes 48} (h : PublicKey.ofBytes e = .ok k) : Produced k
  | ofSlice {k : PublicKey} {bs : Bytes} (h : PublicKey.ofSlice bs = .ok k) : Produced k
  | ofHex {k : PublicKey} {text : String} (h : PublicKey.ofHex text = .ok k) : Produced k
  | derived (s : SecretKey) : Produced s.publicKey
  | aggregate {k : PublicKey} {ks : List PublicKey} (hks : ∀ l ∈ ks, Produced l)
    (h : PublicKey.aggregate ks = .ok k) : Produced k

/-- Every way leads to a point of the subgroup, and only an aggregate can be infinity. -/
theorem Produced.exists_standsFor (h : k.Produced) :
    ∃ P, k.StandsFor P ∧ (P = 0 → ∃ ks, (∀ l ∈ ks, l.Produced) ∧ PublicKey.aggregate ks = .ok k) := by
  have hsingle : ∀ {l : PublicKey}, (∃ P, P ≠ 0 ∧ l.StandsFor P) →
      ∃ P, l.StandsFor P ∧ (P = 0 → ∃ ks, (∀ l ∈ ks, l.Produced) ∧ PublicKey.aggregate ks = .ok l) :=
    fun ⟨P, hP, hstands⟩ => ⟨P, hstands, fun h0 => absurd h0 hP⟩
  induction h with
  | ofBytes h => exact hsingle (standsFor_of_ofBytes h)
  | ofSlice h => exact hsingle (standsFor_of_ofSlice h)
  | ofHex h => exact hsingle (standsFor_of_ofHex h)
  | derived s => exact hsingle s.publicKey_standsFor
  | @aggregate k ks hks hk ih =>
    obtain ⟨Ps, hPs⟩ := PublicKey.exists_standsFor fun l hl => (ih l hl).imp fun _ hP => hP.1
    exact ⟨Ps.sum, standsFor_aggregate hPs hk, fun _ => ⟨ks, hks, hk⟩⟩

/-- Every key is the canonical encoding of a point of the subgroup, and it is accepted again from its bytes unless it is
infinity, which only an aggregate can be. -/
theorem Produced.encodes_valid (h : k.Produced) :
    (∃ p P, k.point = .ok p ∧ G1.encode p = k.encoding ∧ G1.Denotes p P ∧ groupOrder • P = 0) ∧
      PublicKey.ofBytes k.encoding =
        (if k.encoding = infinityEncoding 48 then .error (.invalidPublicKey .isInfinity) else .ok k) ∧
      (k.encoding = infinityEncoding 48 →
        ∃ ks, (∀ l ∈ ks, l.Produced) ∧ PublicKey.aggregate ks = .ok k) := by
  obtain ⟨P, hstands, hzero⟩ := h.exists_standsFor
  obtain ⟨p, hpoint, hencode, hP⟩ := hstands.exists_encode
  exact ⟨⟨p, P, hpoint, hencode, hP, hstands.annihilated⟩, hstands.ofBytes_encoding,
    fun hk => hzero (hstands.encoding_eq_infinity_iff.1 hk)⟩

/-- The key of the two validators together. -/
def bothKey : PublicKey :=
  ⟨.ofNat 48
    0xaf9c7a267f7990fc590f743837a3b7e5c171128f0127279e8df2886ccfef3439c5d77f4330bb1a9659af3e378d6a161c⟩

theorem produced_firstKey : Produced firstKey := by
  have hread : PublicKey.ofBytes firstKey.encoding = .ok firstKey := by decide +kernel
  exact .ofBytes hread

theorem produced_bothKey : Produced bothKey := by
  have hsecond : PublicKey.ofBytes secondKey.encoding = .ok secondKey := by decide +kernel
  have hboth : PublicKey.aggregate [firstKey, secondKey] = .ok bothKey := by decide +kernel
  refine .aggregate (List.forall_mem_cons.2 ⟨produced_firstKey, ?_⟩) hboth
  exact List.forall_mem_singleton.2 (.ofBytes hsecond)

/-- The two validators' keys make a key that is accepted. -/
theorem encodes_valid_bothKey : Produced bothKey ∧ PublicKey.ofBytes bothKey.encoding = .ok bothKey := by
  obtain ⟨-, hread, -⟩ := produced_bothKey.encodes_valid
  rw [if_neg (by decide)] at hread
  exact ⟨produced_bothKey, hread⟩

/-- The first validator's key with the other sign. -/
def negativeKey : PublicKey :=
  ⟨.ofNat 48
    0xb5a254501b7733239ed3cec4d56737977bd09ede881d8a234560e83e5525017add3b1dcc3eabfb85e12a4131b19c253b⟩

/-- Not every key is accepted again: a key and its negative are accepted and add up to infinity, which is not. -/
theorem aggregate_negativeKey_refused :
    Produced ⟨infinityEncoding 48⟩ ∧
      PublicKey.ofBytes (infinityEncoding 48) = .error (.invalidPublicKey .isInfinity) ∧
      ¬ ∀ k : PublicKey, k.Produced → PublicKey.ofBytes k.encoding = .ok k := by
  have hnegative : PublicKey.ofBytes negativeKey.encoding = .ok negativeKey := by decide +kernel
  have hinfinity : PublicKey.aggregate [firstKey, negativeKey] = .ok ⟨infinityEncoding 48⟩ := by decide +kernel
  have hrefused : PublicKey.ofBytes (infinityEncoding 48) = .error (.invalidPublicKey .isInfinity) := by
    decide +kernel
  have hproduced : Produced ⟨infinityEncoding 48⟩ := by
    refine .aggregate (List.forall_mem_cons.2 ⟨produced_firstKey, ?_⟩) hinfinity
    exact List.forall_mem_singleton.2 (.ofBytes hnegative)
  refine ⟨hproduced, hrefused, fun h => ?_⟩
  have hread := h _ hproduced
  rw [hrefused] at hread
  cases hread

end PublicKey

end Interchain
