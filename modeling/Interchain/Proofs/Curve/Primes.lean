import Interchain.Curve.Group
import Interchain.Proofs.Curve.Powers
import Mathlib.Data.List.Prime
import Mathlib.NumberTheory.LucasPrimality

/-!
# The two primes of the curve

The base field and the subgroups have prime order. Both numbers are certified after Lucas: a number is prime if some
base has order `p - 1` modulo `p`, which is tested at the prime factors of `p - 1`; these are certified before it,
down to two.

`primeSteps` is the certificate, and the kernel checks it by calculation. Its factors need not be searched for
again, but have to be complete: `PrimeStep.Holds` multiplies them out.
-/

namespace Interchain

/-! ### Powers modulo a number -/

def powMod (m a k : Nat) : Nat :=
  (binaryDigits k).foldl (fun acc bit => if bit then acc * acc % m * a % m else acc * acc % m) 1

theorem powMod_modEq (m a k : Nat) : powMod m a k ≡ a ^ k [MOD m] := by
  refine foldl_binaryDigits (R := fun n acc => acc ≡ a ^ n [MOD m]) (by rw [pow_zero]) (fun n acc bit hacc => ?_) k
  have hsquare : acc * acc % m ≡ a ^ (2 * n) [MOD m] := by
    rw [Nat.two_mul, pow_add]
    exact (Nat.mod_modEq _ _).trans (hacc.mul hacc)
  cases bit with
  | false => exact hsquare
  | true =>
    rw [if_pos rfl, Bool.toNat_true, pow_succ]
    exact (Nat.mod_modEq _ _).trans (hsquare.mul_right a)

/-! ### Certificates -/

/-- A number with a base for Lucas' test, and the prime factors of its predecessor with their exponents. -/
structure PrimeStep where
  p : Nat
  base : Nat
  factors : List (Nat × Nat)

namespace PrimeStep

/-- The factors are known and complete, and only the full power of the base is one. -/
def Holds (known : List Nat) (s : PrimeStep) : Prop :=
  (∀ f ∈ s.factors, f.1 ∈ known) ∧
    (s.factors.map fun f => f.1 ^ f.2).prod + 1 = s.p ∧
    powMod s.p s.base (s.p - 1) ≡ 1 [MOD s.p] ∧
    ∀ f ∈ s.factors, ¬ powMod s.p s.base ((s.p - 1) / f.1) ≡ 1 [MOD s.p]

instance (known : List Nat) (s : PrimeStep) : Decidable (s.Holds known) :=
  inferInstanceAs (Decidable (_ ∧ _ ∧ _ ∧ _))

theorem cast_pow_eq_one_iff {s : PrimeStep} {k : Nat} :
    ((s.base : ZMod s.p) ^ k = 1) ↔ powMod s.p s.base k ≡ 1 [MOD s.p] := by
  rw [← Nat.cast_pow, ← Nat.cast_one, ZMod.natCast_eq_natCast_iff]
  exact ⟨(powMod_modEq _ _ _).trans, (powMod_modEq _ _ _).symm.trans⟩

theorem prime {known : List Nat} {s : PrimeStep} (hknown : ∀ q ∈ known, q.Prime) (h : s.Holds known) :
    s.p.Prime := by
  obtain ⟨hfactors, hprod, hfull, hparts⟩ := h
  refine lucas_primality s.p (s.base : ZMod s.p) (cast_pow_eq_one_iff.2 hfull) fun q hq hdvd => ?_
  have hpred : s.p - 1 = (s.factors.map fun f => f.1 ^ f.2).prod := by omega
  rw [hpred] at hdvd
  obtain ⟨x, hx, hqx⟩ := (Prime.dvd_prod_iff hq.prime).1 hdvd
  obtain ⟨f, hf, rfl⟩ := List.mem_map.1 hx
  have hqf : q = f.1 := (Nat.prime_dvd_prime_iff_eq hq (hknown _ (hfactors f hf))).1 (hq.dvd_of_dvd_pow hqx)
  rw [hqf, Ne, cast_pow_eq_one_iff]
  exact hparts f hf

/-- Every step holds by the numbers before it. -/
def AllHold : List Nat → List PrimeStep → Prop
  | _, [] => True
  | known, s :: ss => s.Holds known ∧ AllHold (s.p :: known) ss

instance decidableAllHold : ∀ known ss, Decidable (AllHold known ss)
  | _, [] => inferInstanceAs (Decidable True)
  | known, s :: ss =>
    have := decidableAllHold (s.p :: known) ss
    inferInstanceAs (Decidable (s.Holds known ∧ AllHold (s.p :: known) ss))

theorem AllHold.prime {known : List Nat} {ss : List PrimeStep} (hknown : ∀ q ∈ known, q.Prime)
    (h : AllHold known ss) : ∀ s ∈ ss, s.p.Prime := by
  induction ss generalizing known with
  | nil => exact List.forall_mem_nil _
  | cons s ss ih =>
    have hs : s.p.Prime := s.prime hknown h.1
    exact List.forall_mem_cons.2 ⟨hs, ih (List.forall_mem_cons.2 ⟨hs, hknown⟩) h.2⟩

end PrimeStep

/-! ### The primes of the curve -/

/-- The two primes, each behind what its predecessor is made of. -/
def primeSteps : List PrimeStep :=
  [⟨3, 2, [(2, 1)]⟩, ⟨5, 2, [(2, 2)]⟩, ⟨11, 2, [(2, 1), (5, 1)]⟩, ⟨23, 5, [(2, 1), (11, 1)]⟩,
    ⟨47, 5, [(2, 1), (23, 1)]⟩, ⟨13, 2, [(2, 2), (3, 1)]⟩, ⟨53, 2, [(2, 2), (13, 1)]⟩,
    ⟨10177, 7, [(2, 6), (3, 1), (53, 1)]⟩, ⟨17, 3, [(2, 4)]⟩, ⟨47737, 5, [(2, 3), (3, 3), (13, 1), (17, 1)]⟩,
    ⟨859267, 2, [(2, 1), (3, 2), (47737, 1)]⟩, ⟨7, 3, [(2, 1), (3, 1)]⟩, ⟨43, 3, [(2, 1), (3, 1), (7, 1)]⟩,
    ⟨97, 5, [(2, 5), (3, 1)]⟩, ⟨449, 3, [(2, 6), (7, 1)]⟩, ⟨609743, 5, [(2, 1), (7, 1), (97, 1), (449, 1)]⟩,
    ⟨52437899, 2, [(2, 1), (43, 1), (609743, 1)]⟩, ⟨89, 3, [(2, 3), (11, 1)]⟩, ⟨941, 2, [(2, 2), (5, 1), (47, 1)]⟩,
    ⟨947, 2, [(2, 1), (11, 1), (43, 1)]⟩, ⟨7577, 3, [(2, 3), (947, 1)]⟩, ⟨67, 2, [(2, 1), (3, 1), (11, 1)]⟩,
    ⟨181, 2, [(2, 2), (3, 2), (5, 1)]⟩, ⟨1087, 3, [(2, 1), (3, 1), (181, 1)]⟩, ⟨4349, 2, [(2, 2), (1087, 1)]⟩,
    ⟨582767, 5, [(2, 1), (67, 1), (4349, 1)]⟩,
    ⟨9272813673901, 2, [(2, 2), (3, 1), (5, 2), (7, 1), (7577, 1), (582767, 1)]⟩,
    ⟨1928745244171409, 3, [(2, 4), (13, 1), (9272813673901, 1)]⟩,
    ⟨7259797099061183477, 2, [(2, 2), (941, 1), (1928745244171409, 1)]⟩,
    ⟨2584487767265781317813, 2, [(2, 2), (89, 1), (7259797099061183477, 1)]⟩, ⟨19, 2, [(2, 1), (3, 2)]⟩,
    ⟨191, 19, [(2, 1), (5, 1), (19, 1)]⟩, ⟨1686913, 10, [(2, 7), (3, 1), (23, 1), (191, 1)]⟩,
    ⟨475709467, 2, [(2, 1), (3, 1), (47, 1), (1686913, 1)]⟩, ⟨31, 3, [(2, 1), (3, 1), (5, 1)]⟩,
    ⟨29, 2, [(2, 2), (7, 1)]⟩, ⟨233, 3, [(2, 3), (29, 1)]⟩, ⟨467, 2, [(2, 1), (233, 1)]⟩, ⟨137, 3, [(2, 3), (17, 1)]⟩,
    ⟨2741, 2, [(2, 2), (5, 1), (137, 1)]⟩, ⟨16447, 3, [(2, 1), (3, 1), (2741, 1)]⟩,
    ⟨409, 21, [(2, 3), (3, 1), (17, 1)]⟩, ⟨1453, 2, [(2, 2), (3, 1), (11, 2)]⟩,
    ⟨43591, 11, [(2, 1), (3, 1), (5, 1), (1453, 1)]⟩, ⟨927093389, 3, [(2, 2), (13, 1), (409, 1), (43591, 1)]⟩,
    ⟨64881703735777, 5, [(2, 5), (3, 7), (927093389, 1)]⟩,
    ⟨92691255082156974996979, 3, [(2, 1), (3, 1), (31, 1), (467, 1), (16447, 1), (64881703735777, 1)]⟩,
    ⟨281, 3, [(2, 3), (5, 1), (7, 1)]⟩, ⟨3373, 5, [(2, 2), (3, 1), (281, 1)]⟩, ⟨151, 6, [(2, 1), (3, 1), (5, 2)]⟩,
    ⟨8101, 6, [(2, 2), (3, 4), (5, 2)]⟩, ⟨51376543, 3, [(2, 1), (3, 1), (7, 1), (151, 1), (8101, 1)]⟩,
    ⟨43670061551, 7, [(2, 1), (5, 2), (17, 1), (51376543, 1)]⟩, ⟨113, 3, [(2, 4), (7, 1)]⟩, ⟨41, 6, [(2, 3), (5, 1)]⟩,
    ⟨1151, 17, [(2, 1), (5, 2), (23, 1)]⟩, ⟨755057, 3, [(2, 4), (41, 1), (1151, 1)]⟩,
    ⟨1327, 3, [(2, 1), (3, 1), (13, 1), (17, 1)]⟩, ⟨421987, 2, [(2, 1), (3, 1), (53, 1), (1327, 1)]⟩,
    ⟨13090036741, 10, [(2, 2), (3, 1), (5, 1), (11, 1), (47, 1), (421987, 1)]⟩,
    ⟨3819663927398918131021, 6, [(2, 2), (3, 2), (5, 1), (19, 1), (113, 1), (755057, 1), (13090036741, 1)]⟩,
    ⟨1125266252156850182658904441386709967, 5, [(2, 1), (3373, 1), (43670061551, 1), (3819663927398918131021, 1)]⟩,
    ⟨15778400344354997994418419698270088123916926905054652752758194827714659, 2, [(2, 1), (3, 1), (53, 1),
      (475709467, 1), (92691255082156974996979, 1), (1125266252156850182658904441386709967, 1)]⟩,
    ⟨fieldPrime, 2, [(2, 1), (3, 2), (11, 1), (23, 1), (47, 1), (10177, 1), (859267, 1), (52437899, 1),
      (2584487767265781317813, 1), (15778400344354997994418419698270088123916926905054652752758194827714659, 1)]⟩,
    ⟨523, 2, [(2, 1), (3, 2), (29, 1)]⟩, ⟨20921, 3, [(2, 3), (5, 1), (523, 1)]⟩,
    ⟨125527, 5, [(2, 1), (3, 1), (20921, 1)]⟩, ⟨73, 5, [(2, 3), (3, 2)]⟩, ⟨1607, 5, [(2, 1), (11, 1), (73, 1)]⟩,
    ⟨906349, 2, [(2, 2), (3, 1), (47, 1), (1607, 1)]⟩, ⟨79, 3, [(2, 1), (3, 1), (13, 1)]⟩,
    ⟨2508409, 11, [(2, 3), (3, 4), (7, 2), (79, 1)]⟩, ⟨18329, 3, [(2, 3), (29, 1), (79, 1)]⟩,
    ⟨2529403, 2, [(2, 1), (3, 1), (23, 1), (18329, 1)]⟩, ⟨179, 2, [(2, 1), (89, 1)]⟩, ⟨359, 7, [(2, 1), (179, 1)]⟩,
    ⟨110573, 3, [(2, 2), (7, 1), (11, 1), (359, 1)]⟩, ⟨2653753, 5, [(2, 3), (3, 1), (110573, 1)]⟩,
    ⟨63690073, 7, [(2, 3), (3, 1), (2653753, 1)]⟩, ⟨254760293, 2, [(2, 2), (63690073, 1)]⟩,
    ⟨groupOrder, 7, [(2, 32), (3, 1), (11, 1), (19, 1), (10177, 1), (125527, 1), (859267, 1), (906349, 2),
      (2508409, 1), (2529403, 1), (52437899, 1), (254760293, 2)]⟩]

theorem primeSteps_prime : ∀ s ∈ primeSteps, s.p.Prime := by
  have hall : PrimeStep.AllHold [2] primeSteps := by decide +kernel
  exact hall.prime (List.forall_mem_singleton.2 Nat.prime_two)

theorem fieldPrime_prime : fieldPrime.Prime := by
  have hmem : fieldPrime ∈ primeSteps.map PrimeStep.p := by decide +kernel
  obtain ⟨s, hs, hp⟩ := List.mem_map.1 hmem
  exact hp ▸ primeSteps_prime s hs

theorem groupOrder_prime : groupOrder.Prime := by
  have hmem : groupOrder ∈ primeSteps.map PrimeStep.p := by decide +kernel
  obtain ⟨s, hs, hp⟩ := List.mem_map.1 hmem
  exact hp ▸ primeSteps_prime s hs

end Interchain
