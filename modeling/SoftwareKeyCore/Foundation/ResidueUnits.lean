import Mathlib

/-!
# Units modulo a number, prime by prime

The units modulo a number are the products of units modulo its prime powers (`unitComponents`).
`ncard_pow_ne_one` counts the units whose power is one modulo no prime factor, for an exponent that
has nothing to do with the number: each prime power contributes a factor. So there is such a unit
unless `p - 1` divides the exponent for some prime factor `p`
(`exists_pow_ne_one_iff`).
-/

set_option autoImplicit false
set_option relaxedAutoImplicit false

namespace SoftwareKeyCore.ResidueUnits

variable {n : ℕ}

/-- The residues of a unit modulo the prime powers of the modulus. -/
noncomputable def unitComponents (hn : n ≠ 0) :
    (ZMod n)ˣ ≃* ∀ p : n.primeFactors, (ZMod ((p : ℕ) ^ n.factorization p))ˣ :=
  (Units.mapEquiv (ZMod.equivPi n hn).toMulEquiv).trans MulEquiv.piUnits

theorem unitComponents_neg_one (hn : n ≠ 0) : unitComponents hn (-1) = -1 := by
  funext p
  apply Units.ext
  change ZMod.equivPi n hn (-1) p = -1
  rw [map_neg, map_one, Pi.neg_apply, Pi.one_apply]

theorem card_units [NeZero n] : Nat.card (ZMod n)ˣ = n.totient := by
  rw [Nat.card_eq_fintype_card, ZMod.card_units_eq_totient]

/-! ### Powers modulo one prime -/

section

variable {p : ℕ} (hp : p.Prime) {k : ℕ} (hk : k ≠ 0) (exponent : ℕ)

/-- The power of the residue modulo the prime of a prime power. -/
def powResidue : (ZMod (p ^ k))ˣ →* (ZMod p)ˣ :=
  (powMonoidHom exponent).comp (ZMod.unitsMap (dvd_pow_self p hk))

theorem powResidue_apply (unit : (ZMod (p ^ k))ˣ) :
    powResidue hk exponent unit = ZMod.unitsMap (dvd_pow_self p hk) unit ^ exponent :=
  rfl

include hp

/-- The units of a prime power whose power is one modulo the prime. -/
theorem card_ker_powResidue :
    Nat.card (powResidue hk exponent : (ZMod (p ^ k))ˣ →* (ZMod p)ˣ).ker =
      p ^ (k - 1) * (p - 1).gcd exponent := by
  have : NeZero p := ⟨hp.ne_zero⟩
  have : NeZero (p ^ k) := ⟨(pow_pos hp.pos k).ne'⟩
  have : IsCyclic (ZMod p)ˣ := ZMod.isCyclic_units_prime hp
  have hcard : Nat.card (ZMod p)ˣ = p - 1 := by
    rw [card_units, Nat.totient_prime hp]
  have hrange : (powResidue hk exponent : (ZMod (p ^ k))ˣ →* (ZMod p)ˣ).range =
      (powMonoidHom exponent).range := by
    rw [powResidue, MonoidHom.range_comp,
      MonoidHom.range_eq_top.mpr (ZMod.unitsMap_surjective (dvd_pow_self p hk)),
      ← MonoidHom.range_eq_map]
  have hproduct := (powResidue hk exponent : (ZMod (p ^ k))ˣ →* (ZMod p)ˣ).ker.card_mul_index
  rw [Subgroup.index_ker, hrange, IsCyclic.card_powMonoidHom_range, hcard, card_units,
    Nat.totient_prime_pow hp (Nat.pos_of_ne_zero hk)] at hproduct
  have hone := hp.one_lt
  have hpositive : 0 < (p - 1).gcd exponent := Nat.gcd_pos_of_pos_left _ (by omega)
  have hquotient : 0 < (p - 1) / (p - 1).gcd exponent :=
    Nat.div_pos (Nat.le_of_dvd (by omega) (Nat.gcd_dvd_left _ _)) hpositive
  apply Nat.eq_of_mul_eq_mul_right hquotient
  rw [hproduct, mul_assoc, Nat.mul_div_cancel' (Nat.gcd_dvd_left _ _)]

/-- The units of a prime power whose power is another residue modulo the prime. -/
theorem card_powResidue_ne_one :
    Nat.card {unit : (ZMod (p ^ k))ˣ // powResidue hk exponent unit ≠ 1} =
      p ^ (k - 1) * (p - 1 - (p - 1).gcd exponent) := by
  have : NeZero (p ^ k) := ⟨(pow_pos hp.pos k).ne'⟩
  have hcount := Set.ncard_add_ncard_compl
    ((powResidue hk exponent : (ZMod (p ^ k))ˣ →* (ZMod p)ˣ).ker : Set (ZMod (p ^ k))ˣ)
  rw [← Nat.card_coe_set_eq, SetLike.coe_sort_coe, card_ker_powResidue hp hk exponent, card_units,
    Nat.totient_prime_pow hp (Nat.pos_of_ne_zero hk)] at hcount
  have hcompl : Nat.card {unit : (ZMod (p ^ k))ˣ // powResidue hk exponent unit ≠ 1} =
      ((powResidue hk exponent : (ZMod (p ^ k))ˣ →* (ZMod p)ˣ).ker : Set (ZMod (p ^ k))ˣ)ᶜ.ncard :=
    Nat.card_coe_set_eq _
  rw [hcompl, Nat.mul_sub]
  omega

end

/-! ### Powers modulo every prime factor -/

section

variable (hn : n ≠ 0) (exponent : ℕ)

/-- The exponent of a prime factor is positive. -/
theorem factorization_ne_zero (p : n.primeFactors) : n.factorization p ≠ 0 :=
  Finsupp.mem_support_iff.mp (by rw [Nat.support_factorization]; exact p.2)

/-- The residue of a unit modulo a prime factor is the residue of its component. -/
theorem powResidue_unitComponents (p : n.primeFactors) (unit : (ZMod n)ˣ) :
    powResidue (factorization_ne_zero p) exponent (unitComponents hn unit p) =
      ZMod.unitsMap (Nat.dvd_of_mem_primeFactors p.2) unit ^ exponent := by
  have hmaps : (ZMod.castHom (dvd_pow_self (p : ℕ) (factorization_ne_zero p)) (ZMod p)).comp
      ((Pi.evalRingHom _ p).comp (ZMod.equivPi n hn).toRingHom) =
        ZMod.castHom (Nat.dvd_of_mem_primeFactors p.2) (ZMod p) := Subsingleton.elim _ _
  rw [powResidue_apply]
  congr 1
  apply Units.ext
  exact RingHom.congr_fun hmaps (unit : ZMod n)

include hn in
/-- How many units have a power other than one modulo every prime factor. -/
theorem ncard_pow_ne_one :
    {unit : (ZMod n)ˣ | ∀ p : n.primeFactors,
      ZMod.unitsMap (Nat.dvd_of_mem_primeFactors p.2) unit ^ exponent ≠ 1}.ncard =
      ∏ p ∈ n.primeFactors, p ^ (n.factorization p - 1) * (p - 1 - (p - 1).gcd exponent) := by
  have hcomponents : {unit : (ZMod n)ˣ // ∀ p : n.primeFactors,
      ZMod.unitsMap (Nat.dvd_of_mem_primeFactors p.2) unit ^ exponent ≠ 1} ≃
      ∀ p : n.primeFactors, {unit : (ZMod ((p : ℕ) ^ n.factorization p))ˣ //
        powResidue (factorization_ne_zero p) exponent unit ≠ 1} :=
    ((unitComponents hn).toEquiv.subtypeEquiv fun unit ↦ forall_congr' fun p ↦ by
      rw [← powResidue_unitComponents hn exponent p unit]
      rfl).trans (Equiv.subtypePiEquivPi)
  rw [← Nat.card_coe_set_eq]
  refine (Nat.card_congr hcomponents).trans ?_
  rw [Nat.card_pi, ← Finset.prod_coe_sort n.primeFactors]
  exact Finset.prod_congr rfl fun p _ ↦
    card_powResidue_ne_one (Nat.prime_of_mem_primeFactors p.2) _ _

include hn in
/-- A unit has a power other than one modulo every prime factor, unless `p - 1` divides the exponent
for one of them. -/
theorem exists_pow_ne_one_iff :
    (∃ unit : (ZMod n)ˣ, ∀ p : n.primeFactors,
      ZMod.unitsMap (Nat.dvd_of_mem_primeFactors p.2) unit ^ exponent ≠ 1) ↔
      ∀ p ∈ n.primeFactors, ¬ p - 1 ∣ exponent := by
  have : NeZero n := ⟨hn⟩
  have hcount := ncard_pow_ne_one hn exponent
  have hfactor : ∀ p ∈ n.primeFactors,
      p ^ (n.factorization p - 1) * (p - 1 - (p - 1).gcd exponent) ≠ 0 ↔ ¬ p - 1 ∣ exponent := by
    intro p hp
    have hprime := Nat.prime_of_mem_primeFactors hp
    have hone := hprime.one_lt
    have hle := Nat.le_of_dvd (by omega) (Nat.gcd_dvd_left (p - 1) exponent)
    rw [mul_ne_zero_iff, Nat.sub_ne_zero_iff_lt, ← Nat.gcd_eq_left_iff_dvd]
    constructor
    · rintro ⟨-, hlt⟩
      exact hlt.ne
    · exact fun hne ↦ ⟨pow_ne_zero _ hprime.ne_zero, lt_of_le_of_ne hle hne⟩
  have hexists : (∃ unit : (ZMod n)ˣ, ∀ p : n.primeFactors,
      ZMod.unitsMap (Nat.dvd_of_mem_primeFactors p.2) unit ^ exponent ≠ 1) ↔
      {unit : (ZMod n)ˣ | ∀ p : n.primeFactors,
        ZMod.unitsMap (Nat.dvd_of_mem_primeFactors p.2) unit ^ exponent ≠ 1}.ncard ≠ 0 := by
    rw [← Nat.pos_iff_ne_zero, Set.ncard_pos]
    rfl
  rw [hexists, hcount, Finset.prod_ne_zero_iff]
  exact forall₂_congr hfactor

end

end SoftwareKeyCore.ResidueUnits
