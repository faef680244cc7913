import Mathlib

/-!
# Witnesses against prime powers

A natural number is shown not to be a power of an odd prime by a witness of one of two kinds. A
square root of one other than one and minus one is the first: `eq_one_or_eq_sub_one_of_mul_self`
says that an odd prime power has no other square roots of one. A base whose power to the
exponent `n - 1` is not one modulo any divisor of `n` is the second:
`one_lt_gcd_pow_sub_one` says that for a prime power `n` that power and one always agree modulo
the prime.
-/

set_option autoImplicit false
set_option relaxedAutoImplicit false

namespace SoftwareKeyCore.PrimePowers

variable {prime exponent : ℕ}

/-- An odd prime does not divide two numbers that differ by two. -/
theorem not_dvd_of_dvd_add_two (hodd : prime ≠ 2) (hprime : prime.Prime) {value : ℕ}
    (hdvd : prime ∣ value) : ¬ prime ∣ value + 2 := by
  intro hdvd'
  have htwo : prime ∣ 2 := (Nat.dvd_add_right hdvd).mp hdvd'
  exact hodd ((Nat.prime_dvd_prime_iff_eq hprime Nat.prime_two).mp htwo)

/-- The square roots of one modulo an odd prime power are one and minus one. -/
theorem eq_one_or_eq_sub_one_of_mul_self (hprime : prime.Prime) (hodd : prime ≠ 2) {root : ℕ}
    (hroot : root < prime ^ exponent) (hsquare : root * root % prime ^ exponent = 1) :
    root = 1 ∨ root = prime ^ exponent - 1 := by
  have hpositive : 1 ≤ root := by
    by_contra hzero
    obtain rfl : root = 0 := by omega
    simp at hsquare
  have hproduct : prime ^ exponent ∣ (root - 1) * (root + 1) := by
    have hsub : prime ^ exponent ∣ root * root - 1 := by
      rw [← hsquare]
      exact Nat.dvd_sub_mod _
    have hfactor : root * root - 1 = (root - 1) * (root + 1) := by
      rw [mul_comm (root - 1), ← Nat.mul_self_sub_mul_self_eq, one_mul]
    rwa [← hfactor]
  have hshift : root + 1 = root - 1 + 2 := by omega
  by_cases hdvd : prime ∣ root - 1
  · have hcoprime : (prime ^ exponent).Coprime (root + 1) := by
      refine Nat.Coprime.pow_left _ ((hprime.coprime_iff_not_dvd).mpr ?_)
      rw [hshift]
      exact not_dvd_of_dvd_add_two hodd hprime hdvd
    have hzero := Nat.eq_zero_of_dvd_of_lt (hcoprime.dvd_of_dvd_mul_right hproduct) (by omega)
    exact Or.inl (by omega)
  · have hcoprime : (prime ^ exponent).Coprime (root - 1) :=
      Nat.Coprime.pow_left _ ((hprime.coprime_iff_not_dvd).mpr hdvd)
    have hle := Nat.le_of_dvd (by omega) (hcoprime.dvd_of_dvd_mul_left hproduct)
    exact Or.inr (by omega)

/-- The power of a base to `n - 1` is one modulo the prime of a prime power `n`. -/
theorem pow_sub_one_modEq_one (hprime : prime.Prime) {base : ℕ} (hcoprime : base.Coprime prime) :
    base ^ (prime ^ exponent - 1) ≡ 1 [MOD prime] := by
  obtain ⟨multiple, hmultiple⟩ : prime - 1 ∣ prime ^ exponent - 1 := by
    simpa only [one_pow] using Nat.sub_dvd_pow_sub_pow prime 1 exponent
  have hfermat := Nat.ModEq.pow_totient hcoprime
  rw [Nat.totient_prime hprime] at hfermat
  rw [hmultiple, pow_mul]
  simpa only [one_pow] using hfermat.pow multiple

/-- The power of a base to `n - 1`, less one, has a common divisor with a prime power `n`. -/
theorem one_lt_gcd_pow_sub_one (hprime : prime.Prime) (hexponent : exponent ≠ 0) {base : ℕ}
    (hcoprime : base.Coprime prime) :
    1 < Nat.gcd (base ^ (prime ^ exponent - 1) % prime ^ exponent - 1) (prime ^ exponent) := by
  have hdvd : prime ∣ prime ^ exponent := dvd_pow_self prime hexponent
  have hresidue : base ^ (prime ^ exponent - 1) % prime ^ exponent % prime = 1 := by
    rw [Nat.mod_mod_of_dvd _ hdvd, pow_sub_one_modEq_one hprime hcoprime,
      Nat.mod_eq_of_lt hprime.one_lt]
  have hsub : prime ∣ base ^ (prime ^ exponent - 1) % prime ^ exponent - 1 := by
    have hmod := Nat.dvd_sub_mod (n := prime) (base ^ (prime ^ exponent - 1) % prime ^ exponent)
    rwa [hresidue] at hmod
  have hgcd := Nat.dvd_gcd hsub hdvd
  have hpositive := Nat.gcd_pos_of_pos_right
    (base ^ (prime ^ exponent - 1) % prime ^ exponent - 1) (pow_pos hprime.pos exponent)
  exact hprime.one_lt.trans_le (Nat.le_of_dvd hpositive hgcd)

end SoftwareKeyCore.PrimePowers
