import Mathlib

/-!
# Exponents that are inverse to each other

Powers modulo a squarefree number. An exponent that is one modulo the predecessor of every prime
factor leaves every residue as it is (`pow_modEq_self_of_squarefree`), the residues that share a
factor with the modulus included. For a product of two primes it is enough that the exponent is
one modulo the least common multiple of the two predecessors (`pow_modEq_self_of_lcm`).
-/

set_option autoImplicit false
set_option relaxedAutoImplicit false

namespace SoftwareKeyCore.ExponentInverse

variable {exponent modulus : ℕ}

/-- Fermat's little theorem for an exponent that is one modulo the predecessor of the prime. -/
theorem pow_modEq_self_of_prime {prime : ℕ} (hprime : prime.Prime) (hexponent : exponent ≠ 0)
    (hone : exponent ≡ 1 [MOD prime - 1]) (base : ℕ) : base ^ exponent ≡ base [MOD prime] := by
  by_cases hdvd : prime ∣ base
  · have hbase := (Nat.modEq_zero_iff_dvd).mpr hdvd
    have hpower := (Nat.modEq_zero_iff_dvd).mpr (dvd_pow hdvd hexponent)
    exact hpower.trans hbase.symm
  · obtain ⟨multiple, hmultiple⟩ :=
      (Nat.modEq_iff_dvd' (Nat.one_le_iff_ne_zero.mpr hexponent)).mp hone.symm
    have hcoprime : base.Coprime prime :=
      ((hprime.coprime_iff_not_dvd).mpr hdvd).symm
    have hfermat := Nat.ModEq.pow_totient hcoprime
    rw [Nat.totient_prime hprime] at hfermat
    have hsplit : exponent = (prime - 1) * multiple + 1 := by omega
    rw [hsplit, pow_succ, pow_mul]
    simpa only [one_pow, one_mul] using (hfermat.pow multiple).mul_right base

/-- An exponent that is one modulo the predecessor of every prime factor of a squarefree number
leaves every residue as it is. -/
theorem pow_modEq_self_of_squarefree (hmodulus : Squarefree modulus) (hexponent : exponent ≠ 0)
    (hone : ∀ prime ∈ modulus.primeFactors, exponent ≡ 1 [MOD prime - 1]) (base : ℕ) :
    base ^ exponent ≡ base [MOD modulus] := by
  have hle : base ≤ base ^ exponent := Nat.le_self_pow hexponent base
  refine ((Nat.modEq_iff_dvd' hle).mpr ?_).symm
  rw [← Nat.prod_primeFactors_of_squarefree hmodulus]
  refine Finset.prod_primes_dvd _ (fun prime hmem ↦ ?_) fun prime hmem ↦ ?_
  · exact (Nat.prime_of_mem_primeFactors hmem).prime
  · have hprime := Nat.prime_of_mem_primeFactors hmem
    have hpower := pow_modEq_self_of_prime hprime hexponent (hone prime hmem) base
    exact (Nat.modEq_iff_dvd' hle).mp hpower.symm

/-- For a product of two primes, an exponent that is one modulo the least common multiple of
their predecessors leaves every residue as it is. -/
theorem pow_modEq_self_of_lcm {p q : ℕ} (hp : p.Prime) (hq : q.Prime) (hne : p ≠ q)
    (hexponent : exponent ≠ 0) (hone : exponent ≡ 1 [MOD Nat.lcm (p - 1) (q - 1)]) (base : ℕ) :
    base ^ exponent ≡ base [MOD p * q] := by
  have hcoprime : p.Coprime q := (Nat.coprime_primes hp hq).mpr hne
  have hsquarefree : Squarefree (p * q) :=
    (Nat.squarefree_mul hcoprime).mpr ⟨hp.squarefree, hq.squarefree⟩
  refine pow_modEq_self_of_squarefree hsquarefree hexponent (fun prime hmem ↦ ?_) base
  have hdvd := Nat.dvd_of_mem_primeFactors hmem
  rcases ((Nat.prime_of_mem_primeFactors hmem).dvd_mul).mp hdvd with hleft | hright
  · rw [(Nat.prime_dvd_prime_iff_eq (Nat.prime_of_mem_primeFactors hmem) hp).mp hleft]
    exact hone.of_dvd (Nat.dvd_lcm_left _ _)
  · rw [(Nat.prime_dvd_prime_iff_eq (Nat.prime_of_mem_primeFactors hmem) hq).mp hright]
    exact hone.of_dvd (Nat.dvd_lcm_right _ _)

end SoftwareKeyCore.ExponentInverse
