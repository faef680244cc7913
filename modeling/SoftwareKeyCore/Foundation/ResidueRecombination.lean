import Mathlib

/-!
# Recombination of residues

A number below the product of two coprime numbers is made of its residues with an inverse of the
second number modulo the first (`recombine`, `recombine_mod_mod`). A power modulo the product of two
primes is then made of two powers modulo the primes, with exponents that are reduced modulo the
predecessors of the primes: `splitPower_eq` is that this is the power, on the bases that share a
factor with the modulus as well, provided that no reduced exponent is zero.
-/

set_option autoImplicit false
set_option relaxedAutoImplicit false

namespace SoftwareKeyCore.ResidueRecombination

/-! ### Residues -/

/-- The number that is `left` modulo `p` and `right` modulo `q`, with an inverse of `q` modulo
`p`. -/
def recombine (p q inverse left right : ℕ) : ℕ :=
  right + q * (inverse * (left + (p - right % p)) % p)

section

variable {p q inverse left right : ℕ}

theorem recombine_modEq_right : recombine p q inverse left right ≡ right [MOD q] := by
  have hmultiple : q * (inverse * (left + (p - right % p)) % p) ≡ 0 [MOD q] :=
    Nat.modEq_zero_iff_dvd.mpr (Dvd.intro _ rfl)
  exact hmultiple.add_left right

theorem recombine_modEq_left (hp : 0 < p) (hinverse : inverse * q ≡ 1 [MOD p]) :
    recombine p q inverse left right ≡ left [MOD p] := by
  have hcomplement : right % p + (p - right % p) = p := Nat.add_sub_of_le (Nat.mod_lt _ hp).le
  calc recombine p q inverse left right
      ≡ right + q * (inverse * (left + (p - right % p))) [MOD p] :=
        ((Nat.mod_modEq _ _).mul_left q).add_left right
    _ = right + inverse * q * (left + (p - right % p)) := by ring
    _ ≡ right + 1 * (left + (p - right % p)) [MOD p] := (hinverse.mul_right _).add_left right
    _ = right + (left + (p - right % p)) := by rw [one_mul]
    _ ≡ right % p + (left + (p - right % p)) [MOD p] := ((Nat.mod_modEq right p).symm).add_right _
    _ = left + p := by rw [add_left_comm, hcomplement]
    _ ≡ left [MOD p] := Nat.add_modEq_right

theorem recombine_lt (hp : 0 < p) (hright : right < q) :
    recombine p q inverse left right < p * q := by
  have hdigit : inverse * (left + (p - right % p)) % p + 1 ≤ p := Nat.mod_lt _ hp
  calc recombine p q inverse left right
      < q + q * (inverse * (left + (p - right % p)) % p) := Nat.add_lt_add_right hright _
    _ = q * (inverse * (left + (p - right % p)) % p + 1) := by ring
    _ ≤ q * p := Nat.mul_le_mul_left q hdigit
    _ = p * q := mul_comm q p

/-- A number below the product is made of its residues. -/
theorem recombine_mod_mod (hcoprime : p.Coprime q) (hinverse : inverse * q ≡ 1 [MOD p]) {x : ℕ}
    (hx : x < p * q) : recombine p q inverse (x % p) (x % q) = x := by
  have hp : 0 < p := Nat.pos_of_mul_pos_right (Nat.zero_lt_of_lt hx)
  have hq : 0 < q := Nat.pos_of_mul_pos_left (Nat.zero_lt_of_lt hx)
  have hleft : recombine p q inverse (x % p) (x % q) ≡ x [MOD p] :=
    (recombine_modEq_left hp hinverse).trans (Nat.mod_modEq x p)
  have hright : recombine p q inverse (x % p) (x % q) ≡ x [MOD q] :=
    recombine_modEq_right.trans (Nat.mod_modEq x q)
  have hboth := (Nat.modEq_and_modEq_iff_modEq_mul hcoprime).mp ⟨hleft, hright⟩
  exact hboth.eq_of_lt_of_lt (recombine_lt hp (Nat.mod_lt x hq)) hx

end

/-! ### Powers -/

/-- An exponent may be reduced modulo the predecessor of a prime, unless it becomes zero. -/
theorem pow_mod_pred_modEq {prime exponent : ℕ} (hprime : prime.Prime)
    (hreduced : exponent % (prime - 1) ≠ 0) (base : ℕ) :
    base ^ (exponent % (prime - 1)) ≡ base ^ exponent [MOD prime] := by
  by_cases hdvd : prime ∣ base
  · have hexponent : exponent ≠ 0 := by
      rintro rfl
      exact hreduced (Nat.zero_mod _)
    have hleft := Nat.modEq_zero_iff_dvd.mpr (dvd_pow hdvd hreduced)
    have hright := Nat.modEq_zero_iff_dvd.mpr (dvd_pow hdvd hexponent)
    exact hleft.trans hright.symm
  · have hcoprime : base.Coprime prime := ((hprime.coprime_iff_not_dvd).mpr hdvd).symm
    have hfermat := Nat.ModEq.pow_totient hcoprime
    rw [Nat.totient_prime hprime] at hfermat
    have hmultiple := hfermat.pow (exponent / (prime - 1))
    rw [one_pow, ← pow_mul] at hmultiple
    calc base ^ (exponent % (prime - 1))
        = 1 * base ^ (exponent % (prime - 1)) := (one_mul _).symm
      _ ≡ base ^ ((prime - 1) * (exponent / (prime - 1))) * base ^ (exponent % (prime - 1))
          [MOD prime] := hmultiple.symm.mul_right _
      _ = base ^ exponent := by rw [← pow_add, Nat.div_add_mod]

/-- A factor of a number that is one modulo another is not zero modulo it. -/
theorem mod_ne_zero_of_mul_modEq_one {left right modulus : ℕ}
    (hone : left * right ≡ 1 [MOD modulus]) (hmodulus : 1 < modulus) : left % modulus ≠ 0 := by
  intro hzero
  have hproduct : left * right ≡ 0 [MOD modulus] :=
    Nat.modEq_zero_iff_dvd.mpr ((Nat.dvd_of_mod_eq_zero hzero).mul_right right)
  have habsurd : 0 % modulus = 1 % modulus := hproduct.symm.trans hone
  rw [Nat.zero_mod, Nat.mod_eq_of_lt hmodulus] at habsurd
  exact Nat.zero_ne_one habsurd

/-- The power that is made of two powers with exponents of their own. -/
def splitPower (p q leftExponent rightExponent inverse base : ℕ) : ℕ :=
  recombine p q inverse (base ^ leftExponent % p) (base ^ rightExponent % q)

/-- The power modulo a product of two primes, by two powers with reduced exponents. -/
theorem splitPower_eq {p q inverse exponent : ℕ} (hp : p.Prime) (hq : q.Prime) (hne : p ≠ q)
    (hleft : exponent % (p - 1) ≠ 0) (hright : exponent % (q - 1) ≠ 0)
    (hinverse : inverse * q ≡ 1 [MOD p]) (base : ℕ) :
    splitPower p q (exponent % (p - 1)) (exponent % (q - 1)) inverse base =
      base ^ exponent % (p * q) := by
  have hcoprime : p.Coprime q := (Nat.coprime_primes hp hq).mpr hne
  have hlt : base ^ exponent % (p * q) < p * q := Nat.mod_lt _ (Nat.mul_pos hp.pos hq.pos)
  have hwhole := recombine_mod_mod hcoprime hinverse hlt
  rw [Nat.mod_mod_of_dvd _ (Nat.dvd_mul_right p q), Nat.mod_mod_of_dvd _ (Nat.dvd_mul_left q p)]
    at hwhole
  rw [splitPower, pow_mod_pred_modEq hp hleft base, pow_mod_pred_modEq hq hright base, hwhole]

end SoftwareKeyCore.ResidueRecombination
