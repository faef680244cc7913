import SoftwareKeyCore.RsaValidation.PrivateKey

/-!
# Primes pass the primality tests

`probable_prime` of `rsa_private_validation.rs` and `enhanced_round` of `rsa_public_validation.rs`.
Both square the residue of a base until it meets one or minus one, and both start squaring at the
second residue of the sequence. Modulo a prime no residue but these two squares to one
(`mul_self_mod_ne_one`), and the last residue of the sequence is one; so a sequence that does not
start with one meets minus one, and before its last residue: `squaring_induction`, which
`squarings_of_pow_eq_one` and `squaringLoop_of_pow_eq_one` apply to the two loops.

`primes_pass` is that neither test calls a prime composite, for any number of rounds and any answers
of the random source.
-/

set_option autoImplicit false
set_option relaxedAutoImplicit false

namespace SoftwareKeyCore.RsaPrivateValidation

open ModularPower Panicking RsaValidation

/-! ### Squarings modulo a prime -/

section

variable {n z : ℕ}

/-- Modulo an odd prime only one and minus one square to one. -/
theorem mul_self_mod_ne_one (hprime : n.Prime) (hodd : n ≠ 2) (hlt : z < n) (hone : z ≠ 1)
    (hupper : z ≠ n - 1) : z * z % n ≠ 1 := by
  intro hsquare
  have hroots : z = 1 ∨ z = n ^ 1 - 1 :=
    PrimePowers.eq_one_or_eq_sub_one_of_mul_self hprime hodd (by rwa [pow_one])
      (by rwa [pow_one])
  rw [pow_one] at hroots
  exact hroots.elim hone hupper

/-- Squaring first takes one squaring off a repeated one. -/
theorem mul_self_mod_pow_two_pow (n z count : ℕ) :
    (z * z % n) ^ 2 ^ count % n = z ^ 2 ^ (count + 1) % n := by
  rw [← Nat.pow_mod, ← sq, ← pow_mul, ← pow_succ']

/-- The induction over the squarings of a residue other than one and minus one that becomes one:
before it does, a square is minus one. -/
theorem squaring_induction (hprime : n.Prime) (hodd : n ≠ 2) {motive : ℕ → ℕ → Prop}
    (met : ∀ remaining z, z * z % n ≠ 1 → z * z % n = n - 1 → motive (remaining + 1) z)
    (next : ∀ remaining z, z * z % n ≠ 1 → z * z % n ≠ n - 1 → motive remaining (z * z % n) →
      motive (remaining + 1) z)
    {remaining : ℕ} (hlt : z < n) (hone : z ≠ 1) (hupper : z ≠ n - 1)
    (hpow : z ^ 2 ^ (remaining + 1) % n = 1) : motive remaining z := by
  have hsquare := mul_self_mod_ne_one hprime hodd hlt hone hupper
  induction remaining generalizing z with
  | zero =>
    rw [zero_add, pow_one, sq] at hpow
    exact absurd hpow hsquare
  | succ remaining ih =>
    have hnext : z * z % n < n := Nat.mod_lt _ hprime.pos
    by_cases hmet : z * z % n = n - 1
    · exact met remaining z hsquare hmet
    · rw [← mul_self_mod_pow_two_pow] at hpow
      refine next remaining z hsquare hmet (ih hnext hsquare hmet hpow ?_)
      exact mul_self_mod_ne_one hprime hodd hnext hsquare hmet

/-- The squarings of `probable_prime` meet minus one when one more of them would give one. -/
theorem squarings_of_pow_eq_one (hprime : n.Prime) (hodd : n ≠ 2) {remaining : ℕ} (hlt : z < n)
    (hone : z ≠ 1) (hupper : z ≠ n - 1) (hpow : z ^ 2 ^ (remaining + 1) % n = 1) :
    squarings n (n - 1) remaining z = true := by
  refine squaring_induction (motive := fun remaining z ↦ squarings n (n - 1) remaining z = true)
    hprime hodd ?_ ?_ hlt hone hupper hpow
  · intro remaining z hsquare hmet
    rw [squarings, if_neg hsquare, if_pos hmet]
  · intro remaining z hsquare hmet ih
    rw [squarings, if_neg hsquare, if_neg hmet]
    exact ih

/-- The squaring loop of `enhanced_round` meets minus one in the same case. -/
theorem squaringLoop_of_pow_eq_one (hprime : n.Prime) (hodd : n ≠ 2) {remaining : ℕ}
    (hlt : z < n) (hone : z ≠ 1) (hupper : z ≠ n - 1)
    (hpow : z ^ 2 ^ (remaining + 1) % n = 1) :
    squaringLoop n (n - 1) remaining z = .probablyPrime := by
  refine squaring_induction
    (motive := fun remaining z ↦ squaringLoop n (n - 1) remaining z = .probablyPrime)
    hprime hodd ?_ ?_ hlt hone hupper hpow
  · intro remaining z hsquare hmet
    rw [squaringLoop, if_pos hmet]
  · intro remaining z hsquare hmet ih
    rw [squaringLoop, if_neg hmet, if_neg hsquare]
    exact ih

end

/-! ### The rounds of a prime -/

section

variable {n base : ℕ}

/-- The residue that a round on a prime starts from becomes one after as many squarings as `n - 1`
has factors two. -/
theorem pow_oddPart_pow_two_pow (hprime : n.Prime) (hodd : n ≠ 2) (hbase : 1 < base)
    (hlt : base < n) :
    trailingZeros (n - 1) ≠ 0 ∧
      (base ^ ((n - 1) >>> trailingZeros (n - 1)) % n) ^ 2 ^ (trailingZeros (n - 1)) % n = 1 := by
  have htwo := hprime.two_le
  have hmod := hprime.mod_two_eq_one_iff_ne_two.mpr hodd
  obtain ⟨hzeros, hsplit⟩ := shiftRight_trailingZeros_mul (by omega : n - 1 ≠ 0) (by omega)
  refine ⟨by omega, ?_⟩
  have hcoprime : base.Coprime n := (Nat.coprime_of_lt_prime (by omega) hlt hprime).symm
  have hfermat := Nat.ModEq.pow_totient hcoprime
  rw [Nat.totient_prime hprime, Nat.ModEq, Nat.mod_eq_of_lt hprime.one_lt] at hfermat
  rwa [← Nat.pow_mod, ← pow_mul, hsplit]

/-- The enhanced round finds every odd prime probably prime. -/
theorem roundOf_of_prime (hprime : n.Prime) (hodd : n ≠ 2) (hbase : 1 < base)
    (hlt : base < n - 1) : roundOf n base = .probablyPrime := by
  obtain ⟨hzeros, hpow⟩ := pow_oddPart_pow_two_pow hprime hodd hbase (by omega)
  have hcoprime : Nat.gcd base n = 1 := (Nat.coprime_of_lt_prime (by omega) (by omega) hprime).symm
  unfold roundOf enhancedRound
  simp only [modpow_eq]
  rw [hcoprime, if_neg (lt_irrefl 1)]
  split_ifs with hstart
  · rfl
  · rw [not_or] at hstart
    apply squaringLoop_of_pow_eq_one hprime hodd (Nat.mod_lt _ hprime.pos) hstart.1 hstart.2
    rwa [Nat.sub_add_cancel (Nat.one_le_iff_ne_zero.mpr hzeros)]

end

/-! ### The test of a private factor -/

section

variable {σ : Type} (source : RandomSource σ) {n : ℕ}

/-- The rounds on an odd prime all pass. -/
theorem safe_primalityRounds_of_prime (hprime : n.Prime) (hodd : n ≠ 2) (rounds : ℕ) (state : σ) :
    Safe (primalityRounds source n (n - 1) (trailingZeros (n - 1))
      ((n - 1) >>> trailingZeros (n - 1)) rounds state) fun tested ↦ tested.1 = true := by
  induction rounds generalizing state with
  | zero => exact safe_pure rfl
  | succ rounds ih =>
    rw [primalityRounds]
    refine (safe_sampleBase source n (n - 1) 128 state).bind fun sampled hsampled ↦ ?_
    refine (safe_checkedModpow hprime.ne_zero _ _).bind fun z hz ↦ ?_
    obtain ⟨hzeros, hpow⟩ := pow_oddPart_pow_two_pow hprime hodd hsampled.1 (by omega)
    rw [modpow_eq] at hz
    rw [← hz] at hpow
    have hlt : z < n := hz ▸ Nat.mod_lt _ hprime.pos
    have hnext : z = 1 ∨ z = n - 1 ∨
        squarings n (n - 1) (trailingZeros (n - 1) - 1) z = true := by
      by_cases hone : z = 1
      · exact Or.inl hone
      by_cases hupper : z = n - 1
      · exact Or.inr (Or.inl hupper)
      refine Or.inr (Or.inr (squarings_of_pow_eq_one hprime hodd hlt hone hupper ?_))
      rwa [Nat.sub_add_cancel (Nat.one_le_iff_ne_zero.mpr hzeros)]
    rw [if_pos hnext]
    exact ih _

/-- A prime passes the test, when the random source gives it bases. -/
theorem safe_probablePrime_of_prime (hprime : n.Prime) (rounds : ℕ) (state : σ) :
    Safe (probablePrime source n rounds state) fun tested ↦ tested.1 = true := by
  have htwo := hprime.two_le
  unfold probablePrime
  split_ifs with hsmall heven
  · exact safe_pure (decide_eq_true (by omega))
  · rw [← Nat.dvd_iff_mod_eq_zero, Nat.prime_dvd_prime_iff_eq Nat.prime_two hprime] at heven
    omega
  · refine (safe_checkedSub (by omega)).bind fun upper hupper ↦ ?_
    have hzeros : trailingZerosOf upper = some (trailingZeros upper) := if_neg (by omega)
    refine (safe_expect hzeros).bind fun a ha ↦ ?_
    rw [ha, hupper]
    exact safe_primalityRounds_of_prime source hprime (by omega) rounds state

/-- The bases are the only part of the test that can fail. -/
theorem avoids_probablePrime {error : RsaPrivateValidationError}
    (hne : .randomnessUnavailable ≠ error) (n rounds : ℕ) (state : σ) :
    Avoids error (probablePrime source n rounds state) := by
  have hsample : ∀ n upper attempts state,
      Avoids error (sampleBase source n upper attempts state) := by
    intro n upper attempts
    induction attempts with
    | zero => exact fun state ↦ avoids_throw hne
    | succ attempts ih =>
      intro state
      rw [sampleBase]
      split
      · exact avoids_throw hne
      · exact avoids_ite (avoids_pure _ _) (ih _)
  have hrounds : ∀ n upper a oddPart rounds state,
      Avoids error (primalityRounds source n upper a oddPart rounds state) := by
    intro n upper a oddPart rounds
    induction rounds with
    | zero => exact fun state ↦ avoids_pure _ _
    | succ rounds ih =>
      intro state
      rw [primalityRounds]
      refine (hsample n upper 128 state).bind fun sampled ↦ ?_
      refine (avoids_expect _ _).bind fun z ↦ ?_
      exact avoids_ite (ih _) (avoids_pure _ _)
  refine avoids_ite (avoids_pure _ _) (avoids_ite (avoids_pure _ _) ?_)
  refine (avoids_checkedSub _ _ _).bind fun upper ↦ (avoids_expect _ _).bind fun a ↦ ?_
  exact hrounds n upper a _ rounds state

end

/-- Neither primality test calls a prime composite: the test of a private factor passes a prime or
runs out of randomness, so that a factor it rejects is no prime, and the enhanced round finds an odd
prime probably prime on every base. -/
theorem primes_pass :
    (∀ (σ : Type) (source : RandomSource σ) (n rounds : ℕ) (state : σ), n.Prime →
      (∃ state', answer (probablePrime source n rounds state) = some (.ok (true, state'))) ∨
        answer (probablePrime source n rounds state) = some (.error .randomnessUnavailable)) ∧
    (∀ (σ : Type) (source : RandomSource σ) (n rounds : ℕ) (state state' : σ),
      answer (probablePrime source n rounds state) = some (.ok (false, state')) → ¬ n.Prime) ∧
    ∀ n b : ℕ, n.Prime → Odd n → 1 < b → b < n - 1 → roundOf n b = .probablyPrime := by
  refine ⟨?_, ?_, fun n b hprime hodd hlower hupper ↦ roundOf_of_prime hprime ?_ hlower hupper⟩
  · intro σ source n rounds state hprime
    obtain ⟨result, hresult, hpassed⟩ := safe_probablePrime_of_prime source hprime rounds state
    cases result with
    | ok tested =>
      obtain ⟨passed, state'⟩ := tested
      obtain rfl : passed = true := hpassed _ rfl
      exact Or.inl ⟨state', hresult⟩
    | error error =>
      refine Or.inr ?_
      by_cases herror : error = .randomnessUnavailable
      · rw [hresult, herror]
      · exact absurd hresult (avoids_probablePrime source (Ne.symm herror) n rounds state)
  · intro σ source n rounds state state' hrejected hprime
    have hpassed := (safe_probablePrime_of_prime source hprime rounds state).of_answer_eq_ok
      hrejected
    exact Bool.false_ne_true hpassed
  · rintro rfl
    exact absurd hodd (by decide)

/-- The tests on 13 and on 9, with the base two. -/
theorem primes_pass_thirteen :
    ((∃ state', answer (probablePrime twoSource 13 5 ()) = some (.ok (true, state'))) ∨
      answer (probablePrime twoSource 13 5 ()) = some (.error .randomnessUnavailable)) ∧
    ¬ Nat.Prime 9 ∧ roundOf 13 2 = .probablyPrime :=
  ⟨primes_pass.1 Unit twoSource 13 5 () (by norm_num),
    primes_pass.2.1 Unit twoSource 9 1 () () (by decide +kernel),
    primes_pass.2.2 13 2 (by norm_num) (by decide) (by decide) (by decide)⟩

end SoftwareKeyCore.RsaPrivateValidation
