import SoftwareKeyCore.RsaKeys.PublicKey
import SoftwareKeyCore.RsaValidation.AcceptedModuli

/-!
# The public half of a validated key

`import_public` of `rsa_keys.rs` on the numbers of a private key that
`validate_rsa_private_key` accepted, with prime factors. The checks of the private validation imply
the checks of the public one, and the factors are so close that `p - 1` divides `n - 1` only when
one factor is twice the other less one (`sub_one_dvd_iff`). `importPublic_of_validated_iff`
concludes that the public half is imported on some run unless the factors are such a pair, which
an even number of bits excludes.
-/

set_option autoImplicit false
set_option relaxedAutoImplicit false

namespace SoftwareKeyCore.RsaKeys

open ByteString Panicking RandomTape RsaPublicKey RsaPrivateValidation RsaValidation

/-! ### What the private validation checks -/

/-- Two factors of about half the width of the modulus each. -/
structure IsBalancedPair (p q bits : ℕ) : Prop where
  bits_add : Nat.size p + Nat.size q = bits
  dist_le : Nat.dist (Nat.size p) (Nat.size q) ≤ 1
  lower_left : 2 ^ (2 * Nat.size p - 1) ≤ p * p
  lower_right : 2 ^ (2 * Nat.size q - 1) ≤ q * q

/-- Factors that pass their checks are balanced. -/
theorem isBalancedPair_of_checkFactors {n bits p q : ℕ} {result : Unit}
    (hchecked : answer (checkFactors n bits p q) = some (.ok result)) :
    IsBalancedPair p q bits := by
  unfold checkFactors at hchecked
  obtain ⟨_, hshape, hchecked⟩ := answer_bind_eq_ok_iff.mp hchecked
  obtain ⟨pShift, hpShift, hchecked⟩ := answer_bind_eq_ok_iff.mp hchecked
  obtain ⟨_, hp, hchecked⟩ := answer_bind_eq_ok_iff.mp hchecked
  obtain ⟨qShift, hqShift, hchecked⟩ := answer_bind_eq_ok_iff.mp hchecked
  obtain ⟨_, hq, -⟩ := answer_bind_eq_ok_iff.mp hchecked
  have hwidths := answer_throwIf_eq_ok_iff.mp hshape
  push Not at hwidths
  obtain ⟨hadd, hdist, hpOdd, hqOdd⟩ := hwidths
  have hpBits : 0 < Nat.size p := Nat.size_pos.mpr (by omega)
  have hqBits : 0 < Nat.size q := Nat.size_pos.mpr (by omega)
  rw [answer_checkedSub_of_le (by omega), Option.some.injEq, Except.ok.injEq] at hpShift hqShift
  have hpLower := answer_throwIf_eq_ok_iff.mp hp
  have hqLower := answer_throwIf_eq_ok_iff.mp hq
  rw [← hpShift, Nat.one_shiftLeft, not_lt] at hpLower
  rw [← hqShift, Nat.one_shiftLeft, not_lt] at hqLower
  exact ⟨hadd, hdist, hpLower, hqLower⟩

/-- What the numbers of an accepted private key have passed. -/
structure IsValidated (key : PrivateKeyParts) (bits p q : ℕ) : Prop where
  primes_eq : key.primes = [p, q]
  bits_range : minRsaBits ≤ bits ∧ bits ≤ maxRsaBits
  bits_modulus : Nat.size key.n = bits
  le_exponent : 3 ≤ key.e
  odd_exponent : key.e % 2 = 1
  bits_exponent : Nat.size key.e ≤ 256
  factors : IsFactorPair key.n bits p q
  balanced : IsBalancedPair p q bits

/-- An accepted private key is validated. -/
theorem isValidated_of_validateWithRng {σ : Type} {estimate : ℕ → ℕ}
    {rsaDecryptAndCheck : PrivateKeyParts → ℕ → Option ℕ} {source : RandomSource σ}
    {key : PrivateKeyParts} {bits : ℕ} {state : σ} {result : Unit × σ}
    (haccepted : answer (RsaPrivateValidation.validateWithRng estimate rsaDecryptAndCheck source key
      bits state) = some (.ok result)) : ∃ p q, IsValidated key bits p q := by
  obtain ⟨p, q, hprimes, hsize, hfactors, -⟩ : IsAdmissible key bits :=
    (safe_validateWithRng state).of_answer_eq_ok haccepted
  unfold RsaPrivateValidation.validateWithRng at haccepted
  obtain ⟨strength, hstrength, haccepted⟩ := answer_bind_eq_ok_iff.mp haccepted
  obtain ⟨_, hshape, haccepted⟩ := answer_bind_eq_ok_iff.mp haccepted
  obtain ⟨p', hp, haccepted⟩ := answer_bind_eq_ok_iff.mp haccepted
  obtain ⟨q', hq, haccepted⟩ := answer_bind_eq_ok_iff.mp haccepted
  obtain ⟨_, hchecked, -⟩ := answer_bind_eq_ok_iff.mp haccepted
  rw [answer_expect_eq_ok_iff, hprimes] at hp hq
  obtain ⟨rfl, rfl⟩ : p = p' ∧ q = q' := ⟨Option.some.inj hp, Option.some.inj hq⟩
  have hguard := answer_throwIf_eq_ok_iff.mp hshape
  push Not at hguard
  obtain ⟨-, hthree, hodd, hbits, -⟩ := hguard
  have hsome : (validationStrength estimate bits).isSome := by
    rw [answer_orError_eq_ok_iff.mp hstrength]
    rfl
  exact ⟨p, q,
    { primes_eq := hprimes
      bits_range := (isSome_validationStrength estimate bits).mp hsome
      bits_modulus := hsize
      le_exponent := hthree
      odd_exponent := by omega
      bits_exponent := hbits
      factors := hfactors
      balanced := isBalancedPair_of_checkFactors hchecked }⟩

/-! ### Close factors -/

section

variable {p q bits : ℕ}

theorem IsBalancedPair.symm (hbalanced : IsBalancedPair p q bits) : IsBalancedPair q p bits :=
  ⟨by rw [add_comm, hbalanced.bits_add], by rw [Nat.dist_comm]; exact hbalanced.dist_le,
    hbalanced.lower_right, hbalanced.lower_left⟩

/-- The square of a factor below a power of two of the width of the other, or of one more. -/
theorem IsBalancedPair.mul_self_lt (hbalanced : IsBalancedPair p q bits) (hp : 0 < p) :
    q * q < 8 * (p * p) ∧ (bits % 2 = 0 → q * q < 2 * (p * p)) := by
  have hwidth : 0 < Nat.size p := Nat.size_pos.mpr hp
  have hadd := hbalanced.bits_add
  have hdist := hbalanced.dist_le
  have hsquare : 2 ^ Nat.size p * 2 ^ Nat.size p ≤ 2 * (p * p) := by
    calc 2 ^ Nat.size p * 2 ^ Nat.size p = 2 * 2 ^ (2 * Nat.size p - 1) := by
          rw [← pow_add, ← pow_succ']
          congr 1
          omega
      _ ≤ 2 * (p * p) := Nat.mul_le_mul_left 2 hbalanced.lower_left
  have hlt : ∀ extra, Nat.size q ≤ Nat.size p + extra →
      q * q < 2 ^ extra * 2 ^ extra * (2 * (p * p)) := by
    intro extra hextra
    have hq : q < 2 ^ Nat.size p * 2 ^ extra := by
      rw [← pow_add]
      exact (Nat.lt_size_self q).trans_le (Nat.pow_le_pow_right Nat.two_pos hextra)
    calc q * q < (2 ^ Nat.size p * 2 ^ extra) * (2 ^ Nat.size p * 2 ^ extra) :=
          Nat.mul_lt_mul'' hq hq
      _ = 2 ^ extra * 2 ^ extra * (2 ^ Nat.size p * 2 ^ Nat.size p) := by ring
      _ ≤ 2 ^ extra * 2 ^ extra * (2 * (p * p)) := Nat.mul_le_mul_left _ hsquare
  unfold Nat.dist at hdist
  refine ⟨?_, fun heven ↦ ?_⟩
  · have hone := hlt 1 (by omega)
    omega
  · have hzero := hlt 0 (by omega)
    omega

/-- A factor is below three times the other, and below twice the other when the number of bits is
even. -/
theorem IsBalancedPair.lt_mul (hbalanced : IsBalancedPair p q bits) (hlarge : 12 ≤ p) :
    q < 3 * (p - 1) + 1 ∧ (bits % 2 = 0 → q < 2 * (p - 1) + 1) := by
  obtain ⟨r, rfl⟩ := Nat.exists_eq_add_of_le hlarge
  obtain ⟨height, htwo⟩ := hbalanced.mul_self_lt (by omega)
  refine ⟨?_, fun heven ↦ ?_⟩
  · by_contra hlarge
    have hle : 3 * (r + 11) + 1 ≤ q := by omega
    nlinarith [Nat.mul_le_mul hle hle]
  · by_contra hlarge
    have hle : 2 * (r + 11) + 1 ≤ q := by omega
    nlinarith [Nat.mul_le_mul hle hle, htwo heven]

/-- `p - 1` divides `n - 1` only for factors of which one is twice the other less one. -/
theorem IsBalancedPair.sub_one_dvd_iff (hbalanced : IsBalancedPair p q bits) (hp : 12 ≤ p)
    (hq : 12 ≤ q) (hne : p ≠ q) : p - 1 ∣ p * q - 1 ↔ q = 2 * p - 1 := by
  have hsplit : p * q - 1 = (p - 1) * q + (q - 1) := by
    rw [Nat.sub_mul, one_mul]
    have hle : q ≤ p * q := Nat.le_mul_of_pos_left q (by omega)
    omega
  rw [hsplit, Nat.dvd_add_right (Dvd.intro q rfl)]
  constructor
  · rintro ⟨factor, hfactor⟩
    have hlt := (hbalanced.lt_mul hp).1
    have hthree : factor < 3 := by
      by_contra hlarge
      have hle : (p - 1) * 3 ≤ (p - 1) * factor := Nat.mul_le_mul_left _ (by omega)
      omega
    interval_cases factor <;> omega
  · rintro rfl
    exact ⟨2, by omega⟩

end

/-! ### Importing the public half -/

section

variable {key : PrivateKeyParts} {bits p q : ℕ} {estimate : ℕ → ℕ}

/-- A prime factor of a validated key is above the small primes. -/
theorem IsValidated.lt_factor (hvalidated : IsValidated key bits p q) : 752 < p ∧ 752 < q := by
  have hrange := hvalidated.bits_range.1
  have hadd := hvalidated.balanced.bits_add
  have hdist := hvalidated.balanced.dist_le
  unfold Nat.dist at hdist
  unfold minRsaBits at hrange
  have hlarge : ∀ value : ℕ, 11 ≤ Nat.size value → 752 < value := by
    intro value hsize
    have hle : 2 ^ 10 ≤ value := Nat.lt_size.mp (by omega)
    omega
  exact ⟨hlarge p (by omega), hlarge q (by omega)⟩

/-- The public half of a validated key with prime factors passes the checks of the public
validation. -/
theorem IsValidated.passesChecks (hvalidated : IsValidated key bits p q) (hp : p.Prime)
    (hq : q.Prime) : PassesChecks estimate (toBytesBe key.n) (toBytesBe key.e) (Nat.size key.n) := by
  have hbits := hvalidated.bits_modulus
  have hrange := hvalidated.bits_range
  obtain ⟨hpLarge, hqLarge⟩ := hvalidated.lt_factor
  have hproduct := hvalidated.factors.mul_eq
  have hlower := hrange.1
  unfold minRsaBits at hlower
  have hexponent : key.e < 256 ^ 32 := by
    calc key.e < 2 ^ Nat.size key.e := Nat.lt_size_self _
      _ ≤ 2 ^ 256 := Nat.pow_le_pow_right Nat.two_pos hvalidated.bits_exponent
      _ = 256 ^ 32 := by norm_num
  have hmodulus : 256 ^ 32 ≤ key.n := by
    calc 256 ^ 32 = 2 ^ 256 := by norm_num
      _ ≤ 2 ^ (bits - 1) := Nat.pow_le_pow_right Nat.two_pos (by omega)
      _ ≤ key.n := Nat.lt_size.mp (by omega)
  exact
    { strength := (isSome_validationStrength estimate _).mpr (by rw [hbits]; exact hrange)
      length_modulus := by
        rw [toBytesBe, length_toBeBytes]
        unfold Digest.divCeil
        omega
      odd_modulus := by
        rw [fromBeBytes_toBytesBe, ← hproduct, Nat.mul_mod, hvalidated.factors.odd_left,
          hvalidated.factors.odd_right]
      exponent_ne_nil := List.ne_nil_of_length_pos (length_toBytesBe_pos _)
      length_exponent := (length_toBytesBe_le_iff (by omega)).mpr hexponent
      bits_modulus := by rw [fromBeBytes_toBytesBe]
      le_exponent := by rw [fromBeBytes_toBytesBe]; exact hvalidated.le_exponent
      exponent_lt := by
        rw [fromBeBytes_toBytesBe, fromBeBytes_toBytesBe]
        exact hexponent.trans_le hmodulus
      bits_exponent := by rw [fromBeBytes_toBytesBe]; exact hvalidated.bits_exponent
      odd_exponent := by rw [fromBeBytes_toBytesBe]; exact hvalidated.odd_exponent
      no_small_factor := by
        rw [fromBeBytes_toBytesBe, ← hproduct]
        refine gcd_smallFactors_eq_one fun candidate hcandidate ↦ ?_
        obtain ⟨hthree, hsmall⟩ := lt_of_mem_oddsFrom_three hcandidate
        exact Nat.Coprime.mul_left (Nat.coprime_of_lt_prime (by omega) (by omega) hp)
          (Nat.coprime_of_lt_prime (by omega) (by omega) hq) }

/-- The public half of a validated key with prime factors is imported on some tape unless one factor
is twice the other less one. -/
theorem IsValidated.importPublic_iff (hvalidated : IsValidated key bits p q) (hp : p.Prime)
    (hq : q.Prime) (estimate : ℕ → ℕ) {checks : PublicKeyChecks}
    (hchecks : checks key.n key.e = true) :
    (∃ tape rest, importPublic estimate checks readTape key.n key.e tape =
      (.ok ⟨key.n, key.e⟩, rest)) ↔ q ≠ 2 * p - 1 ∧ p ≠ 2 * q - 1 := by
  obtain ⟨hpLarge, hqLarge⟩ := hvalidated.lt_factor
  have hne : p ≠ q := by
    intro hsame
    have hfar := hvalidated.factors.separated
    rw [hsame, Nat.dist_self] at hfar
    exact Nat.not_lt_zero _ hfar
  have hsize : Nat.size key.n ≤ maxRsaBits := by
    rw [hvalidated.bits_modulus]
    exact hvalidated.bits_range.2
  have hproduct := hvalidated.factors.mul_eq
  have hfactors : key.n.primeFactors = {p, q} := by
    rw [← hproduct, Nat.primeFactors_mul hp.ne_zero hq.ne_zero, hp.primeFactors, hq.primeFactors]
    rfl
  have hleft := hvalidated.balanced.sub_one_dvd_iff (by omega) (by omega) hne
  have hright := hvalidated.balanced.symm.sub_one_dvd_iff (by omega) (by omega) hne.symm
  have hacceptable := (validateWithRng_accepts_iff estimate (toBytesBe key.n) (toBytesBe key.e)
    (Nat.size key.n)).2
  have hcondition : (∀ r ∈ (fromBeBytes (toBytesBe key.n)).primeFactors,
      ¬ r - 1 ∣ fromBeBytes (toBytesBe key.n) - 1) ↔ q ≠ 2 * p - 1 ∧ p ≠ 2 * q - 1 := by
    rw [fromBeBytes_toBytesBe, hfactors, Finset.forall_mem_insert, ← hproduct, hleft, mul_comm p q]
    simp only [Finset.mem_singleton, forall_eq, hright]
  rw [hcondition, and_iff_right (hvalidated.passesChecks hp hq)] at hacceptable
  rw [← hacceptable]
  constructor
  · rintro ⟨tape, rest, himported⟩
    exact ⟨tape, rest, (importPublic_eq_ok himported).2.2⟩
  · rintro ⟨tape, rest, haccepted⟩
    exact ⟨tape, rest, importPublic_of_validated hsize hchecks haccepted⟩

/-- The public half of a private key that is accepted, with prime factors, is imported on some tape
unless one factor is twice the other less one; when the number of bits is even it always is.

Assumes that the factors are prime, which their tests leave to chance, and that the third-party
checks accept the public half. -/
theorem importPublic_of_accepted {σ : Type} {rsaDecryptAndCheck : PrivateKeyParts → ℕ → Option ℕ}
    {source : RandomSource σ} {state : σ} {result : Unit × σ}
    (haccepted : answer (RsaPrivateValidation.validateWithRng estimate rsaDecryptAndCheck source key
      bits state) = some (.ok result)) (hprimes : ∀ prime ∈ key.primes, prime.Prime)
    {checks : PublicKeyChecks} (hchecks : checks key.n key.e = true) :
    ((∃ tape rest, importPublic estimate checks readTape key.n key.e tape =
      (.ok ⟨key.n, key.e⟩, rest)) ↔ ∀ p ∈ key.primes, ∀ q ∈ key.primes, q ≠ 2 * p - 1) ∧
    (bits % 2 = 0 → ∃ tape rest, importPublic estimate checks readTape key.n key.e tape =
      (.ok ⟨key.n, key.e⟩, rest)) := by
  obtain ⟨p, q, hvalidated⟩ := isValidated_of_validateWithRng haccepted
  have hpair := hvalidated.primes_eq
  rw [hpair] at hprimes
  have hp : p.Prime := hprimes p (by simp)
  have hq : q.Prime := hprimes q (by simp)
  obtain ⟨hpLarge, hqLarge⟩ := hvalidated.lt_factor
  have himported := hvalidated.importPublic_iff hp hq estimate hchecks
  refine ⟨himported.trans ?_, fun heven ↦ himported.mpr ?_⟩
  · rw [hpair]
    simp only [List.forall_mem_cons, List.not_mem_nil, false_imp_iff, implies_true, and_true]
    constructor
    · rintro ⟨hleft, hright⟩
      exact ⟨⟨by omega, hleft⟩, hright, by omega⟩
    · rintro ⟨⟨-, hleft⟩, hright, -⟩
      exact ⟨hleft, hright⟩
  · have hleft := (hvalidated.balanced.lt_mul (by omega)).2 heven
    have hright := (hvalidated.balanced.symm.lt_mul (by omega)).2 heven
    omega

/-- The public half of a 512-bit key. -/
theorem importPublic_of_accepted_prothKey :
    ∃ tape rest, importPublic (fun _ ↦ 14) (fun _ _ ↦ true) readTape prothKey.n prothKey.e tape =
      (.ok ⟨prothKey.n, prothKey.e⟩, rest) := by
  have haccepted : answer (RsaPrivateValidation.validateWithRng (fun _ ↦ 14)
      (fun key ciphertext ↦ some (ModularPower.modpow ciphertext key.d key.n)) twoSource prothKey 512
      ()) = some (.ok ((), ())) := by
    decide +kernel
  exact (importPublic_of_accepted haccepted prime_of_mem_prothKey_primes rfl).2 rfl

end

end SoftwareKeyCore.RsaKeys
