import SoftwareKeyCore.Foundation.ExponentInverse
import SoftwareKeyCore.Foundation.PanickingResult
import SoftwareKeyCore.Foundation.PrimalityCertificate
import SoftwareKeyCore.RsaValidation.PublicKey

/-!
# Private RSA validation

`rsa_private_validation.rs`: `validate_rsa_private_key` and the primality test it runs on the two
factors. Every subtraction of unsigned numbers, every remainder and every index panics where the
source's would. The random source of the bases is a state with an operation that fills a buffer or
fails; the blinded decryption of the third-party RSA implementation is a parameter, one outcome of
it for each key and ciphertext.

`safe_validateWithRng` says that the validation never panics and that a key it accepts is
admissible (`IsAdmissible`): its modulus is the product of two odd factors of half its width that
are far apart, and its private exponent is the canonical inverse of the public one.
`IsAdmissible.pow_pow_mod` is that the exponents of an admissible key with prime factors undo each
other on every residue.
-/

set_option autoImplicit false
set_option relaxedAutoImplicit false

namespace SoftwareKeyCore.RsaPrivateValidation

open ByteString ModularPower Panicking RsaValidation

/-- The numbers of a private key, `PrivateKeyParts` and `PublicKeyParts`. -/
structure PrivateKeyParts where
  n : ℕ
  e : ℕ
  d : ℕ
  primes : List ℕ
  deriving DecidableEq

/-! ### The primality test -/

/-- `BigUint::modpow`, which panics when the modulus is zero. -/
def checkedModpow (base exponent modulus : ℕ) : Panicking RsaPrivateValidationError ℕ :=
  expect (if modulus = 0 then none else some (modpow base exponent modulus))

/-- `BigUint::trailing_zeros`, which zero has none of. -/
def trailingZerosOf (value : ℕ) : Option ℕ :=
  if value = 0 then none else some (trailingZeros value)

section

variable {σ : Type} (source : RandomSource σ)

/-- The rejection sampling of a base with a number of attempts left. -/
def sampleBase (n upper : ℕ) :
    (attempts : ℕ) → (state : σ) → Panicking RsaPrivateValidationError (ℕ × σ)
  | 0, _ => throw .randomnessUnavailable
  | attempts + 1, state =>
    match source (Digest.divCeil (Nat.size n) 8) state with
    | (none, _) => throw .randomnessUnavailable
    | (some bytes, state) =>
      let base := maskedNumber (Nat.size n) bytes.toList
      if 1 < base ∧ base < upper then pure (base, state) else sampleBase n upper attempts state

/-- The squarings of a round with a number of them left: whether the next round follows. -/
def squarings (n upper : ℕ) : (remaining : ℕ) → (z : ℕ) → Bool
  | 0, _ => false
  | remaining + 1, z =>
    let square := z * z % n
    if square = upper then true
    else if square = 1 then false
    else squarings n upper remaining square

/-- The rounds of `probable_prime` with a number of them left. -/
def primalityRounds (n upper a oddPart : ℕ) :
    (rounds : ℕ) → (state : σ) → Panicking RsaPrivateValidationError (Bool × σ)
  | 0, state => pure (true, state)
  | rounds + 1, state => do
    let (base, state) ← sampleBase source n upper 128 state
    let z ← checkedModpow base oddPart n
    if z = 1 ∨ z = upper ∨ squarings n upper (a - 1) z = true then
      primalityRounds n upper a oddPart rounds state
    else return (false, state)

/-- `probable_prime`. -/
def probablePrime (n rounds : ℕ) (state : σ) : Panicking RsaPrivateValidationError (Bool × σ) :=
  if n ≤ 3 then return (decide (n = 2 ∨ n = 3), state)
  else if n % 2 = 0 then return (false, state)
  else do
    let upper ← checkedSub n 1
    let a ← expect (trailingZerosOf upper)
    primalityRounds source n upper a (upper >>> a) rounds state

end

/-! ### Validation -/

/-- `if p > q { p - q } else { q - p }`. -/
def checkedDifference (p q : ℕ) : Panicking RsaPrivateValidationError ℕ :=
  if q < p then checkedSub p q else checkedSub q p

/-- The checks of the factors, steps 5(a) to 5(d) of the source. -/
def checkFactors (n bits p q : ℕ) : Panicking RsaPrivateValidationError Unit := do
  let pBits := Nat.size p
  let qBits := Nat.size q
  throwIf .invalidPrivateKey
    (pBits + qBits ≠ bits ∨ 1 < Nat.dist pBits qBits ∨ p % 2 = 0 ∨ q % 2 = 0)
  let pShift ← checkedSub (2 * pBits) 1
  throwIf .invalidPrivateKey (p * p < 1 <<< pShift)
  let qShift ← checkedSub (2 * qBits) 1
  throwIf .invalidPrivateKey (q * q < 1 <<< qShift)
  throwIf .invalidPrivateKey (p * q ≠ n)
  let difference ← checkedDifference p q
  let separation ← checkedSub (bits / 2) 100
  throwIf .invalidPrivateKey (difference ≤ 1 <<< separation)

/-- The checks of the exponents, step 6 of the source and the condition before it. -/
def checkExponents (bits e d p q : ℕ) : Panicking RsaPrivateValidationError Unit := do
  let pm1 ← checkedSub p 1
  let qm1 ← checkedSub q 1
  throwIf .invalidPrivateKey (Nat.gcd pm1 e ≠ 1 ∨ Nat.gcd qm1 e ≠ 1)
  let lambda := Nat.lcm pm1 qm1
  throwIf .invalidPrivateKey (d ≤ 1 <<< (bits / 2) ∨ lambda ≤ d)
  let residue ← checkedMod (d * e) lambda
  throwIf .invalidPrivateKey (residue ≠ 1)

section

variable {σ : Type} (estimate : ℕ → ℕ) (rsaDecryptAndCheck : PrivateKeyParts → ℕ → Option ℕ)

/-- The pair-wise consistency test of §6.4.1.1. -/
def checkPairwise (key : PrivateKeyParts) : Panicking RsaPrivateValidationError Unit := do
  let m := 2
  let ciphertext ← checkedModpow m key.e key.n
  let recovered ← Panicking.orError .invalidPrivateKey (rsaDecryptAndCheck key ciphertext)
  throwIf .invalidPrivateKey (recovered ≠ m)

/-- `validate_with_rng`. -/
def validateWithRng (source : RandomSource σ) (key : PrivateKeyParts) (bits : ℕ) (state : σ) :
    Panicking RsaPrivateValidationError (Unit × σ) := do
  let strength ← Panicking.orError .invalidPrivateKey (validationStrength estimate bits)
  throwIf .invalidPrivateKey (Nat.size key.n ≠ bits ∨ key.e < 3 ∨ key.e % 2 = 0 ∨
    256 < Nat.size key.e ∨ key.primes.length ≠ 2)
  let p ← expect key.primes[0]?
  let q ← expect key.primes[1]?
  checkFactors key.n bits p q
  checkExponents bits key.e key.d p q
  let rounds := Digest.divCeil strength 2 + 1
  let (pPrime, state) ← probablePrime source p rounds state
  throwIf .invalidPrivateKey (pPrime = false)
  let (qPrime, state) ← probablePrime source q rounds state
  throwIf .invalidPrivateKey (qPrime = false)
  checkPairwise rsaDecryptAndCheck key
  return ((), state)

/-- `validate_rsa_private_key`, for the operating system's random source. -/
def validateRsaPrivateKey (osRng : RandomSource σ) (key : PrivateKeyParts) (bits : ℕ) (state : σ) :
    Panicking RsaPrivateValidationError (Unit × σ) :=
  validateWithRng estimate rsaDecryptAndCheck osRng key bits state

end

/-! ### The primality test does not panic -/

section

variable {σ : Type} {source : RandomSource σ}

theorem safe_checkedModpow {modulus : ℕ} (hmodulus : modulus ≠ 0) (base exponent : ℕ) :
    Safe (checkedModpow base exponent modulus) fun power ↦
      power = modpow base exponent modulus :=
  safe_expect (if_neg hmodulus)

/-- A sampled base is neither one nor minus one. -/
theorem safe_sampleBase (source : RandomSource σ) (n upper attempts : ℕ) (state : σ) :
    Safe (sampleBase source n upper attempts state) fun sampled ↦
      1 < sampled.1 ∧ sampled.1 < upper := by
  induction attempts generalizing state with
  | zero => exact safe_throw _ _
  | succ attempts ih =>
    rw [sampleBase]
    split
    · exact safe_throw _ _
    · dsimp only
      split_ifs with hrange
      · exact safe_pure hrange
      · exact ih _

theorem safe_primalityRounds (source : RandomSource σ) {n : ℕ} (hn : n ≠ 0)
    (upper a oddPart rounds : ℕ) (state : σ) :
    Safe (primalityRounds source n upper a oddPart rounds state) fun _ ↦ True := by
  induction rounds generalizing state with
  | zero => exact safe_pure trivial
  | succ rounds ih =>
    rw [primalityRounds]
    refine (safe_sampleBase source n upper 128 state).bind fun sampled _ ↦ ?_
    refine (safe_checkedModpow hn sampled.1 oddPart).bind fun z _ ↦ ?_
    split_ifs with hnext
    · exact ih _
    · exact safe_pure trivial

theorem safe_probablePrime (source : RandomSource σ) (n rounds : ℕ) (state : σ) :
    Safe (probablePrime source n rounds state) fun _ ↦ True := by
  unfold probablePrime
  split_ifs with hsmall heven
  · exact safe_pure trivial
  · exact safe_pure trivial
  · refine (safe_checkedSub (by omega)).bind fun upper hupper ↦ ?_
    have hzeros : trailingZerosOf upper = some (trailingZeros upper) := if_neg (by omega)
    refine (safe_expect hzeros).bind fun a _ ↦ ?_
    exact safe_primalityRounds source (by omega) _ _ _ _ _

end

/-! ### What the checks establish -/

/-- Two odd factors of a modulus that are far apart. -/
structure IsFactorPair (n bits p q : ℕ) : Prop where
  bits_add : Nat.size p + Nat.size q = bits
  odd_left : p % 2 = 1
  odd_right : q % 2 = 1
  mul_eq : p * q = n
  separated : 2 ^ (bits / 2 - 100) < Nat.dist p q

/-- A private exponent that is the canonical inverse of the public one. -/
structure IsExponentPair (bits e d p q : ℕ) : Prop where
  coprime_left : (p - 1).Coprime e
  coprime_right : (q - 1).Coprime e
  lower : 2 ^ (bits / 2) < d
  lt_lcm : d < Nat.lcm (p - 1) (q - 1)
  mul_mod : d * e % Nat.lcm (p - 1) (q - 1) = 1

/-- What an accepted key satisfies. -/
def IsAdmissible (key : PrivateKeyParts) (bits : ℕ) : Prop :=
  ∃ p q, key.primes = [p, q] ∧ Nat.size key.n = bits ∧ IsFactorPair key.n bits p q ∧
    IsExponentPair bits key.e key.d p q

/-- The comparison protects the subtraction. -/
theorem safe_checkedDifference (p q : ℕ) :
    Safe (checkedDifference p q) fun difference ↦ difference = Nat.dist p q := by
  unfold checkedDifference
  split_ifs with hlt
  · refine (safe_checkedSub hlt.le).mono fun difference hvalue ↦ ?_
    rw [hvalue, Nat.dist_eq_sub_of_le_right hlt.le]
  · refine (safe_checkedSub (not_lt.mp hlt)).mono fun difference hvalue ↦ ?_
    rw [hvalue, Nat.dist_eq_sub_of_le (not_lt.mp hlt)]

/-- The checks of the factors do not panic: an even factor, and so a factor of no bits, is rejected
before its width is used, and the sizes with a strength are above the separation. -/
theorem safe_checkFactors {n bits : ℕ} (hbits : minRsaBits ≤ bits) (p q : ℕ) :
    Safe (checkFactors n bits p q) fun _ ↦ IsFactorPair n bits p q := by
  unfold checkFactors
  refine (safe_throwIf _ _).bind fun _ hshape ↦ ?_
  push Not at hshape
  obtain ⟨hadd, -, hp, hq⟩ := hshape
  have hpBits : 0 < Nat.size p := Nat.size_pos.mpr (by omega)
  have hqBits : 0 < Nat.size q := Nat.size_pos.mpr (by omega)
  refine (safe_checkedSub (by omega)).bind fun _ _ ↦ ?_
  refine (safe_throwIf _ _).bind fun _ _ ↦ ?_
  refine (safe_checkedSub (by omega)).bind fun _ _ ↦ ?_
  refine (safe_throwIf _ _).bind fun _ _ ↦ ?_
  refine (safe_throwIf _ _).bind fun _ hmul ↦ ?_
  refine (safe_checkedDifference p q).bind fun difference hdifference ↦ ?_
  have hhalf : 100 ≤ bits / 2 := by
    unfold minRsaBits at hbits
    omega
  refine (safe_checkedSub hhalf).bind fun separation hseparation ↦ ?_
  refine (safe_throwIf _ _).mono fun _ hfar ↦ ?_
  rw [hdifference, hseparation, Nat.one_shiftLeft, not_le] at hfar
  exact ⟨hadd, by omega, by omega, not_not.mp hmul, hfar⟩

/-- The checks of the exponents do not panic: the private exponent is below the least common
multiple before that is divided by. -/
theorem safe_checkExponents {bits e d p q : ℕ} (hp : p % 2 = 1) (hq : q % 2 = 1) :
    Safe (checkExponents bits e d p q) fun _ ↦ IsExponentPair bits e d p q := by
  unfold checkExponents
  refine (safe_checkedSub (by omega)).bind fun pm1 hpm1 ↦ ?_
  refine (safe_checkedSub (by omega)).bind fun qm1 hqm1 ↦ ?_
  refine (safe_throwIf _ _).bind fun _ hcoprime ↦ ?_
  refine (safe_throwIf _ _).bind fun _ hrange ↦ ?_
  push Not at hcoprime hrange
  refine (safe_checkedMod (by omega)).bind fun residue hresidue ↦ ?_
  refine (safe_throwIf _ _).mono fun _ hone ↦ ?_
  rw [Nat.one_shiftLeft] at hrange
  subst hpm1 hqm1
  exact ⟨hcoprime.1, hcoprime.2, hrange.1, hrange.2, hresidue ▸ not_not.mp hone⟩

section

variable {σ : Type} {estimate : ℕ → ℕ} {rsaDecryptAndCheck : PrivateKeyParts → ℕ → Option ℕ}
  {source : RandomSource σ} {key : PrivateKeyParts} {bits : ℕ}

theorem safe_checkPairwise (hn : key.n ≠ 0) :
    Safe (checkPairwise rsaDecryptAndCheck key) fun _ ↦ True := by
  unfold checkPairwise
  refine (safe_checkedModpow hn _ _).bind fun ciphertext _ ↦ ?_
  refine (safe_orError _ _).bind fun recovered _ ↦ ?_
  exact (safe_throwIf _ _).mono fun _ _ ↦ trivial

/-- The validation never panics, and a key it accepts is admissible. -/
theorem safe_validateWithRng (state : σ) :
    Safe (validateWithRng estimate rsaDecryptAndCheck source key bits state) fun _ ↦
      IsAdmissible key bits := by
  unfold validateWithRng
  refine (safe_orError _ _).bind fun strength hstrength ↦ ?_
  have hbits : minRsaBits ≤ bits :=
    ((isSome_validationStrength estimate bits).mp (by rw [hstrength]; rfl)).1
  refine (safe_throwIf _ _).bind fun _ hshape ↦ ?_
  push Not at hshape
  obtain ⟨hsize, -, -, -, hlength⟩ := hshape
  obtain ⟨p, q, hprimes⟩ := List.length_eq_two.mp hlength
  have hn : key.n ≠ 0 := by
    intro hzero
    rw [hzero, Nat.size_zero] at hsize
    unfold minRsaBits at hbits
    omega
  have hfirst : key.primes[0]? = some p := by rw [hprimes]; rfl
  have hsecond : key.primes[1]? = some q := by rw [hprimes]; rfl
  refine (safe_expect hfirst).bind fun _ hp ↦ ?_
  refine (safe_expect hsecond).bind fun _ hq ↦ ?_
  subst hp hq
  refine (safe_checkFactors hbits _ _).bind fun _ hfactors ↦ ?_
  refine (safe_checkExponents hfactors.odd_left hfactors.odd_right).bind fun _ hexponents ↦ ?_
  refine (safe_probablePrime _ _ _ _).bind fun _ _ ↦ ?_
  refine (safe_throwIf _ _).bind fun _ _ ↦ ?_
  refine (safe_probablePrime _ _ _ _).bind fun _ _ ↦ ?_
  refine (safe_throwIf _ _).bind fun _ _ ↦ ?_
  refine (safe_checkPairwise hn).bind fun _ _ ↦ ?_
  exact safe_pure ⟨_, _, hprimes, hsize, hfactors, hexponents⟩

/-- The exponents of an admissible key with prime factors undo each other on every residue. -/
theorem IsAdmissible.pow_pow_mod (hadmissible : IsAdmissible key bits)
    (hprimes : ∀ prime ∈ key.primes, prime.Prime) {m : ℕ} (hm : m < key.n) :
    (m ^ key.e) ^ key.d % key.n = m ∧ (m ^ key.d) ^ key.e % key.n = m := by
  obtain ⟨p, q, hpair, -, hfactors, hexponents⟩ := hadmissible
  rw [hpair] at hprimes
  have hp : p.Prime := hprimes p (by simp)
  have hq : q.Prime := hprimes q (by simp)
  have hne : p ≠ q := by
    intro hsame
    have hfar := hfactors.separated
    rw [hsame, Nat.dist_self] at hfar
    exact Nat.not_lt_zero _ hfar
  have hone : key.d * key.e ≡ 1 [MOD Nat.lcm (p - 1) (q - 1)] := by
    have hlarge : 1 < Nat.lcm (p - 1) (q - 1) :=
      (Nat.one_le_two_pow.trans_lt hexponents.lower).trans hexponents.lt_lcm
    rw [Nat.ModEq, hexponents.mul_mod, Nat.mod_eq_of_lt hlarge]
  have hzero : key.d * key.e ≠ 0 := by
    intro hproduct
    have hresidue := hexponents.mul_mod
    rw [hproduct, Nat.zero_mod] at hresidue
    exact Nat.zero_ne_one hresidue
  have hpower := ExponentInverse.pow_modEq_self_of_lcm hp hq hne hzero hone m
  rw [hfactors.mul_eq, Nat.ModEq, Nat.mod_eq_of_lt hm] at hpower
  rw [← pow_mul, ← pow_mul, mul_comm key.e]
  exact ⟨hpower, hpower⟩

end

/-- The exponents of a validated key with prime factors undo each other on every residue, and
validation panics on no key and no number of bits.

Assumes that the factors are prime, since their tests are probabilistic, and nothing of the
random source, the estimate of the strength or the blinded decryption. -/
theorem validateRsaPrivateKey_inverts (estimate : ℕ → ℕ)
    (rsaDecryptAndCheck : PrivateKeyParts → ℕ → Option ℕ) (σ : Type) (osRng : RandomSource σ)
    (key : PrivateKeyParts) (bits : ℕ) (state : σ) :
    (∀ state', answer (validateRsaPrivateKey estimate rsaDecryptAndCheck osRng key bits state) =
        some (.ok ((), state')) →
      (∀ prime ∈ key.primes, prime.Prime) → ∀ m < key.n,
        (m ^ key.e) ^ key.d % key.n = m ∧ (m ^ key.d) ^ key.e % key.n = m) ∧
    answer (validateRsaPrivateKey estimate rsaDecryptAndCheck osRng key bits state) ≠ none := by
  have hsafe : Safe (validateRsaPrivateKey estimate rsaDecryptAndCheck osRng key bits state) fun _ ↦
      IsAdmissible key bits := safe_validateWithRng state
  refine ⟨?_, hsafe.answer_ne_none⟩
  intro state' haccepted hprimes m hm
  exact (hsafe.of_answer_eq_ok haccepted).pow_pow_mod hprimes hm

/-- A 512-bit key with two prime factors of the form `k * 2 ^ m + 1`. -/
def prothKey : PrivateKeyParts where
  n := (467 * 2 ^ 247 + 1) * (757 * 2 ^ 246 + 1)
  e := 3
  d := 53300395306102583450449727928758255854661655871110138748261726094913335517162155
  primes := [467 * 2 ^ 247 + 1, 757 * 2 ^ 246 + 1]

/-- The factors of the key are prime. -/
theorem prime_of_mem_prothKey_primes : ∀ prime ∈ prothKey.primes, prime.Prime := by
  have hcheck : PrimalityCertificate.checkPratt [2, 467, 757]
      [⟨467 * 2 ^ 247 + 1, 3, 467 :: List.replicate 247 2⟩,
        ⟨757 * 2 ^ 246 + 1, 3, 757 :: List.replicate 246 2⟩] = true := by
    decide +kernel
  refine PrimalityCertificate.prime_of_mem_of_checkPratt hcheck ?_ rfl
  simp only [List.forall_mem_cons]
  norm_num

/-- The key is accepted, and its exponents undo each other on the residue of a factor. -/
theorem validateRsaPrivateKey_inverts_prothKey :
    ((467 * 2 ^ 247 + 1) ^ prothKey.e) ^ prothKey.d % prothKey.n = 467 * 2 ^ 247 + 1 ∧
      ((467 * 2 ^ 247 + 1) ^ prothKey.d) ^ prothKey.e % prothKey.n = 467 * 2 ^ 247 + 1 :=
  (validateRsaPrivateKey_inverts (fun _ ↦ 14)
    (fun key ciphertext ↦ some (modpow ciphertext key.d key.n)) Unit twoSource prothKey 512 ()).1 ()
    (by decide +kernel) prime_of_mem_prothKey_primes (467 * 2 ^ 247 + 1) (by decide +kernel)

end SoftwareKeyCore.RsaPrivateValidation
