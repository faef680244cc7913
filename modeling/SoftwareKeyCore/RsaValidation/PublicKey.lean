import SoftwareKeyCore.Foundation.MaskedBytes
import SoftwareKeyCore.Foundation.ModularPower
import SoftwareKeyCore.Foundation.PrimePowers
import SoftwareKeyCore.RsaValidation.Strength
import SoftwareKeyCore.Digest

/-!
# Public RSA validation

`rsa_public_validation.rs`. The random source is a state with an operation that fills a buffer or
fails, so a run against it stands for a run against any sequence of bytes and failures. Big
integers are natural numbers.

A round of the enhanced Miller–Rabin test squares the residue of the base until it meets one or
minus one. `roundOf_eq_compositeNotPrimePower` says what the verdict that accepts a modulus
rests on: a square root of one that is neither one nor minus one, or a residue of the full power
that differs from one by a unit. An odd prime power has neither (`roundOf_primePow_ne`).
`validateWithRng_sound` concludes for every run: an accepted modulus has two distinct prime
factors.
-/

set_option autoImplicit false
set_option relaxedAutoImplicit false

namespace SoftwareKeyCore.RsaValidation

open ByteString MaskedBytes ModularPower

/-- `RsaPublicValidationError`. -/
inductive RsaPublicValidationError
  | invalidPublicKey
  | randomnessUnavailable
  deriving DecidableEq, Repr

/-- `RngCore::try_fill_bytes` of a random source with a state. -/
abbrev RandomSource (σ : Type) :=
  (length : ℕ) → σ → Option (List.Vector UInt8 length) × σ

/-- `MAX_ROUNDS`. -/
def maxRounds : ℕ := 5

/-- `MAX_BASE_ATTEMPTS`. -/
def maxBaseAttempts : ℕ := 128

/-! ### The product of the small primes -/

/-- `(start..stop).step_by(2)`. -/
def oddsFrom (start stop : ℕ) : List ℕ :=
  List.range' start (Digest.divCeil (stop - start) 2) 2

/-- The test of a candidate by all smaller odd divisors. -/
def passesTrialDivision (candidate : ℕ) : Bool :=
  (oddsFrom 3 candidate).all fun divisor ↦ decide (candidate % divisor ≠ 0)

/-- `small_factors`. -/
def smallFactors : ℕ :=
  (oddsFrom 3 752).foldl
    (fun product candidate ↦
      if passesTrialDivision candidate then product * candidate else product) 1

/-! ### Random bases -/

/-- The number of at most `bits` bits in a buffer, whose other bits the mask of the first byte
clears; the buffer of a modulus is never empty. -/
def maskedNumber (bits : ℕ) (bytes : ByteString) : ℕ :=
  fromBeBytes (clearTop (topMask ((8 - bits % 8) % 8)) bytes)

/-- The loop of `random_base` with a number of attempts left. -/
def randomBaseLoop {σ : Type} (source : RandomSource σ) (n : ℕ) :
    (attempts : ℕ) → (state : σ) → Except RsaPublicValidationError ℕ × σ
  | 0, state => (.error .randomnessUnavailable, state)
  | attempts + 1, state =>
    match source (Digest.divCeil (Nat.size n) 8) state with
    | (none, state) => (.error .randomnessUnavailable, state)
    | (some bytes, state) =>
      let b := maskedNumber (Nat.size n) bytes.toList
      if 1 < b ∧ b < n - 1 then (.ok b, state) else randomBaseLoop source n attempts state

/-- `random_base`. -/
def randomBase {σ : Type} (source : RandomSource σ) (n : ℕ) (state : σ) :
    Except RsaPublicValidationError ℕ × σ :=
  randomBaseLoop source n maxBaseAttempts state

/-! ### The enhanced Miller–Rabin round -/

/-- `Round`. -/
inductive Round
  | probablyPrime
  | compositeWithFactor
  | compositeNotPrimePower
  deriving DecidableEq, Repr

/-- `classify_composite`. The subtraction does not underflow: `x` is a unit modulo `n`. -/
def classifyComposite (n x : ℕ) : Round :=
  if 1 < Nat.gcd (x - 1) n then .compositeWithFactor else .compositeNotPrimePower

/-- The squaring loop of `enhanced_round` with a number of squarings left, and what follows it. -/
def squaringLoop (n upper : ℕ) : (remaining : ℕ) → (z : ℕ) → Round
  | 0, z =>
    let x := z
    let z := x * x % n
    classifyComposite n (if z ≠ 1 then z else x)
  | remaining + 1, z =>
    let x := z
    let z := x * x % n
    if z = upper then .probablyPrime
    else if z = 1 then classifyComposite n x
    else squaringLoop n upper remaining z

/-- `enhanced_round`. -/
def enhancedRound (n upper a m b : ℕ) : Round :=
  if 1 < Nat.gcd b n then .compositeWithFactor
  else
    let z := modpow b m n
    if z = 1 ∨ z = upper then .probablyPrime else squaringLoop n upper (a - 1) z

/-- `BigUint::trailing_zeros` of a positive number. -/
def trailingZeros (value : ℕ) : ℕ :=
  padicValNat 2 value

/-- The round on a modulus and a base, with the values `validate_with_rng` passes. -/
def roundOf (n b : ℕ) : Round :=
  enhancedRound n (n - 1) (trailingZeros (n - 1)) ((n - 1) >>> trailingZeros (n - 1)) b

/-! ### Validation -/

/-- The loop of `validate_with_rng` with a number of rounds left. -/
def roundLoop {σ : Type} (source : RandomSource σ) (n : ℕ) :
    (rounds : ℕ) → (state : σ) → Except RsaPublicValidationError Unit × σ
  | 0, state => (.error .invalidPublicKey, state)
  | rounds + 1, state =>
    match randomBase source n state with
    | (.error error, state) => (.error error, state)
    | (.ok b, state) =>
      match roundOf n b with
      | .compositeNotPrimePower => (.ok (), state)
      | .compositeWithFactor => (.error .invalidPublicKey, state)
      | .probablyPrime => roundLoop source n rounds state

/-- `validate_with_rng`. -/
def validateWithRng {σ : Type} (estimate : ℕ → ℕ) (source : RandomSource σ)
    (modulus exponent : ByteString) (expectedBits : ℕ) (state : σ) :
    Except RsaPublicValidationError Unit × σ :=
  if (validationStrength estimate expectedBits).isNone ∨
      modulus.length ≠ Digest.divCeil expectedBits 8 ∨
      modulus.getLast?.all (fun byte ↦ byte &&& 1 = 0) ∨ exponent = [] ∨ 32 < exponent.length then
    (.error .invalidPublicKey, state)
  else
    let n := fromBeBytes modulus
    let e := fromBeBytes exponent
    if Nat.size n ≠ expectedBits ∨ e < 3 ∨ n ≤ e ∨ 256 < Nat.size e ∨ e % 2 = 0 then
      (.error .invalidPublicKey, state)
    else if Nat.gcd n smallFactors ≠ 1 then (.error .invalidPublicKey, state)
    else roundLoop source n maxRounds state

/-! ### The small primes divide their product -/

theorem mem_oddsFrom_three {value stop : ℕ} (hodd : value % 2 = 1) (hlower : 3 ≤ value)
    (hupper : value < stop) : value ∈ oddsFrom 3 stop := by
  refine List.mem_range'.mpr ⟨(value - 3) / 2, ?_, by omega⟩
  unfold Digest.divCeil
  omega

theorem lt_of_mem_oddsFrom_three {value stop : ℕ} (hmem : value ∈ oddsFrom 3 stop) :
    3 ≤ value ∧ value < stop := by
  obtain ⟨index, hindex, rfl⟩ := List.mem_range'.mp hmem
  unfold Digest.divCeil at hindex
  omega

/-- An odd prime passes the trial division. -/
theorem passesTrialDivision_of_prime {candidate : ℕ} (hprime : candidate.Prime) :
    passesTrialDivision candidate = true := by
  refine List.all_eq_true.mpr fun divisor hdivisor ↦ decide_eq_true fun hzero ↦ ?_
  obtain ⟨hlower, hupper⟩ := lt_of_mem_oddsFrom_three hdivisor
  rcases (Nat.dvd_prime hprime).mp (Nat.dvd_of_mod_eq_zero hzero) with hone | hsame
  · omega
  · omega

/-- A candidate that passes divides the product of the candidates that pass. -/
theorem dvd_foldl_of_mem (test : ℕ → Bool) (candidates : List ℕ) {candidate : ℕ}
    (hmem : candidate ∈ candidates) (htest : test candidate = true) (start : ℕ) :
    candidate ∣ candidates.foldl
      (fun product value ↦ if test value then product * value else product) start := by
  have hstart : ∀ (values : List ℕ) (product : ℕ), product ∣ values.foldl
      (fun product value ↦ if test value then product * value else product) product := by
    intro values
    induction values with
    | nil => exact fun product ↦ dvd_rfl
    | cons value values ih =>
      intro product
      rw [List.foldl_cons]
      split_ifs with hvalue
      · exact (Dvd.intro _ rfl).trans (ih _)
      · exact ih product
  induction candidates generalizing start with
  | nil => exact absurd hmem (List.not_mem_nil)
  | cons value values ih =>
    rw [List.foldl_cons]
    rcases List.mem_cons.mp hmem with rfl | hmem
    · rw [if_pos htest]
      exact (Dvd.intro_left _ rfl).trans (hstart values _)
    · exact ih hmem _

/-- Every odd prime below 752 divides the product. -/
theorem dvd_smallFactors {prime : ℕ} (hprime : prime.Prime) (hodd : prime ≠ 2)
    (hbound : prime < 752) : prime ∣ smallFactors := by
  have htwo := hprime.two_le
  have hmod := (hprime.mod_two_eq_one_iff_ne_two).mpr hodd
  exact dvd_foldl_of_mem passesTrialDivision _ (mem_oddsFrom_three hmod (by omega) hbound)
    (passesTrialDivision_of_prime hprime) 1

/-- A product of some of the candidates is coprime to what all of them are coprime to. -/
theorem coprime_foldl {candidates : List ℕ} {test : ℕ → Bool} {value start : ℕ}
    (hcandidates : ∀ candidate ∈ candidates, Nat.Coprime value candidate)
    (hstart : Nat.Coprime value start) :
    Nat.Coprime value (candidates.foldl
      (fun product candidate ↦ if test candidate then product * candidate else product)
      start) := by
  induction candidates generalizing start with
  | nil => exact hstart
  | cons candidate candidates ih =>
    rw [List.forall_mem_cons] at hcandidates
    rw [List.foldl_cons]
    apply ih hcandidates.2
    split_ifs
    · exact hstart.mul_right hcandidates.1
    · exact hstart

/-- The product need not be computed to see that a number is coprime to it. -/
theorem gcd_smallFactors_eq_one {value : ℕ}
    (hcoprime : ∀ candidate ∈ oddsFrom 3 752, Nat.gcd value candidate = 1) :
    Nat.gcd value smallFactors = 1 :=
  coprime_foldl hcoprime (Nat.coprime_one_right value)

/-! ### What a round's verdict rests on -/

/-- The verdict that the residue `x` is no witness of a factor. -/
theorem classifyComposite_eq_compositeNotPrimePower {n x : ℕ}
    (hround : classifyComposite n x = .compositeNotPrimePower) : Nat.gcd (x - 1) n ≤ 1 := by
  unfold classifyComposite at hround
  split_ifs at hround with hgcd
  exact not_lt.mp hgcd

/-- A square root of one modulo `n` other than one and minus one. -/
def HasNontrivialRoot (n upper : ℕ) : Prop :=
  ∃ x < n, x ≠ 1 ∧ x ≠ upper ∧ x * x % n = 1

/-- The squaring loop accepts on a nontrivial root of one, or because the last square less one is
a unit. -/
theorem squaringLoop_eq_compositeNotPrimePower {n upper remaining z : ℕ} (hlt : z < n)
    (hone : z ≠ 1) (hupper : z ≠ upper)
    (hround : squaringLoop n upper remaining z = .compositeNotPrimePower) :
    HasNontrivialRoot n upper ∨ Nat.gcd (z ^ 2 ^ (remaining + 1) % n - 1) n ≤ 1 := by
  induction remaining generalizing z with
  | zero =>
    rw [squaringLoop] at hround
    have hgcd := classifyComposite_eq_compositeNotPrimePower hround
    by_cases hsquare : z * z % n = 1
    · exact Or.inl ⟨z, hlt, hone, hupper, hsquare⟩
    · rw [if_pos hsquare] at hgcd
      rw [zero_add, pow_one, sq]
      exact Or.inr hgcd
  | succ remaining ih =>
    rw [squaringLoop] at hround
    split_ifs at hround with hsquareUpper hsquare
    · exact Or.inl ⟨z, hlt, hone, hupper, hsquare⟩
    · have hpow : (z * z % n) ^ 2 ^ (remaining + 1) % n = z ^ 2 ^ (remaining + 1 + 1) % n := by
        rw [← Nat.pow_mod, ← sq, ← pow_mul, ← pow_succ']
      rcases ih (Nat.mod_lt _ (by omega)) hsquare hsquareUpper hround with hroot | hgcd
      · exact Or.inl hroot
      · rw [hpow] at hgcd
        exact Or.inr hgcd

/-- An even number is its odd part times a positive power of two. -/
theorem shiftRight_trailingZeros_mul {value : ℕ} (hpositive : value ≠ 0) (heven : 2 ∣ value) :
    1 ≤ trailingZeros value ∧
      (value >>> trailingZeros value) * 2 ^ trailingZeros value = value := by
  refine ⟨one_le_padicValNat_of_dvd hpositive heven, ?_⟩
  rw [Nat.shiftRight_eq_div_pow, trailingZeros]
  exact Nat.div_mul_cancel pow_padicValNat_dvd

/-- A round accepts an odd modulus on a base prime to it, by a nontrivial root of one or by the
full power of the base. -/
theorem roundOf_eq_compositeNotPrimePower {n b : ℕ} (hodd : n % 2 = 1) (hn : 1 < n)
    (hround : roundOf n b = .compositeNotPrimePower) :
    b.Coprime n ∧ (HasNontrivialRoot n (n - 1) ∨ Nat.gcd (b ^ (n - 1) % n - 1) n ≤ 1) := by
  obtain ⟨hzeros, hsplit⟩ := shiftRight_trailingZeros_mul (by omega : n - 1 ≠ 0) (by omega)
  unfold roundOf enhancedRound at hround
  simp only [modpow_eq] at hround
  split_ifs at hround with hgcd htrivial
  push Not at htrivial
  have hcoprime : Nat.gcd b n = 1 := by
    have hpositive := Nat.gcd_pos_of_pos_right b (by omega : 0 < n)
    omega
  refine ⟨hcoprime, ?_⟩
  have hloop := squaringLoop_eq_compositeNotPrimePower (Nat.mod_lt _ (by omega)) htrivial.1
    htrivial.2 hround
  rwa [Nat.sub_add_cancel hzeros, ← Nat.pow_mod, ← pow_mul, hsplit] at hloop

/-- No base makes a round accept an odd prime power. -/
theorem roundOf_primePow_ne {p k : ℕ} (hprime : p.Prime) (hodd : p ≠ 2) (hk : k ≠ 0) (b : ℕ) :
    roundOf (p ^ k) b ≠ .compositeNotPrimePower := by
  intro hround
  have hone : 1 < p ^ k := Nat.one_lt_pow hk hprime.one_lt
  have hmod : p ^ k % 2 = 1 := by
    rw [Nat.pow_mod, (hprime.mod_two_eq_one_iff_ne_two).mpr hodd, one_pow, Nat.one_mod]
  obtain ⟨hcoprime, hverdict⟩ := roundOf_eq_compositeNotPrimePower hmod hone hround
  rcases hverdict with ⟨x, hlt, hxone, hxupper, hsquare⟩ | hgcd
  · rcases PrimePowers.eq_one_or_eq_sub_one_of_mul_self hprime hodd hlt hsquare with hx | hx
    · exact hxone hx
    · exact hxupper hx
  · have hbase : b.Coprime p := hcoprime.coprime_dvd_right (dvd_pow_self p hk)
    exact absurd (PrimePowers.one_lt_gcd_pow_sub_one hprime hk hbase) (not_lt.mpr hgcd)

/-! ### Runs -/

variable {σ : Type}

/-- The rounds accept only when some base makes a round accept. -/
theorem exists_roundOf_of_roundLoop {source : RandomSource σ} {n rounds : ℕ} {state state' : σ}
    (haccepted : roundLoop source n rounds state = (.ok (), state')) :
    ∃ b, roundOf n b = .compositeNotPrimePower := by
  induction rounds generalizing state with
  | zero => simp [roundLoop] at haccepted
  | succ rounds ih =>
    rw [roundLoop] at haccepted
    rcases hbase : randomBase source n state with ⟨error | b, next⟩
    · rw [hbase] at haccepted
      simp at haccepted
    · rw [hbase] at haccepted
      dsimp only at haccepted
      cases hround : roundOf n b with
      | compositeNotPrimePower => exact ⟨b, hround⟩
      | compositeWithFactor =>
        rw [hround] at haccepted
        simp at haccepted
      | probablyPrime =>
        rw [hround] at haccepted
        exact ih haccepted

/-- What an accepted public key satisfies. -/
structure IsPlausiblePublicKey (n e expectedBits : ℕ) : Prop where
  bits_modulus : Nat.size n = expectedBits
  odd_modulus : Odd n
  no_small_factor : ∀ p : ℕ, p.Prime → p < 752 → ¬ p ∣ n
  not_prime : ¬ n.Prime
  not_primePow : ¬ IsPrimePow n
  two_primes : ∃ p q : ℕ, p.Prime ∧ q.Prime ∧ p ≠ q ∧ p ∣ n ∧ q ∣ n
  le_exponent : 3 ≤ e
  exponent_lt : e < n
  odd_exponent : Odd e
  bits_exponent : Nat.size e ≤ 256

/-- The parity of a byte string is the parity of its last byte. -/
theorem fromBeBytes_mod_two {bytes : ByteString}
    (hlast : ¬ bytes.getLast?.all (fun byte ↦ byte &&& 1 = 0)) : fromBeBytes bytes % 2 = 1 := by
  rcases List.eq_nil_or_concat bytes with rfl | ⟨front, byte, rfl⟩
  · simp at hlast
  · rw [List.concat_eq_append, List.getLast?_concat, Option.all_some, decide_eq_true_eq] at hlast
    rw [List.concat_eq_append, fromBeBytes_append, fromBeBytes_cons]
    have hbit : byte.toNat % 2 = 1 := by
      by_contra heven
      refine hlast (UInt8.toNat_inj.mp ?_)
      rw [UInt8.toNat_and]
      simpa [Nat.and_one_is_mod] using heven
    simp only [List.length_singleton, List.length_nil, fromBeBytes_nil]
    omega

/-- The shape of an accepting run: the inputs pass the cheap checks and the rounds accept. -/
theorem validateWithRng_eq_ok {estimate : ℕ → ℕ} {source : RandomSource σ}
    {modulus exponent : ByteString} {expectedBits : ℕ} {state state' : σ}
    (haccepted : validateWithRng estimate source modulus exponent expectedBits state =
      (.ok (), state')) :
    (minRsaBits ≤ expectedBits ∧ fromBeBytes modulus % 2 = 1) ∧
      (Nat.size (fromBeBytes modulus) = expectedBits ∧ 3 ≤ fromBeBytes exponent ∧
        fromBeBytes exponent < fromBeBytes modulus ∧ Nat.size (fromBeBytes exponent) ≤ 256 ∧
        fromBeBytes exponent % 2 = 1) ∧
      (fromBeBytes modulus).Coprime smallFactors ∧
      roundLoop source (fromBeBytes modulus) maxRounds state = (.ok (), state') := by
  unfold validateWithRng at haccepted
  dsimp only at haccepted
  split_ifs at haccepted with hshape hnumbers hfactors
  · simp at haccepted
  · simp at haccepted
  · simp at haccepted
  push Not at hshape hnumbers hfactors
  obtain ⟨hstrength, -, hlast, -, -⟩ := hshape
  refine ⟨⟨?_, fromBeBytes_mod_two hlast⟩, ?_, hfactors, haccepted⟩
  · exact ((isSome_validationStrength estimate expectedBits).mp
      (by simpa [Option.isSome_iff_ne_none] using hstrength)).1
  · omega

/-- The modulus of an accepting run is odd, has no small prime factor and is no prime power. -/
theorem isPlausiblePublicKey_of_validateWithRng {estimate : ℕ → ℕ} {source : RandomSource σ}
    {modulus exponent : ByteString} {expectedBits : ℕ} {state state' : σ}
    (haccepted : validateWithRng estimate source modulus exponent expectedBits state =
      (.ok (), state')) :
    IsPlausiblePublicKey (fromBeBytes modulus) (fromBeBytes exponent) expectedBits := by
  obtain ⟨⟨-, hodd⟩, ⟨hbits, hlower, hupper, hexponentBits, hexponentOdd⟩, hcoprime, hrounds⟩ :=
    validateWithRng_eq_ok haccepted
  generalize fromBeBytes modulus = n at *
  generalize fromBeBytes exponent = e at *
  have hnoTwo : ∀ p : ℕ, p ∣ n → p ≠ 2 := by
    rintro p hdvd rfl
    omega
  have hnotPrimePow : ¬ IsPrimePow n := by
    rw [isPrimePow_nat_iff]
    rintro ⟨p, k, hprime, hk, rfl⟩
    obtain ⟨b, hround⟩ := exists_roundOf_of_roundLoop hrounds
    exact roundOf_primePow_ne hprime (hnoTwo p (dvd_pow_self p hk.ne')) hk.ne' b hround
  refine
    { bits_modulus := hbits
      odd_modulus := Nat.odd_iff.mpr hodd
      no_small_factor := ?_
      not_prime := fun hprime ↦ hnotPrimePow hprime.isPrimePow
      not_primePow := hnotPrimePow
      two_primes := ?_
      le_exponent := hlower
      exponent_lt := hupper
      odd_exponent := Nat.odd_iff.mpr hexponentOdd
      bits_exponent := hexponentBits }
  · intro p hprime hbound hdvd
    have hsmall := dvd_smallFactors hprime (hnoTwo p hdvd) hbound
    exact hprime.one_lt.ne' (Nat.eq_one_of_dvd_coprimes hcoprime hdvd hsmall)
  · obtain ⟨p, hp, q, hq, hne⟩ :=
      (Nat.not_isPrimePow_iff_nontrivial_of_two_le (by omega)).mp hnotPrimePow
    exact ⟨p, q, Nat.prime_of_mem_primeFactors hp, Nat.prime_of_mem_primeFactors hq, hne,
      Nat.dvd_of_mem_primeFactors hp, Nat.dvd_of_mem_primeFactors hq⟩

/-- An accepted public key is plausible, whatever the random source answers; and no base makes a
round accept an odd prime power.

Nothing is assumed of the random source, which may fail or repeat itself, nor of the estimate of
the strength. -/
theorem validateWithRng_sound :
    (∀ (σ : Type) (estimate : ℕ → ℕ) (source : RandomSource σ) (modulus exponent : ByteString)
      (expectedBits : ℕ) (state state' : σ),
      validateWithRng estimate source modulus exponent expectedBits state = (.ok (), state') →
        IsPlausiblePublicKey (fromBeBytes modulus) (fromBeBytes exponent) expectedBits) ∧
    ∀ p k b : ℕ, p.Prime → Odd p → 1 ≤ k → 1 < b → b < p ^ k - 1 →
      roundOf (p ^ k) b ≠ .compositeNotPrimePower := by
  refine ⟨?_, fun p k b hprime hodd hk _ _ ↦ roundOf_primePow_ne hprime ?_ (by omega) b⟩
  · intro σ estimate source modulus exponent expectedBits state state' haccepted
    exact isPlausiblePublicKey_of_validateWithRng haccepted
  · rintro rfl
    exact absurd hodd (by decide)

/-- The random source that fills every buffer with the big-endian encoding of two. -/
def twoSource : RandomSource Unit := fun length state ↦
  (some ⟨toBeBytes length 2, length_toBeBytes length 2⟩, state)

/-- A modulus that is coprime to the product of the small primes is only sized and tested. -/
theorem validateWithRng_of_coprime {σ : Type} {estimate : ℕ → ℕ} {source : RandomSource σ}
    {modulus exponent : ByteString} {expectedBits : ℕ} {state : σ}
    (hcoprime : Nat.gcd (fromBeBytes modulus) smallFactors = 1) :
    validateWithRng estimate source modulus exponent expectedBits state =
      if (validationStrength estimate expectedBits).isNone ∨
          modulus.length ≠ Digest.divCeil expectedBits 8 ∨
          modulus.getLast?.all (fun byte ↦ byte &&& 1 = 0) ∨ exponent = [] ∨
          32 < exponent.length then
        (.error .invalidPublicKey, state)
      else if Nat.size (fromBeBytes modulus) ≠ expectedBits ∨ fromBeBytes exponent < 3 ∨
          fromBeBytes modulus ≤ fromBeBytes exponent ∨ 256 < Nat.size (fromBeBytes exponent) ∨
          fromBeBytes exponent % 2 = 0 then
        (.error .invalidPublicKey, state)
      else roundLoop source (fromBeBytes modulus) maxRounds state := by
  unfold validateWithRng
  dsimp only
  rw [if_neg (not_not.mpr hcoprime)]

/-- A 512-bit modulus that the base two accepts. -/
theorem validateWithRng_two_pow :
    validateWithRng (fun _ ↦ 14) twoSource (toBeBytes 64 (2 ^ 511 + 35)) [3] 512 () =
      (.ok (), ()) := by
  have hcoprime : Nat.gcd (fromBeBytes (toBeBytes 64 (2 ^ 511 + 35))) smallFactors = 1 :=
    gcd_smallFactors_eq_one (by decide +kernel)
  rw [validateWithRng_of_coprime hcoprime]
  decide +kernel

/-- A 512-bit modulus that the base two accepts, and a square of a prime that no base does. -/
theorem validateWithRng_sound_at_two_pow :
    IsPlausiblePublicKey (fromBeBytes (toBeBytes 64 (2 ^ 511 + 35))) (fromBeBytes [3]) 512 ∧
      roundOf (3 ^ 2) 2 ≠ .compositeNotPrimePower :=
  ⟨validateWithRng_sound.1 Unit (fun _ ↦ 14) twoSource (toBeBytes 64 (2 ^ 511 + 35)) [3] 512 () ()
    validateWithRng_two_pow, validateWithRng_sound.2 3 2 2 Nat.prime_three (by decide) (by decide)
    (by decide) (by decide)⟩

end SoftwareKeyCore.RsaValidation
