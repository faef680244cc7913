import SoftwareKeyCore.Foundation.RandomTape
import SoftwareKeyCore.Foundation.StrongLiars
import SoftwareKeyCore.RsaValidation.PrimesPass
import SoftwareKeyCore.RsaValidation.RandomBases

/-!
# False primes

The error bound that `validate_with_rng` of `rsa_private_validation.rs` states beside its choice of
the number of rounds. The random source is a tape of bytes, and a chance is a part of the tapes of
a length, so a tape that ends too early counts as one on which nothing is accepted.

A base that a round on a composite number passes on is a strong liar, and at most every fourth base
is one (`four_mul_ncard_passesRound_le`); the bases are drawn without bias, and a draw leaves the
rest of the tape as random as it was. So `probable_prime` calls a composite number prime on at most
`4 ^ -rounds` of the tapes (`chance_probablePrime_composite_le`), and the validation accepts a key
that is not genuine on at most `2 ^ -(strength + 2)` of them (`chance_validateWithRng_le`).
-/

set_option autoImplicit false
set_option relaxedAutoImplicit false

namespace SoftwareKeyCore.RsaPrivateValidation

open ModularPower Panicking RandomTape RejectionSampling RsaValidation StrongLiars

/-! ### The bases that a round passes on -/

/-- The next round follows a round with the base. -/
def PassesRound (n base : ℕ) : Prop :=
  let z := modpow base ((n - 1) >>> trailingZeros (n - 1)) n
  z = 1 ∨ z = n - 1 ∨ squarings n (n - 1) (trailingZeros (n - 1) - 1) z = true

instance decidablePred_passesRound (n : ℕ) : DecidablePred (PassesRound n) := fun _ ↦
  inferInstanceAs (Decidable (_ ∨ _ ∨ _))

section

variable {n base : ℕ}

/-- What is left of a number without its factors two is odd. -/
theorem odd_shiftRight_trailingZeros {value : ℕ} (hpositive : value ≠ 0) :
    Odd (value >>> trailingZeros value) := by
  rw [Nat.shiftRight_eq_div_pow, trailingZeros, ← Nat.factorization_def value Nat.prime_two]
  exact Nat.odd_iff.mpr (Nat.not_even_iff.mp fun heven ↦
    Nat.not_dvd_ordCompl Nat.prime_two hpositive (even_iff_two_dvd.mp heven))

/-- A round that meets minus one meets it at a square. -/
theorem exists_pow_of_squarings {upper remaining z : ℕ}
    (hsquarings : squarings n upper remaining z = true) :
    ∃ count, 1 ≤ count ∧ count ≤ remaining ∧ z ^ 2 ^ count % n = upper := by
  induction remaining generalizing z with
  | zero => exact absurd hsquarings Bool.false_ne_true
  | succ remaining ih =>
    rw [squarings] at hsquarings
    split_ifs at hsquarings with hmet hone
    · exact ⟨1, le_rfl, by omega, by rw [pow_one, sq, hmet]⟩
    · obtain ⟨count, -, hcount, hpow⟩ := ih hsquarings
      exact ⟨count + 1, by omega, by omega, by rw [← mul_self_mod_pow_two_pow, hpow]⟩

/-- A residue that is one or minus one as a number is so as a residue. -/
theorem natCast_pow_eq (hn : 1 < n) (base exponent : ℕ) :
    (base ^ exponent % n = 1 → (base : ZMod n) ^ exponent = 1) ∧
      (base ^ exponent % n = n - 1 → (base : ZMod n) ^ exponent = -1) := by
  constructor
  · intro hone
    rw [← Nat.cast_pow, ← ZMod.natCast_mod, hone, Nat.cast_one]
  · intro hminus
    rw [← Nat.cast_pow, ← ZMod.natCast_mod, hminus, Nat.cast_sub hn.le, ZMod.natCast_self,
      Nat.cast_one, zero_sub]

/-- A base that a round on an odd number passes on is the residue of a strong liar. -/
theorem exists_isStrongLiar_of_passesRound (hodd : n % 2 = 1) (hn : 1 < n) (hlt : base < n)
    (hpasses : PassesRound n base) :
    ∃ unit : (ZMod n)ˣ, IsStrongLiar ((n - 1) >>> trailingZeros (n - 1)) (trailingZeros (n - 1))
      unit ∧ (unit : ZMod n).val = base := by
  obtain ⟨hzeros, hsplit⟩ := shiftRight_trailingZeros_mul (by omega : n - 1 ≠ 0) (by omega)
  generalize htrailing : trailingZeros (n - 1) = a at *
  generalize hpart : (n - 1) >>> a = m at *
  have hm : m ≠ 0 := by
    rintro rfl
    omega
  have hpower : (base : ZMod n) ^ m = 1 ∨ ∃ level < a, (base : ZMod n) ^ (m * 2 ^ level) = -1 := by
    unfold PassesRound at hpasses
    simp only [htrailing, hpart, modpow_eq] at hpasses
    rcases hpasses with hone | hminus | hsquarings
    · exact Or.inl ((natCast_pow_eq hn base _).1 hone)
    · refine Or.inr ⟨0, by omega, (natCast_pow_eq hn base _).2 ?_⟩
      rwa [pow_zero, mul_one]
    · obtain ⟨count, -, hcount, hmet⟩ := exists_pow_of_squarings hsquarings
      refine Or.inr ⟨count, by omega, (natCast_pow_eq hn base _).2 ?_⟩
      rwa [← Nat.pow_mod, ← pow_mul] at hmet
  have hunit : IsUnit (base : ZMod n) := by
    rcases hpower with hone | ⟨level, -, hminus⟩
    · exact (isUnit_pow_iff hm).mp (hone ▸ isUnit_one)
    · refine (isUnit_pow_iff (mul_ne_zero hm (pow_ne_zero level two_ne_zero))).mp ?_
      exact hminus ▸ isUnit_one.neg
  obtain ⟨unit, hvalue⟩ := hunit
  refine ⟨unit, ?_, by rw [hvalue, ZMod.val_cast_of_lt hlt]⟩
  rw [← hvalue] at hpower
  refine hpower.imp (fun hone ↦ Units.ext ?_) fun ⟨level, hlevel, hminus⟩ ↦
    ⟨level, hlevel, Units.ext ?_⟩
  · rwa [Units.val_pow_eq_pow_val]
  · rwa [Units.val_pow_eq_pow_val, Units.val_neg, Units.val_one]

/-- One and minus one are strong liars that are no bases. -/
theorem card_passesRound_add_two_le (hodd : n % 2 = 1) (hn : 1 < n) :
    ((Finset.Ioo 1 (n - 1)).filter (PassesRound n)).card + 2 ≤
      {unit : (ZMod n)ˣ | IsStrongLiar ((n - 1) >>> trailingZeros (n - 1)) (trailingZeros (n - 1))
        unit}.ncard := by
  have : NeZero n := ⟨by omega⟩
  obtain ⟨hzeros, hsplit⟩ := shiftRight_trailingZeros_mul (by omega : n - 1 ≠ 0) (by omega)
  have hpart : Odd ((n - 1) >>> trailingZeros (n - 1)) := odd_shiftRight_trailingZeros (by omega)
  have hpair : ({1, -1} : Set (ZMod n)ˣ) ⊆ {unit : (ZMod n)ˣ | IsStrongLiar
      ((n - 1) >>> trailingZeros (n - 1)) (trailingZeros (n - 1)) unit} := by
    rintro unit (rfl | rfl)
    · exact Or.inl (one_pow _)
    · exact isStrongLiar_neg_one hpart (by omega)
  rw [← Set.ncard_sdiff_add_ncard_of_subset hpair,
    Set.ncard_pair (neg_one_ne_one (by omega)).symm, ← Set.ncard_coe_finset]
  refine Nat.add_le_add_right (le_trans (Set.ncard_le_ncard ?_ (Set.toFinite _))
    (@Set.ncard_image_le _ _ _ (fun unit : (ZMod n)ˣ ↦ (unit : ZMod n).val) (Set.toFinite _))) 2
  intro base hbase
  obtain ⟨hrange, hpasses⟩ := Finset.mem_filter.mp hbase
  rw [Finset.mem_Ioo] at hrange
  obtain ⟨unit, hliar, hvalue⟩ := exists_isStrongLiar_of_passesRound hodd hn (by omega) hpasses
  refine ⟨unit, ⟨hliar, ?_⟩, hvalue⟩
  rintro (rfl | rfl)
  · change ZMod.val (1 : ZMod n) = base at hvalue
    rw [ZMod.val_one_eq_one_mod, Nat.mod_eq_of_lt hn] at hvalue
    omega
  · have hminus := (natCast_pow_eq hn (n - 1) 1).2
      (by rw [pow_one, Nat.mod_eq_of_lt (by omega)])
    rw [pow_one] at hminus
    change ZMod.val (-1 : ZMod n) = base at hvalue
    rw [← hminus, ZMod.val_cast_of_lt (by omega)] at hvalue
    omega

/-- At most every fourth base of an odd composite number passes. -/
theorem four_mul_card_passesRound_le (hodd : n % 2 = 1) (hn : 1 < n) (hcomposite : ¬ n.Prime) :
    4 * ((Finset.Ioo 1 (n - 1)).filter (PassesRound n)).card ≤ (Finset.Ioo 1 (n - 1)).card := by
  by_cases hnine : n = 9
  · subst hnine
    decide +kernel
  · obtain ⟨hzeros, hsplit⟩ := shiftRight_trailingZeros_mul (by omega : n - 1 ≠ 0) (by omega)
    have hpart : Odd ((n - 1) >>> trailingZeros (n - 1)) := odd_shiftRight_trailingZeros (by omega)
    have hliars := four_mul_ncard_isStrongLiar_le hn (Nat.odd_iff.mpr hodd) hcomposite hnine hpart
      (by omega) hsplit.symm
    have hpassing := card_passesRound_add_two_le hodd hn
    have htotient := Nat.totient_lt n hn
    rw [Nat.card_Ioo]
    omega

end

/-! ### The primality test -/

section

variable {n : ℕ} {follows : List UInt8 → Prop} {bound : ℚ}

/-- The rounds pass when the first draws a base that it passes on and the others pass. -/
theorem answer_primalityRounds_succ {σ : Type} (source : RandomSource σ) (hn : n ≠ 0) (rounds : ℕ)
    (state rest : σ) :
    answer (primalityRounds source n (n - 1) (trailingZeros (n - 1))
        ((n - 1) >>> trailingZeros (n - 1)) (rounds + 1) state) = some (.ok (true, rest)) ↔
      ∃ base next, firstAccepted (source (Digest.divCeil (Nat.size n) 8)) (acceptBase n (n - 1))
          128 state = (some base, next) ∧ PassesRound n base ∧
        answer (primalityRounds source n (n - 1) (trailingZeros (n - 1))
          ((n - 1) >>> trailingZeros (n - 1)) rounds next) = some (.ok (true, rest)) := by
  rw [primalityRounds, answer_bind_eq_ok_iff, answer_sampleBase]
  generalize firstAccepted (source (Digest.divCeil (Nat.size n) 8)) (acceptBase n (n - 1)) 128
    state = drawn
  obtain ⟨base?, next⟩ := drawn
  cases base? with
  | none => exact iff_of_false (by simp) (by simp)
  | some base =>
    have hpower : (checkedModpow base ((n - 1) >>> trailingZeros (n - 1)) n :
        Panicking RsaPrivateValidationError ℕ) =
          pure (modpow base ((n - 1) >>> trailingZeros (n - 1)) n) := by
      rw [checkedModpow, if_neg hn]
      rfl
    have hround : answer (checkedModpow base ((n - 1) >>> trailingZeros (n - 1)) n >>= fun z ↦
        if z = 1 ∨ z = n - 1 ∨ squarings n (n - 1) (trailingZeros (n - 1) - 1) z = true then
          primalityRounds source n (n - 1) (trailingZeros (n - 1))
            ((n - 1) >>> trailingZeros (n - 1)) rounds next
        else pure (false, next)) = some (.ok (true, rest)) ↔ PassesRound n base ∧
          answer (primalityRounds source n (n - 1) (trailingZeros (n - 1))
            ((n - 1) >>> trailingZeros (n - 1)) rounds next) = some (.ok (true, rest)) := by
      rw [hpower, pure_bind]
      split_ifs with hpasses
      · have hbase : PassesRound n base := hpasses
        exact (and_iff_right hbase).symm
      · exact iff_of_false (by simp) fun hrest ↦ hpasses hrest.1
    constructor
    · rintro ⟨sampled, hsampled, hrest⟩
      obtain rfl : (base, next) = sampled := by simpa using hsampled
      exact ⟨base, next, rfl, hround.mp hrest⟩
    · rintro ⟨base', next', hdrawn, hrest⟩
      obtain ⟨hbase, rfl⟩ := Prod.mk.inj hdrawn
      obtain rfl := Option.some.inj hbase
      exact ⟨(base, next), rfl, hround.mpr hrest⟩

/-- The rounds pass on a tape, and a property of the rest of the tape holds, at most as often as
every one of as many draws is a base that a round passes on. -/
theorem chance_primalityRounds_le (hodd : n % 2 = 1) (hfive : 5 ≤ n) {part : ℚ} (hpart : 0 ≤ part)
    (hpasses : (((Finset.Ioo 1 (n - 1)).filter (PassesRound n)).card : ℚ) ≤
      part * (Finset.Ioo 1 (n - 1)).card)
    (hbound : 0 ≤ bound) (hfollows : ∀ length, chance UInt8 length follows ≤ bound)
    (rounds length : ℕ) :
    chance UInt8 length (fun tape ↦ ∃ rest,
      answer (primalityRounds readTape n (n - 1) (trailingZeros (n - 1))
        ((n - 1) >>> trailingZeros (n - 1)) rounds tape) = some (.ok (true, rest)) ∧
          follows rest) ≤ part ^ rounds * bound := by
  induction rounds generalizing length with
  | zero =>
    rw [pow_zero, one_mul]
    refine le_trans (chance_mono ?_) (hfollows length)
    rintro tape ⟨rest, hrest, hproperty⟩
    have hsame : tape = rest := by simpa [primalityRounds] using hrest
    rwa [hsame]
  | succ rounds ih =>
    have hresults : ∀ buffer base, acceptBase n (n - 1) buffer = some base →
        base ∈ Finset.Ioo 1 (n - 1) := fun buffer base haccept ↦
      Finset.mem_Ioo.mpr (acceptBase_eq_some_iff.mp haccept).2
    have hcopies : ∀ base ∈ Finset.Ioo 1 (n - 1),
        {buffer | acceptBase n (n - 1) buffer = some base}.ncard =
          2 ^ (8 * Digest.divCeil (Nat.size n) 8 - Nat.size n) := fun base hbase ↦
      ncard_acceptBase (by omega) (Finset.mem_Ioo.mp hbase).1 (Finset.mem_Ioo.mp hbase).2
    have hweight : ∀ base length, (chance UInt8 length fun tape ↦ PassesRound n base ∧ ∃ rest,
        answer (primalityRounds readTape n (n - 1) (trailingZeros (n - 1))
          ((n - 1) >>> trailingZeros (n - 1)) rounds tape) = some (.ok (true, rest)) ∧
            follows rest) ≤ if PassesRound n base then part ^ rounds * bound else 0 := by
      intro base length
      split_ifs with hbase
      · exact le_trans (chance_mono fun tape htape ↦ htape.2) (ih length)
      · rw [chance_eq_zero fun tape htape ↦ hbase htape.1]
    have haverage : ∑ base ∈ Finset.Ioo 1 (n - 1),
        (if PassesRound n base then part ^ rounds * bound else 0) ≤
          part ^ (rounds + 1) * bound * (Finset.Ioo 1 (n - 1)).card := by
      rw [← Finset.sum_filter, Finset.sum_const, nsmul_eq_mul]
      calc _ ≤ part * (Finset.Ioo 1 (n - 1)).card * (part ^ rounds * bound) := by gcongr
        _ = part ^ (rounds + 1) * bound * (Finset.Ioo 1 (n - 1)).card := by ring
    refine le_trans (chance_mono ?_) (chance_firstAccepted_le_of_unbiased (by positivity) hresults
      hcopies hweight haverage 128 length)
    rintro tape ⟨rest, hrest, hproperty⟩
    obtain ⟨base, next, hdrawn, hpassed, hrounds⟩ :=
      (answer_primalityRounds_succ readTape (by omega) rounds tape rest).mp hrest
    exact ⟨base, next, hdrawn, hpassed, rest, hrounds, hproperty⟩

/-- The test of a number up to three and of an even one reads no tape. -/
theorem probablePrime_eq_pure {σ : Type} (source : RandomSource σ) (hsmall : n ≤ 3 ∨ n % 2 = 0)
    (rounds : ℕ) (state : σ) :
    probablePrime source n rounds state = pure (decide (n = 2 ∨ n = 3), state) := by
  unfold probablePrime
  split_ifs with hle heven
  · rfl
  · rw [decide_eq_false (by omega)]
  · omega

/-- A test that passes leaves the rest of the tape as random as it was. -/
theorem chance_probablePrime_le (n : ℕ) (hbound : 0 ≤ bound)
    (hfollows : ∀ length, chance UInt8 length follows ≤ bound) (rounds length : ℕ) :
    chance UInt8 length (fun tape ↦ ∃ rest,
      answer (probablePrime readTape n rounds tape) = some (.ok (true, rest)) ∧
        follows rest) ≤ bound := by
  by_cases hsmall : n ≤ 3 ∨ n % 2 = 0
  · refine le_trans (chance_mono ?_) (hfollows length)
    rintro tape ⟨rest, hrest, hproperty⟩
    rw [probablePrime_eq_pure readTape hsmall] at hrest
    have hsame : tape = rest := by
      simp only [answer_pure, Option.some.injEq, Except.ok.injEq, Prod.mk.injEq] at hrest
      exact hrest.2
    rwa [hsame]
  · have hpart : (((Finset.Ioo 1 (n - 1)).filter (PassesRound n)).card : ℚ) ≤
        1 * (Finset.Ioo 1 (n - 1)).card := by
      rw [one_mul]
      exact_mod_cast Finset.card_filter_le _ _
    have hrounds := chance_primalityRounds_le (by omega) (by omega) zero_le_one hpart hbound
      hfollows rounds length
    rw [one_pow, one_mul] at hrounds
    simp only [probablePrime_eq readTape (by omega : n % 2 = 1) (by omega)]
    exact hrounds

/-- The test passes a composite number at most as often as every draw is a strong liar, and it
leaves the rest of the tape as random as it was. -/
theorem chance_probablePrime_and_le (hcomposite : ¬ n.Prime) (hbound : 0 ≤ bound)
    (hfollows : ∀ length, chance UInt8 length follows ≤ bound) (rounds length : ℕ) :
    chance UInt8 length (fun tape ↦ ∃ rest,
      answer (probablePrime readTape n rounds tape) = some (.ok (true, rest)) ∧
        follows rest) ≤ (1 / 4) ^ rounds * bound := by
  by_cases hsmall : n ≤ 3 ∨ n % 2 = 0
  · rw [chance_eq_zero]
    · positivity
    · rintro tape ⟨rest, hrest, -⟩
      rw [probablePrime_eq_pure readTape hsmall] at hrest
      simp only [answer_pure, Option.some.injEq, Except.ok.injEq, Prod.mk.injEq,
        decide_eq_true_eq] at hrest
      rcases hrest.1 with rfl | rfl
      · exact hcomposite Nat.prime_two
      · exact hcomposite Nat.prime_three
  · have hpart : (((Finset.Ioo 1 (n - 1)).filter (PassesRound n)).card : ℚ) ≤
        1 / 4 * (Finset.Ioo 1 (n - 1)).card := by
      have hcount : (4 * ((Finset.Ioo 1 (n - 1)).filter (PassesRound n)).card : ℚ) ≤
          (Finset.Ioo 1 (n - 1)).card := by
        exact_mod_cast four_mul_card_passesRound_le (by omega) (by omega) hcomposite
      linarith
    simp only [probablePrime_eq readTape (by omega : n % 2 = 1) (by omega)]
    exact chance_primalityRounds_le (by omega) (by omega) (by norm_num) hpart hbound hfollows
      rounds length

/-- The primality test calls a composite number prime on at most `4 ^ -rounds` of the tapes.

The tapes of one length are equally likely, and a run that reads past the end of its tape does
not accept. No bound on the number or on the rounds is assumed. -/
theorem chance_probablePrime_composite_le (hcomposite : ¬ n.Prime) (rounds length : ℕ) :
    chance UInt8 length (fun tape ↦ ∃ rest,
      answer (probablePrime readTape n rounds tape) = some (.ok (true, rest))) ≤
        1 / 4 ^ rounds := by
  have hrun := @chance_probablePrime_and_le n (fun _ ↦ True) 1 hcomposite zero_le_one
    (fun _ ↦ chance_le_one) rounds length
  simpa using hrun

/-- Three rounds on fifteen. -/
theorem chance_probablePrime_composite_le_fifteen :
    chance UInt8 12 (fun tape ↦ ∃ rest,
      answer (probablePrime readTape 15 3 tape) = some (.ok (true, rest))) ≤ 1 / 4 ^ 3 :=
  chance_probablePrime_composite_le (by norm_num) 3 12

end

/-! ### The validation of a key -/

section

variable {estimate : ℕ → ℕ} {rsaDecryptAndCheck : PrivateKeyParts → ℕ → Option ℕ}
  {key : PrivateKeyParts} {bits : ℕ}

/-- An admissible key with prime factors. -/
def IsGenuine (key : PrivateKeyParts) (bits : ℕ) : Prop :=
  IsAdmissible key bits ∧ ∀ prime ∈ key.primes, prime.Prime

/-- What an accepting run of the validation has passed: both factors, one after the other. -/
theorem answer_validateWithRng_eq_ok {σ : Type} {source : RandomSource σ} {state rest : σ}
    (haccepted : answer (validateWithRng estimate rsaDecryptAndCheck source key bits state) =
      some (.ok ((), rest))) :
    IsAdmissible key bits ∧ ∃ strength p q middle,
      validationStrength estimate bits = some strength ∧ key.primes = [p, q] ∧
        answer (probablePrime source p (Digest.divCeil strength 2 + 1) state) =
          some (.ok (true, middle)) ∧
        answer (probablePrime source q (Digest.divCeil strength 2 + 1) middle) =
          some (.ok (true, rest)) := by
  have hadmissible : IsAdmissible key bits :=
    (safe_validateWithRng state).of_answer_eq_ok haccepted
  refine ⟨hadmissible, ?_⟩
  obtain ⟨first, second, hprimes, -⟩ := hadmissible
  unfold validateWithRng at haccepted
  obtain ⟨strength, hstrength, haccepted⟩ := answer_bind_eq_ok_iff.mp haccepted
  obtain ⟨_, -, haccepted⟩ := answer_bind_eq_ok_iff.mp haccepted
  obtain ⟨p, hp, haccepted⟩ := answer_bind_eq_ok_iff.mp haccepted
  obtain ⟨q, hq, haccepted⟩ := answer_bind_eq_ok_iff.mp haccepted
  obtain ⟨_, -, haccepted⟩ := answer_bind_eq_ok_iff.mp haccepted
  obtain ⟨_, -, haccepted⟩ := answer_bind_eq_ok_iff.mp haccepted
  obtain ⟨⟨pPrime, middle⟩, hpTested, haccepted⟩ := answer_bind_eq_ok_iff.mp haccepted
  obtain ⟨_, hpGuard, haccepted⟩ := answer_bind_eq_ok_iff.mp haccepted
  obtain ⟨⟨qPrime, last⟩, hqTested, haccepted⟩ := answer_bind_eq_ok_iff.mp haccepted
  obtain ⟨_, hqGuard, haccepted⟩ := answer_bind_eq_ok_iff.mp haccepted
  obtain ⟨_, -, haccepted⟩ := answer_bind_eq_ok_iff.mp haccepted
  have hlast : last = rest := by simpa using haccepted
  have hpPrime : pPrime = true := by simpa using answer_throwIf_eq_ok_iff.mp hpGuard
  have hqPrime : qPrime = true := by simpa using answer_throwIf_eq_ok_iff.mp hqGuard
  rw [answer_expect_eq_ok_iff, hprimes] at hp hq
  obtain ⟨rfl, rfl⟩ : first = p ∧ second = q := ⟨Option.some.inj hp, Option.some.inj hq⟩
  subst hlast hpPrime hqPrime
  exact ⟨strength, first, second, middle, answer_orError_eq_ok_iff.mp hstrength, hprimes, hpTested,
    hqTested⟩

/-- The tests of two factors of which one is composite pass one after the other at most as often as
the test of that one. -/
theorem chance_tests_le {p q : ℕ} (hcomposite : ¬ p.Prime ∨ ¬ q.Prime) (strength length : ℕ) :
    chance UInt8 length (fun tape ↦ ∃ middle,
      answer (probablePrime readTape p (Digest.divCeil strength 2 + 1) tape) =
        some (.ok (true, middle)) ∧ ∃ rest,
      answer (probablePrime readTape q (Digest.divCeil strength 2 + 1) middle) =
        some (.ok (true, rest))) ≤ (1 / 4) ^ (Digest.divCeil strength 2 + 1) := by
  rcases hcomposite with hp | hq
  · rw [← mul_one ((1 / 4 : ℚ) ^ _)]
    exact chance_probablePrime_and_le hp zero_le_one (fun _ ↦ chance_le_one) _ length
  · refine chance_probablePrime_le p (by positivity) (fun length ↦ ?_) _ length
    rw [one_div_pow]
    exact chance_probablePrime_composite_le hq _ length

/-- The validation accepts a key that is not genuine on at most `2 ^ -(strength + 2)` of the
tapes.

The tapes of one length are equally likely, and both factors are tested on the same tape. Nothing
is assumed of the estimate of the strength or of the blinded decryption. -/
theorem chance_validateWithRng_le (hgenuine : ¬ IsGenuine key bits) {strength : ℕ}
    (hstrength : validationStrength estimate bits = some strength) (length : ℕ) :
    chance UInt8 length (fun tape ↦ ∃ rest,
      answer (validateWithRng estimate rsaDecryptAndCheck readTape key bits tape) =
        some (.ok ((), rest))) ≤ 1 / 2 ^ (strength + 2) := by
  by_cases hadmissible : IsAdmissible key bits
  · obtain ⟨p, q, hprimes, -⟩ := id hadmissible
    have hrounds : (1 / 4 : ℚ) ^ (Digest.divCeil strength 2 + 1) ≤ 1 / 2 ^ (strength + 2) := by
      have hfour : (4 : ℚ) ^ (Digest.divCeil strength 2 + 1) =
          2 ^ (2 * (Digest.divCeil strength 2 + 1)) := by
        rw [pow_mul]
        norm_num
      rw [one_div_pow, hfour]
      refine one_div_le_one_div_of_le (by positivity) (pow_le_pow_right₀ (by norm_num) ?_)
      unfold Digest.divCeil
      omega
    have hcomposite : ¬ p.Prime ∨ ¬ q.Prime := by
      rw [← not_and_or]
      rintro ⟨hp, hq⟩
      refine hgenuine ⟨hadmissible, ?_⟩
      rw [hprimes]
      simp [hp, hq]
    refine le_trans (chance_mono ?_) (le_trans (chance_tests_le hcomposite strength length) hrounds)
    rintro tape ⟨rest, haccepted⟩
    obtain ⟨-, strength', p', q', middle, hstrength', hprimes', hpTested, hqTested⟩ :=
      answer_validateWithRng_eq_ok haccepted
    obtain rfl := Option.some.inj (hstrength.symm.trans hstrength')
    obtain ⟨rfl, rfl⟩ : p = p' ∧ q = q' := by simpa [hprimes] using hprimes'
    exact ⟨middle, hpTested, rest, hqTested⟩
  · rw [chance_eq_zero]
    · positivity
    · rintro tape ⟨rest, haccepted⟩
      exact hadmissible (answer_validateWithRng_eq_ok haccepted).1

/-- A key with two composite factors of 256 bits and the exponents of primes. -/
theorem chance_validateWithRng_le_composite :
    chance UInt8 4096 (fun tape ↦ ∃ rest,
      answer (validateWithRng (fun _ ↦ 14) (fun _ _ ↦ some 2) readTape
        ⟨(2 ^ 256 - 1) * (3 * 2 ^ 254 + 3), 3, (Nat.lcm (2 ^ 256 - 2) (3 * 2 ^ 254 + 2) + 1) / 3,
          [2 ^ 256 - 1, 3 * 2 ^ 254 + 3]⟩ 512 tape) = some (.ok ((), rest))) ≤
        1 / 2 ^ (112 + 2) := by
  refine chance_validateWithRng_le (fun hgenuine ↦ ?_) rfl 4096
  have hprime := hgenuine.2 (2 ^ 256 - 1) (List.mem_cons_self ..)
  exact absurd ((Nat.prime_dvd_prime_iff_eq Nat.prime_three hprime).mp (by decide)) (by decide)

end

end SoftwareKeyCore.RsaPrivateValidation
