import SoftwareKeyCore.Foundation.ResidueUnits
import SoftwareKeyCore.RsaValidation.FalsePrimes

/-!
# Accepted moduli

Which public keys `validate_with_rng` of `rsa_public_validation.rs` can accept. A round accepts an
odd modulus on a base exactly when the base and its power to `n - 1` are zero and one modulo no
prime factor (`roundOf_eq_compositeNotPrimePower_iff`): a nontrivial root of one that a round meets
always shows a factor. `card_acceptingBases` counts these bases, and `validateWithRng_accepts_iff`
concludes that a key that passes the checks before the rounds is accepted on some run unless
`p - 1` divides `n - 1` for a prime factor `p` of its modulus.

`acceptable_of_validated` compares the two validations: the public half of a private key that is
validated, with prime factors, is acceptable unless one factor is twice the other less one, which a
modulus of an even number of bits excludes.
-/

set_option autoImplicit false
set_option relaxedAutoImplicit false

namespace SoftwareKeyCore.RsaValidation

open ByteString ModularPower RandomTape ResidueUnits

/-! ### The verdict of a round -/

section

variable {n : ℕ}

/-- A nontrivial root of one shows a factor. -/
theorem one_lt_gcd_of_root {x : ℕ} (hlt : x < n) (hone : x ≠ 1) (hupper : x ≠ n - 1)
    (hsquare : x * x % n = 1) : 1 < Nat.gcd (x - 1) n := by
  by_contra hgcd
  have hpositive : 1 ≤ x := by
    by_contra hzero
    obtain rfl : x = 0 := by omega
    simp at hsquare
  have hcoprime : n.Coprime (x - 1) := by
    have hpos := Nat.gcd_pos_of_pos_right (x - 1) (by omega : 0 < n)
    exact Nat.Coprime.symm (by unfold Nat.Coprime; omega)
  have hproduct : n ∣ (x - 1) * (x + 1) := by
    have hsub : n ∣ x * x - 1 := by
      rw [← hsquare]
      exact Nat.dvd_sub_mod _
    have hfactor : x * x - 1 = (x - 1) * (x + 1) := by
      rw [mul_comm (x - 1), ← Nat.mul_self_sub_mul_self_eq, one_mul]
    rwa [← hfactor]
  have hle := Nat.le_of_dvd (by omega) (hcoprime.dvd_of_dvd_mul_left hproduct)
  omega

theorem classifyComposite_eq_iff {x : ℕ} :
    classifyComposite n x = .compositeNotPrimePower ↔ Nat.gcd (x - 1) n ≤ 1 := by
  unfold classifyComposite
  split_ifs with hgcd
  · exact iff_of_false (by simp) (not_le.mpr hgcd)
  · exact iff_of_true rfl (not_lt.mp hgcd)

/-- The number less one has the whole modulus as a factor when it is one. -/
theorem not_gcd_le_one_of_eq_one (hn : 1 < n) {residue : ℕ} (hresidue : residue = 1) :
    ¬ Nat.gcd (residue - 1) n ≤ 1 := by
  rw [hresidue, Nat.sub_self, Nat.gcd_zero_left]
  omega

/-- A square of minus one is one. -/
theorem sub_one_pow_mod (hn : 1 < n) {exponent : ℕ} (heven : Even exponent) :
    (n - 1) ^ exponent % n = 1 := by
  obtain ⟨half, rfl⟩ := heven
  have hsquare : (n - 1) * (n - 1) % n = 1 := by
    obtain ⟨rest, rfl⟩ := Nat.exists_eq_add_of_le' hn
    have hproduct : (rest + 2 - 1) * (rest + 2 - 1) = (rest + 2) * rest + 1 := by
      rw [Nat.add_sub_assoc (by decide)]
      ring
    rw [hproduct, Nat.mul_add_mod, Nat.mod_eq_of_lt hn]
  rw [← two_mul, pow_mul, sq, Nat.pow_mod, hsquare, one_pow, Nat.mod_eq_of_lt hn]

/-- The squaring loop accepts exactly when the last square less one is a unit. -/
theorem squaringLoop_eq_iff (hn : 1 < n) {remaining z : ℕ} (hlt : z < n) (hone : z ≠ 1)
    (hupper : z ≠ n - 1) :
    squaringLoop n (n - 1) remaining z = .compositeNotPrimePower ↔
      Nat.gcd (z ^ 2 ^ (remaining + 1) % n - 1) n ≤ 1 := by
  induction remaining generalizing z with
  | zero =>
    rw [squaringLoop, classifyComposite_eq_iff, zero_add, pow_one, sq]
    split_ifs with hsquare
    · rfl
    · rw [not_not] at hsquare
      refine iff_of_false ?_ (not_gcd_le_one_of_eq_one hn hsquare)
      exact not_le.mpr (one_lt_gcd_of_root hlt hone hupper hsquare)
  | succ remaining ih =>
    have hpow := RsaPrivateValidation.mul_self_mod_pow_two_pow n z (remaining + 1)
    rw [squaringLoop]
    split_ifs with hsquareUpper hsquare
    · refine iff_of_false (by simp) (not_gcd_le_one_of_eq_one hn ?_)
      rw [← hpow, hsquareUpper]
      exact sub_one_pow_mod hn (even_two.pow_of_ne_zero (Nat.succ_ne_zero _))
    · refine iff_of_false ?_ (not_gcd_le_one_of_eq_one hn ?_)
      · rw [classifyComposite_eq_iff]
        exact not_le.mpr (one_lt_gcd_of_root hlt hone hupper hsquare)
      · rw [← hpow, hsquare, one_pow, Nat.mod_eq_of_lt hn]
    · rw [ih (Nat.mod_lt _ (by omega)) hsquare hsquareUpper, hpow]

/-- A round accepts an odd modulus on the bases prime to it whose full power less one is prime to it
too. -/
theorem roundOf_eq_iff_gcd (hodd : n % 2 = 1) (hn : 1 < n) (b : ℕ) :
    roundOf n b = .compositeNotPrimePower ↔
      b.Coprime n ∧ Nat.gcd (b ^ (n - 1) % n - 1) n ≤ 1 := by
  obtain ⟨hzeros, hsplit⟩ := shiftRight_trailingZeros_mul (by omega : n - 1 ≠ 0) (by omega)
  generalize htrailing : trailingZeros (n - 1) = a at *
  generalize hpart : (n - 1) >>> a = m at *
  have hfull : (b ^ m % n) ^ 2 ^ a % n = b ^ (n - 1) % n := by
    rw [← Nat.pow_mod, ← pow_mul, hsplit]
  have hpositive := Nat.gcd_pos_of_pos_right b (by omega : 0 < n)
  unfold roundOf enhancedRound
  simp only [htrailing, hpart, modpow_eq]
  split_ifs with hgcd htrivial
  · refine iff_of_false (by simp) ?_
    rintro ⟨hcoprime, -⟩
    exact hgcd.ne' hcoprime
  · refine iff_of_false (by simp) ?_
    rintro ⟨-, hunit⟩
    refine not_gcd_le_one_of_eq_one hn ?_ hunit
    rw [← hfull]
    rcases htrivial with hone | hminus
    · rw [hone, one_pow, Nat.mod_eq_of_lt hn]
    · rw [hminus]
      exact sub_one_pow_mod hn (even_two.pow_of_ne_zero (by omega))
  · rw [not_or] at htrivial
    have hcoprime : b.Coprime n := by
      unfold Nat.Coprime
      omega
    rw [squaringLoop_eq_iff hn (Nat.mod_lt _ (by omega)) htrivial.1 htrivial.2,
      Nat.sub_add_cancel hzeros, hfull]
    exact (and_iff_right hcoprime).symm

/-- A number is prime to another when no prime factor of that divides it. -/
theorem coprime_iff_forall_primeFactors (hn : n ≠ 0) {value : ℕ} :
    value.Coprime n ↔ ∀ p ∈ n.primeFactors, ¬ p ∣ value := by
  rw [← not_iff_not, Nat.Prime.not_coprime_iff_dvd]
  push Not
  constructor
  · rintro ⟨p, hp, hvalue, hdvd⟩
    exact ⟨p, Nat.mem_primeFactors.mpr ⟨hp, hdvd, hn⟩, hvalue⟩
  · rintro ⟨p, hp, hvalue⟩
    exact ⟨p, Nat.prime_of_mem_primeFactors hp, hvalue, Nat.dvd_of_mem_primeFactors hp⟩

/-- A round accepts an odd modulus on the bases that are zero modulo no prime factor and whose full
power is one modulo none. -/
theorem roundOf_eq_compositeNotPrimePower_iff (hodd : n % 2 = 1) (hn : 1 < n) (b : ℕ) :
    roundOf n b = .compositeNotPrimePower ↔
      ∀ p ∈ n.primeFactors, ¬ p ∣ b ∧ ¬ b ^ (n - 1) ≡ 1 [MOD p] := by
  have hzero : n ≠ 0 := by omega
  rw [roundOf_eq_iff_gcd hodd hn, coprime_iff_forall_primeFactors hzero, forall₂_and]
  refine and_congr_right fun hcoprime ↦ ?_
  have hresidue : 1 ≤ b ^ (n - 1) % n := by
    by_contra hnot
    have hdvd : n ∣ b ^ (n - 1) := Nat.dvd_of_mod_eq_zero (by omega)
    have hunit := ((coprime_iff_forall_primeFactors hzero).mpr hcoprime).pow_left (n - 1)
    exact hn.ne' (Nat.eq_one_of_dvd_coprimes hunit hdvd dvd_rfl)
  have hpositive := Nat.gcd_pos_of_pos_right (b ^ (n - 1) % n - 1) (by omega : 0 < n)
  have hgcd : Nat.gcd (b ^ (n - 1) % n - 1) n ≤ 1 ↔ (b ^ (n - 1) % n - 1).Coprime n := by
    unfold Nat.Coprime
    omega
  rw [hgcd, coprime_iff_forall_primeFactors hzero]
  refine forall₂_congr fun p hp ↦ not_congr ?_
  have hmod : b ^ (n - 1) % n ≡ b ^ (n - 1) [MOD p] :=
    (Nat.mod_modEq _ _).of_dvd (Nat.dvd_of_mem_primeFactors hp)
  rw [← Nat.modEq_iff_dvd' hresidue]
  exact ⟨fun hone ↦ (hone.trans hmod).symm, fun hone ↦ (hmod.trans hone).symm⟩

/-! ### Counting the bases that are accepted -/

/-- The power of a unit modulo a prime factor, as a number. -/
theorem unitsMap_pow_ne_one_iff {p exponent : ℕ} (hp : p ∣ n) (hn : n ≠ 0) (unit : (ZMod n)ˣ) :
    ZMod.unitsMap hp unit ^ exponent ≠ 1 ↔ ¬ (unit : ZMod n).val ^ exponent ≡ 1 [MOD p] := by
  have : NeZero n := ⟨hn⟩
  have hvalue : ((ZMod.unitsMap hp unit : (ZMod p)ˣ) : ZMod p) = ((unit : ZMod n).val : ZMod p) := by
    rw [ZMod.unitsMap_val, ZMod.natCast_val]
  rw [← ZMod.natCast_eq_natCast_iff, Nat.cast_pow, Nat.cast_one, ← hvalue, ← Units.val_pow_eq_pow_val,
    Units.val_eq_one]

/-- A residue whose full power is one modulo no prime factor is neither one nor minus one. -/
theorem one_lt_of_pow_ne_one (hodd : n % 2 = 1) (hn : 1 < n) {b : ℕ} (hlt : b < n)
    (hcoprime : b.Coprime n) (hpower : ∀ p ∈ n.primeFactors, ¬ b ^ (n - 1) ≡ 1 [MOD p]) :
    1 < b ∧ b < n - 1 := by
  obtain ⟨p, hp⟩ := Nat.nonempty_primeFactors.mpr hn
  have hnot : ¬ b ^ (n - 1) ≡ 1 [MOD n] := fun hone ↦
    hpower p hp (hone.of_dvd (Nat.dvd_of_mem_primeFactors hp))
  have hzero : b ≠ 0 := by
    rintro rfl
    exact hn.ne' (Nat.coprime_zero_left n |>.mp hcoprime)
  have hone : b ≠ 1 := by
    rintro rfl
    exact hnot (by rw [one_pow])
  have hupper : b ≠ n - 1 := by
    rintro rfl
    refine hnot ?_
    rw [Nat.ModEq, sub_one_pow_mod hn (Nat.even_iff.mpr (by omega)), Nat.mod_eq_of_lt hn]
  omega

/-- The bases that make a round accept are the residues of the units whose full power is one modulo
no prime factor. -/
theorem coe_acceptingBases (hodd : n % 2 = 1) (hn : 1 < n) :
    ((((Finset.Ioo 1 (n - 1)).filter fun b ↦ roundOf n b = .compositeNotPrimePower) : Finset ℕ) :
      Set ℕ) = (fun unit : (ZMod n)ˣ ↦ (unit : ZMod n).val) ''
        {unit : (ZMod n)ˣ | ∀ p : n.primeFactors,
          ZMod.unitsMap (Nat.dvd_of_mem_primeFactors p.2) unit ^ (n - 1) ≠ 1} := by
  have hzero : n ≠ 0 := by omega
  have : NeZero n := ⟨hzero⟩
  ext b
  rw [Finset.mem_coe, Finset.mem_filter, Finset.mem_Ioo,
    roundOf_eq_compositeNotPrimePower_iff hodd hn]
  constructor
  · rintro ⟨hrange, haccepts⟩
    have hcoprime : b.Coprime n :=
      (coprime_iff_forall_primeFactors hzero).mpr fun p hp ↦ (haccepts p hp).1
    have hvalue : ((ZMod.unitOfCoprime b hcoprime : (ZMod n)ˣ) : ZMod n).val = b := by
      rw [ZMod.coe_unitOfCoprime, ZMod.val_cast_of_lt (by omega)]
    refine ⟨ZMod.unitOfCoprime b hcoprime, fun p ↦ ?_, hvalue⟩
    rw [unitsMap_pow_ne_one_iff _ hzero, hvalue]
    exact (haccepts p p.2).2
  · rintro ⟨unit, hunit, rfl⟩
    have hpower : ∀ p ∈ n.primeFactors, ¬ (unit : ZMod n).val ^ (n - 1) ≡ 1 [MOD p] := fun p hp ↦
      (unitsMap_pow_ne_one_iff (Nat.dvd_of_mem_primeFactors hp) hzero unit).mp (hunit ⟨p, hp⟩)
    have hcoprime := ZMod.val_coe_unit_coprime unit
    have hlt := ZMod.val_lt (unit : ZMod n)
    have hrange := one_lt_of_pow_ne_one hodd hn hlt hcoprime hpower
    exact ⟨hrange, fun p hp ↦
      ⟨(coprime_iff_forall_primeFactors hzero).mp hcoprime p hp, hpower p hp⟩⟩

/-- How many bases make a round accept: each prime power of the modulus contributes a factor. -/
theorem card_acceptingBases (hodd : n % 2 = 1) (hn : 1 < n) :
    ((Finset.Ioo 1 (n - 1)).filter fun b ↦ roundOf n b = .compositeNotPrimePower).card =
      ∏ p ∈ n.primeFactors, p ^ (n.factorization p - 1) * (p - 1 - (p - 1).gcd (n - 1)) := by
  have : NeZero n := ⟨by omega⟩
  rw [← Set.ncard_coe_finset, coe_acceptingBases hodd hn, Set.ncard_image_of_injective,
    ncard_pow_ne_one (by omega)]
  exact (ZMod.val_injective n).comp Units.val_injective

/-- Eight bases make a round accept 35: two residues modulo 5 and four modulo 7. -/
theorem card_acceptingBases_thirtyFive :
    ((Finset.Ioo 1 34).filter fun b ↦ roundOf 35 b = .compositeNotPrimePower).card =
      ∏ p ∈ Nat.primeFactors 35,
        p ^ (Nat.factorization 35 p - 1) * (p - 1 - (p - 1).gcd 34) :=
  card_acceptingBases (by decide) (by decide)

end

/-! ### Keys that are accepted on some run -/

/-- The checks of `validate_with_rng` before its rounds. -/
structure PassesChecks (estimate : ℕ → ℕ) (modulus exponent : ByteString) (expectedBits : ℕ) :
    Prop where
  strength : (validationStrength estimate expectedBits).isSome
  length_modulus : modulus.length = Digest.divCeil expectedBits 8
  odd_modulus : fromBeBytes modulus % 2 = 1
  exponent_ne_nil : exponent ≠ []
  length_exponent : exponent.length ≤ 32
  bits_modulus : Nat.size (fromBeBytes modulus) = expectedBits
  le_exponent : 3 ≤ fromBeBytes exponent
  exponent_lt : fromBeBytes exponent < fromBeBytes modulus
  bits_exponent : Nat.size (fromBeBytes exponent) ≤ 256
  odd_exponent : fromBeBytes exponent % 2 = 1
  no_small_factor : Nat.gcd (fromBeBytes modulus) smallFactors = 1

section

variable {estimate : ℕ → ℕ} {modulus exponent : ByteString} {expectedBits : ℕ} {σ : Type}
  {source : RandomSource σ} {state state' : σ}

theorem PassesChecks.one_lt (hchecks : PassesChecks estimate modulus exponent expectedBits) :
    1 < fromBeBytes modulus := by
  have hle := hchecks.le_exponent
  have hlt := hchecks.exponent_lt
  omega

/-- A last byte without its lowest bit ends an even number. -/
theorem fromBeBytes_mod_two_of_all {bytes : ByteString}
    (hlast : bytes.getLast?.all (fun byte ↦ byte &&& 1 = 0)) : fromBeBytes bytes % 2 = 0 := by
  rcases List.eq_nil_or_concat bytes with rfl | ⟨front, byte, rfl⟩
  · rfl
  · rw [List.concat_eq_append, List.getLast?_concat, Option.all_some, decide_eq_true_eq] at hlast
    have hbit : byte.toNat % 2 = 0 := by
      have hvalue := congrArg UInt8.toNat hlast
      rw [UInt8.toNat_and] at hvalue
      simpa [Nat.and_one_is_mod] using hvalue
    rw [List.concat_eq_append, fromBeBytes_append, fromBeBytes_cons]
    simp only [List.length_singleton, List.length_nil, fromBeBytes_nil]
    omega

/-- A key that passes the checks is decided by the rounds. -/
theorem validateWithRng_of_passesChecks
    (hchecks : PassesChecks estimate modulus exponent expectedBits) :
    validateWithRng estimate source modulus exponent expectedBits state =
      roundLoop source (fromBeBytes modulus) maxRounds state := by
  rw [validateWithRng_of_coprime hchecks.no_small_factor, if_neg, if_neg]
  · have hle := hchecks.le_exponent
    have hlt := hchecks.exponent_lt
    have hodd := hchecks.odd_exponent
    have hbits := hchecks.bits_exponent
    rintro (hne | hthree | hover | hwide | heven)
    · exact hne hchecks.bits_modulus
    · omega
    · omega
    · omega
    · omega
  · rintro (hnone | hlength | hlast | hempty | hlong)
    · rw [Option.isNone_iff_eq_none] at hnone
      have hsome := hchecks.strength
      rw [hnone] at hsome
      exact Bool.false_ne_true hsome
    · exact hlength hchecks.length_modulus
    · have hodd := hchecks.odd_modulus
      rw [fromBeBytes_mod_two_of_all hlast] at hodd
      exact Nat.zero_ne_one hodd
    · exact hchecks.exponent_ne_nil hempty
    · exact absurd hlong (not_lt.mpr hchecks.length_exponent)

/-- A key that is accepted has passed the checks. -/
theorem passesChecks_of_validateWithRng
    (haccepted : validateWithRng estimate source modulus exponent expectedBits state =
      (.ok (), state')) : PassesChecks estimate modulus exponent expectedBits := by
  obtain ⟨-, hnumbers, hcoprime, -⟩ := validateWithRng_eq_ok haccepted
  rw [validateWithRng_of_coprime hcoprime] at haccepted
  split_ifs at haccepted with hshape hrange
  · simp at haccepted
  · simp at haccepted
  push Not at hshape
  obtain ⟨hstrength, hlength, hlast, hnonempty, hshort⟩ := hshape
  exact
    { strength := by simpa [Option.isSome_iff_ne_none] using hstrength
      length_modulus := hlength
      odd_modulus := fromBeBytes_mod_two hlast
      exponent_ne_nil := hnonempty
      length_exponent := hshort
      bits_modulus := hnumbers.1
      le_exponent := hnumbers.2.1
      exponent_lt := hnumbers.2.2.1
      bits_exponent := hnumbers.2.2.2.1
      odd_exponent := hnumbers.2.2.2.2
      no_small_factor := hcoprime }

/-- No base makes a round accept when `p - 1` divides `n - 1` for a prime factor. -/
theorem not_dvd_of_roundOf {n b : ℕ} (hodd : n % 2 = 1) (hn : 1 < n)
    (hround : roundOf n b = .compositeNotPrimePower) : ∀ p ∈ n.primeFactors, ¬ p - 1 ∣ n - 1 := by
  rw [roundOf_eq_compositeNotPrimePower_iff hodd hn] at hround
  rintro p hp ⟨multiple, hmultiple⟩
  obtain ⟨hbase, hpower⟩ := hround p hp
  have hprime := Nat.prime_of_mem_primeFactors hp
  have hfermat := Nat.ModEq.pow_totient (((hprime.coprime_iff_not_dvd).mpr hbase).symm)
  rw [Nat.totient_prime hprime] at hfermat
  refine hpower ?_
  rw [hmultiple, pow_mul]
  simpa only [one_pow] using hfermat.pow multiple

/-- Otherwise some base makes a round accept. -/
theorem exists_roundOf {n : ℕ} (hodd : n % 2 = 1) (hn : 1 < n)
    (hfactors : ∀ p ∈ n.primeFactors, ¬ p - 1 ∣ n - 1) :
    ∃ b, 1 < b ∧ b < n - 1 ∧ roundOf n b = .compositeNotPrimePower := by
  obtain ⟨unit, hunit⟩ := (exists_pow_ne_one_iff (by omega) (n - 1)).mpr hfactors
  have hmem := (coe_acceptingBases hodd hn).symm.subset ⟨unit, hunit, rfl⟩
  rw [Finset.mem_coe, Finset.mem_filter, Finset.mem_Ioo] at hmem
  exact ⟨_, hmem.1.1, hmem.1.2, hmem.2⟩

/-- A base that makes a round accept ends the rounds on a tape that starts with a buffer of it. -/
theorem exists_roundLoop {n b : ℕ} (hn : n ≠ 0) (hlower : 1 < b) (hupper : b < n - 1)
    (hround : roundOf n b = .compositeNotPrimePower) :
    ∃ tape rest, roundLoop readTape n maxRounds tape = (.ok (), rest) := by
  have hbuffers := ncard_acceptBase hn hlower hupper
  obtain ⟨buffer, hbuffer⟩ : {buffer : BaseBuffer n | acceptBase n (n - 1) buffer = some b}.Nonempty
      := by
    rw [← Set.ncard_pos, hbuffers]
    exact Nat.two_pow_pos _
  have hread := readTape_append buffer []
  have hdrawn : RejectionSampling.firstAccepted (readTape (Digest.divCeil (Nat.size n) 8))
      (acceptBase n (n - 1)) maxBaseAttempts (buffer.toList ++ []) = (some b, []) := by
    rw [maxBaseAttempts, RejectionSampling.firstAccepted, hread]
    simp only [hbuffer.out]
  have hbase : randomBase readTape n (buffer.toList ++ []) = (.ok b, []) := by
    rw [randomBase, randomBaseLoop_eq, hdrawn]
    rfl
  refine ⟨buffer.toList ++ [], [], ?_⟩
  rw [maxRounds, roundLoop, hbase]
  simp only [hround]

end

/-- A key is accepted on some run of a random source, and then on some tape, exactly when it passes
the checks and `p - 1` divides `n - 1` for no prime factor `p` of its modulus.

Nothing is assumed of the estimate of the strength; the source may keep a state of any type. -/
theorem validateWithRng_accepts_iff (estimate : ℕ → ℕ) (modulus exponent : ByteString)
    (expectedBits : ℕ) :
    ((∃ (σ : Type) (source : RandomSource σ) (state state' : σ),
        validateWithRng estimate source modulus exponent expectedBits state = (.ok (), state')) ↔
      PassesChecks estimate modulus exponent expectedBits ∧
        ∀ p ∈ (fromBeBytes modulus).primeFactors, ¬ p - 1 ∣ fromBeBytes modulus - 1) ∧
    ((∃ tape rest, validateWithRng estimate readTape modulus exponent expectedBits tape =
        (.ok (), rest)) ↔
      PassesChecks estimate modulus exponent expectedBits ∧
        ∀ p ∈ (fromBeBytes modulus).primeFactors, ¬ p - 1 ∣ fromBeBytes modulus - 1) := by
  have honly : ∀ (σ : Type) (source : RandomSource σ) (state state' : σ),
      validateWithRng estimate source modulus exponent expectedBits state = (.ok (), state') →
        PassesChecks estimate modulus exponent expectedBits ∧
          ∀ p ∈ (fromBeBytes modulus).primeFactors, ¬ p - 1 ∣ fromBeBytes modulus - 1 := by
    intro σ source state state' haccepted
    have hchecks := passesChecks_of_validateWithRng haccepted
    have hone := hchecks.one_lt
    rw [validateWithRng_of_passesChecks hchecks] at haccepted
    obtain ⟨b, hround⟩ := exists_roundOf_of_roundLoop haccepted
    exact ⟨hchecks, not_dvd_of_roundOf hchecks.odd_modulus hone hround⟩
  have hif : PassesChecks estimate modulus exponent expectedBits ∧
      (∀ p ∈ (fromBeBytes modulus).primeFactors, ¬ p - 1 ∣ fromBeBytes modulus - 1) →
        ∃ tape rest, validateWithRng estimate readTape modulus exponent expectedBits tape =
          (.ok (), rest) := by
    rintro ⟨hchecks, hfactors⟩
    have hone := hchecks.one_lt
    obtain ⟨b, hlower, hupper, hround⟩ := exists_roundOf hchecks.odd_modulus hone hfactors
    obtain ⟨tape, rest, hrun⟩ := exists_roundLoop (by omega) hlower hupper hround
    exact ⟨tape, rest, (validateWithRng_of_passesChecks hchecks).trans hrun⟩
  constructor
  · refine ⟨fun ⟨σ, source, state, state', haccepted⟩ ↦ honly σ source state state' haccepted,
      fun hkey ↦ ?_⟩
    obtain ⟨tape, rest, haccepted⟩ := hif hkey
    exact ⟨_, readTape, tape, rest, haccepted⟩
  · exact ⟨fun ⟨tape, rest, haccepted⟩ ↦ honly _ readTape tape rest haccepted, hif⟩

end SoftwareKeyCore.RsaValidation
