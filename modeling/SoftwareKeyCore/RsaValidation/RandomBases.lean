import SoftwareKeyCore.Foundation.MaskedBytes
import SoftwareKeyCore.Foundation.RejectionSampling
import SoftwareKeyCore.RsaValidation.PrivateKey

/-!
# Random bases

`random_base` of `rsa_public_validation.rs` and the sampling loop of `probable_prime` of
`rsa_private_validation.rs`. Both read a number off a buffer whose first byte is masked and reject
the numbers that are no base; `randomBaseLoop_eq` and `answer_sampleBase` are that both are one
rejection sampling.

`drawsWithoutBias` says that the sampling has no bias: the numbers below the power of two of the
bit length are read off equally many buffers each, the bases among them are accepted and nothing
else is. `randomBase_unbiased` carries this to whole runs: every base is drawn from the same number
of sequences of 128 buffers.
-/

set_option autoImplicit false
set_option relaxedAutoImplicit false

namespace SoftwareKeyCore.RsaValidation

open ByteString Panicking RejectionSampling RsaPrivateValidation

/-- The buffer that an attempt fills. -/
abbrev BaseBuffer (n : ℕ) : Type :=
  List.Vector UInt8 (Digest.divCeil (Nat.size n) 8)

/-- The number that an attempt reads off its buffer. -/
def candidateBase (n : ℕ) (buffer : BaseBuffer n) : ℕ :=
  maskedNumber (Nat.size n) buffer.toList

/-- The base that an attempt accepts. -/
def acceptBase (n upper : ℕ) (buffer : BaseBuffer n) : Option ℕ :=
  if 1 < candidateBase n buffer ∧ candidateBase n buffer < upper then
    some (candidateBase n buffer)
  else none

/-! ### The two loops are one sampling -/

section

variable {σ : Type} (source : RandomSource σ)

/-- The loop of `random_base` samples by rejection. -/
theorem randomBaseLoop_eq (n attempts : ℕ) (state : σ) :
    randomBaseLoop source n attempts state =
      let drawn := firstAccepted (source (Digest.divCeil (Nat.size n) 8)) (acceptBase n (n - 1))
        attempts state
      (drawn.1.elim (.error .randomnessUnavailable) .ok, drawn.2) := by
  induction attempts generalizing state with
  | zero => rfl
  | succ attempts ih =>
    rw [randomBaseLoop, firstAccepted]
    rcases source (Digest.divCeil (Nat.size n) 8) state with ⟨- | buffer, next⟩
    · rfl
    · change (if 1 < candidateBase n buffer ∧ candidateBase n buffer < n - 1 then
        (.ok (candidateBase n buffer), next) else randomBaseLoop source n attempts next) = _
      by_cases hrange : 1 < candidateBase n buffer ∧ candidateBase n buffer < n - 1
      · have haccept : acceptBase n (n - 1) buffer = some (candidateBase n buffer) :=
          if_pos hrange
        simp only [if_pos hrange, haccept, Option.elim_some]
      · have haccept : acceptBase n (n - 1) buffer = none := if_neg hrange
        simp only [if_neg hrange, haccept, ih]

/-- The sampling loop of `probable_prime` samples by rejection. -/
theorem answer_sampleBase (n upper attempts : ℕ) (state : σ) :
    answer (sampleBase source n upper attempts state) =
      let drawn := firstAccepted (source (Digest.divCeil (Nat.size n) 8)) (acceptBase n upper)
        attempts state
      some (drawn.1.elim (.error .randomnessUnavailable) fun base ↦ .ok (base, drawn.2)) := by
  induction attempts generalizing state with
  | zero => rfl
  | succ attempts ih =>
    rw [sampleBase, firstAccepted]
    rcases source (Digest.divCeil (Nat.size n) 8) state with ⟨- | buffer, next⟩
    · rfl
    · change answer (if 1 < candidateBase n buffer ∧ candidateBase n buffer < upper then
        pure (candidateBase n buffer, next) else sampleBase source n upper attempts next) = _
      by_cases hrange : 1 < candidateBase n buffer ∧ candidateBase n buffer < upper
      · have haccept : acceptBase n upper buffer = some (candidateBase n buffer) :=
          if_pos hrange
        simp only [if_pos hrange, haccept, Option.elim_some, answer_pure]
      · have haccept : acceptBase n upper buffer = none := if_neg hrange
        simp only [if_neg hrange, haccept, ih]

end

/-! ### One attempt -/

section

variable {n : ℕ}

/-- The bits that the mask clears, for a number that is not zero. -/
theorem divCeil_size (hn : n ≠ 0) :
    (8 - Nat.size n % 8) % 8 < 8 ∧ 0 < Digest.divCeil (Nat.size n) 8 ∧
      8 * Digest.divCeil (Nat.size n) 8 - (8 - Nat.size n % 8) % 8 = Nat.size n := by
  have hsize : 0 < Nat.size n := Nat.size_pos.mpr (Nat.pos_of_ne_zero hn)
  unfold Digest.divCeil
  omega

/-- An attempt reads a number of the bit length of the modulus. -/
theorem candidateBase_lt (hn : n ≠ 0) (buffer : BaseBuffer n) :
    candidateBase n buffer < 2 ^ Nat.size n := by
  obtain ⟨hunused, hlength, hbits⟩ := divCeil_size hn
  have hnonempty : buffer.toList ≠ [] := by
    apply List.ne_nil_of_length_pos
    rwa [List.Vector.toList_length]
  have hbound := MaskedBytes.fromBeBytes_clearTop_lt hunused hnonempty
  rw [List.Vector.toList_length, hbits] at hbound
  exact hbound

/-- Every number of the bit length of the modulus is read off the same number of buffers. -/
theorem ncard_candidateBase (hn : n ≠ 0) {value : ℕ} (hvalue : value < 2 ^ Nat.size n) :
    Set.ncard {buffer : BaseBuffer n | candidateBase n buffer = value} =
      2 ^ (8 * Digest.divCeil (Nat.size n) 8 - Nat.size n) := by
  obtain ⟨hunused, hlength, hbits⟩ := divCeil_size hn
  rw [← hbits] at hvalue
  have hcount := MaskedBytes.ncard_fromBeBytes_clearTop hunused hlength hvalue
  have hexponent : 8 * Digest.divCeil (Nat.size n) 8 - Nat.size n = (8 - Nat.size n % 8) % 8 := by
    omega
  rw [hexponent, ← hcount]
  rfl

theorem acceptBase_eq_some_iff {upper base : ℕ} {buffer : BaseBuffer n} :
    acceptBase n upper buffer = some base ↔
      candidateBase n buffer = base ∧ 1 < base ∧ base < upper := by
  by_cases hrange : 1 < candidateBase n buffer ∧ candidateBase n buffer < upper
  · rw [acceptBase, if_pos hrange, Option.some.injEq]
    constructor
    · rintro rfl
      exact ⟨rfl, hrange⟩
    · exact fun hbase ↦ hbase.1
  · rw [acceptBase, if_neg hrange]
    refine iff_of_false (Option.some_ne_none base).symm ?_
    rintro ⟨rfl, hbase⟩
    exact hrange hbase

/-- Every base is accepted from the same number of buffers. -/
theorem ncard_acceptBase (hn : n ≠ 0) {base : ℕ} (hlower : 1 < base) (hupper : base < n - 1) :
    Set.ncard {buffer : BaseBuffer n | acceptBase n (n - 1) buffer = some base} =
      2 ^ (8 * Digest.divCeil (Nat.size n) 8 - Nat.size n) := by
  have hbase : base < 2 ^ Nat.size n := by
    have hsize := Nat.lt_size_self n
    omega
  rw [← ncard_candidateBase hn hbase]
  simp only [acceptBase_eq_some_iff, hlower, hupper, and_true]

end

/-! ### The sampling has no bias -/

/-- Random bases of a modulus are drawn without bias: every base comes from the same number of
buffers, nothing else is accepted, and of at most 128 buffers the first that is accepted counts. -/
structure DrawsWithoutBias (n : ℕ) : Prop where
  candidate_lt : ∀ buffer : BaseBuffer n, candidateBase n buffer < 2 ^ Nat.size n
  accepts : ∀ base, 1 < base → base < n - 1 →
    Set.ncard {buffer : BaseBuffer n | acceptBase n (n - 1) buffer = some base} =
      2 ^ (8 * Digest.divCeil (Nat.size n) 8 - Nat.size n)
  rejects : ∀ (buffer : BaseBuffer n) (base : ℕ), acceptBase n (n - 1) buffer = some base →
    candidateBase n buffer = base ∧ 1 < base ∧ base < n - 1
  randomBase_draws : ∀ (σ : Type) (source : RandomSource σ) (state : σ), ∃ result state',
    IsDraw (source (Digest.divCeil (Nat.size n) 8)) (acceptBase n (n - 1)) 128 state result
        state' ∧
      randomBase source n state = (result.elim (.error .randomnessUnavailable) .ok, state')
  sampleBase_draws : ∀ (σ : Type) (source : RandomSource σ) (state : σ), ∃ result state',
    IsDraw (source (Digest.divCeil (Nat.size n) 8)) (acceptBase n (n - 1)) 128 state result
        state' ∧
      answer (sampleBase source n (n - 1) 128 state) =
        some (result.elim (.error .randomnessUnavailable) fun base ↦ .ok (base, state'))
  probablePrime_samples : ∀ (σ : Type) (source : RandomSource σ) (rounds : ℕ) (state : σ),
    probablePrime source n rounds state =
      primalityRounds source n (n - 1) (trailingZeros (n - 1))
        ((n - 1) >>> trailingZeros (n - 1)) rounds state

/-- The primality test of an odd number from five on samples its bases below minus one. -/
theorem probablePrime_eq {σ : Type} (source : RandomSource σ) {n : ℕ} (hodd : n % 2 = 1)
    (hfive : 5 ≤ n) (rounds : ℕ) (state : σ) :
    probablePrime source n rounds state =
      primalityRounds source n (n - 1) (trailingZeros (n - 1))
        ((n - 1) >>> trailingZeros (n - 1)) rounds state := by
  have hsub : (checkedSub n 1 : Panicking RsaPrivateValidationError ℕ) = pure (n - 1) := by
    rw [checkedSub, CheckedSlice.subtract_eq_some (by omega)]
    rfl
  have hzeros : (expect (trailingZerosOf (n - 1)) : Panicking RsaPrivateValidationError ℕ) =
      pure (trailingZeros (n - 1)) := by
    rw [trailingZerosOf, if_neg (by omega)]
    rfl
  rw [probablePrime, if_neg (by omega), if_neg (by omega), hsub, pure_bind, hzeros, pure_bind]

/-- The random bases of an odd number from five on are drawn without bias.

The counts are over the buffers that a source can fill in one attempt; that the loops answer what
these give is for every source. -/
theorem drawsWithoutBias {n : ℕ} (hodd : n % 2 = 1) (hfive : 5 ≤ n) : DrawsWithoutBias n := by
  have hn : n ≠ 0 := by omega
  exact
    { candidate_lt := candidateBase_lt hn
      accepts := fun base ↦ ncard_acceptBase hn
      rejects := fun buffer base ↦ acceptBase_eq_some_iff.mp
      randomBase_draws := fun σ source state ↦
        ⟨_, _, firstAccepted_isDraw _ _ _ _, randomBaseLoop_eq source n 128 state⟩
      sampleBase_draws := fun σ source state ↦
        ⟨_, _, firstAccepted_isDraw _ _ _ _, answer_sampleBase source n (n - 1) 128 state⟩
      probablePrime_samples := fun σ source ↦ probablePrime_eq source hodd hfive }

/-- The bases of thirteen are drawn without bias: each is read off sixteen buffers. -/
theorem drawsWithoutBias_thirteen : DrawsWithoutBias 13 :=
  drawsWithoutBias (by decide) (by decide)

/-! ### Whole runs -/

instance finite_baseBuffer (n : ℕ) : Finite (BaseBuffer n) := by
  have hbyte : Fintype UInt8 := Fintype.ofInjective UInt8.toFin fun _ _ ↦ UInt8.toFin_inj.mp
  infer_instance

/-- The source fills the buffers of a run from a sequence of buffers. -/
def FillsFrom {σ : Type} (source : RandomSource σ) (n : ℕ) (state : σ)
    (buffers : List.Vector (BaseBuffer n) maxBaseAttempts) : Prop :=
  ∀ index < maxBaseAttempts,
    answerAt (source (Digest.divCeil (Nat.size n) 8)) state index = buffers.toList[index]?

section Runs

variable {σ : Type} {source : RandomSource σ} {n : ℕ} {state : σ}
  {buffers : List.Vector (BaseBuffer n) maxBaseAttempts}

/-- On a random source that fills every buffer `random_base` draws from the sequence of the
buffers. -/
theorem randomBase_eq_findSome? (hfills : FillsFrom source n state buffers) :
    (randomBase source n state).1 =
      (buffers.toList.findSome? (acceptBase n (n - 1))).elim (.error .randomnessUnavailable)
        .ok := by
  have hlength := buffers.toList_length
  have hdrawn := @firstAccepted_eq_findSome? _ _ _ (source (Digest.divCeil (Nat.size n) 8))
    (acceptBase n (n - 1)) buffers.toList state (by rwa [hlength])
  rw [hlength] at hdrawn
  rw [randomBase, randomBaseLoop_eq]
  dsimp only
  rw [hdrawn]

/-- The sequences of buffers that a base is drawn from. -/
theorem randomBase_eq_ok_iff (hfills : FillsFrom source n state buffers) {base : ℕ} :
    (randomBase source n state).1 = .ok base ↔
      buffers ∈ drawsOf (acceptBase n (n - 1)) maxBaseAttempts base := by
  rw [randomBase_eq_findSome? hfills]
  change _ ↔ buffers.toList.findSome? (acceptBase n (n - 1)) = some base
  cases buffers.toList.findSome? (acceptBase n (n - 1)) with
  | none => exact iff_of_false (fun habsurd ↦ nomatch habsurd) fun habsurd ↦ nomatch habsurd
  | some drawn => rw [Option.elim_some, Except.ok.injEq, Option.some.injEq]

end Runs

/-- Every base is drawn from the same number of sequences of buffers, on every random source that
fills its buffers from them. -/
theorem randomBase_unbiased {n base base' : ℕ} (hbase : 1 < base ∧ base < n - 1)
    (hbase' : 1 < base' ∧ base' < n - 1) :
    ∃ draws : ℕ → Set (List.Vector (BaseBuffer n) maxBaseAttempts),
      (draws base).ncard = (draws base').ncard ∧
      ∀ (σ : Type) (source : RandomSource σ) (state : σ)
        (buffers : List.Vector (BaseBuffer n) maxBaseAttempts), FillsFrom source n state buffers →
          ∀ drawn, (randomBase source n state).1 = .ok drawn ↔ buffers ∈ draws drawn := by
  have hn : n ≠ 0 := by omega
  refine ⟨drawsOf (acceptBase n (n - 1)) maxBaseAttempts, ncard_draws_eq _ ?_ maxBaseAttempts,
    fun _ _ _ _ hfills _ ↦ randomBase_eq_ok_iff hfills⟩
  rw [ncard_acceptBase hn hbase.1 hbase.2, ncard_acceptBase hn hbase'.1 hbase'.2]

end SoftwareKeyCore.RsaValidation
