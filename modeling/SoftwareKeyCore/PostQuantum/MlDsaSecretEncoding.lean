import SoftwareKeyCore.Foundation.BitPacking
import SoftwareKeyCore.Foundation.FuelledComputation
import SoftwareKeyCore.Foundation.TransitionSystem

/-!
# The encodings of the small secrets of ML-DSA

`post_quantum/ml_dsa_validation.rs`, `valid_small_secret_encoding`: the check that every code of a
packed secret is at most twice the bound of the coefficients. The bytes enter an accumulator of 32
bits from above, and the codes leave it from below (`CodeReader`).

`Reads` is the invariant of the reader, and `returns_validSmallSecretEncoding` what the check
returns. `readerSystem` is the reader as a transition system, whose reachable states are those of
the two loops; `validSmallSecretEncoding_reads_every_code` says that its accumulator always holds
the bits that no code was taken of, and that no shift loses a bit.
-/

set_option autoImplicit false
set_option relaxedAutoImplicit false

namespace SoftwareKeyCore.MlDsaValidation

open BitPacking Fuelled

/-! ### The check -/

/-- `u32::ilog2`. -/
def ilog2 (value : ℕ) : Option ℕ :=
  if value = 0 then none else some (Nat.log2 value)

/-- The left shift of a `u32`. -/
def shiftLeft (value count : ℕ) : Option ℕ :=
  if count < 32 then some ((value <<< count) % 2 ^ 32) else none

/-- The variables of the loops of `valid_small_secret_encoding`. -/
structure CodeReader where
  accumulator : ℕ
  available : ℕ
  valid : Bool
  deriving DecidableEq, Repr

/-- The inner loop: takes a code, or leaves the reader. -/
def takeCode (eta width mask : ℕ) (reader : CodeReader) : CodeReader ⊕ CodeReader :=
  if width ≤ reader.available then
    .inl
      { accumulator := reader.accumulator >>> width
        available := reader.available - width
        valid := reader.valid && decide (reader.accumulator &&& mask ≤ 2 * eta) }
  else .inr reader

/-- The body of the loop over the bytes. -/
def readByte (eta width mask : ℕ) (reader : CodeReader) (byte : UInt8) : Fuelled CodeReader := do
  let shifted ← ofOption (shiftLeft byte.toNat reader.available)
  iterate (takeCode eta width mask)
    { reader with
      accumulator := reader.accumulator ||| shifted
      available := reader.available + 8 }

/-- `valid_small_secret_encoding`. -/
def validSmallSecretEncoding (encoded : ByteString) (eta : ℕ) : Fuelled Bool := do
  let log ← ofOption (ilog2 (2 * eta))
  let width := log + 1
  let power ← ofOption (shiftLeft 1 width)
  let reader ← encoded.foldlM (readByte eta width (power - 1)) ⟨0, 0, true⟩
  pure reader.valid

/-! ### The invariant of the reader -/

/-- The reader took some codes of the bytes and holds the other bits. -/
structure Reads (eta width : ℕ) (bytes : ByteString) (taken : ℕ) (reader : CodeReader) : Prop where
  available_eq : width * taken + reader.available = 8 * bytes.length
  accumulator_eq : reader.accumulator = fromLeBytes bytes / 2 ^ (width * taken)
  valid_iff : reader.valid = true ↔ ∀ index < taken, bitField width bytes index ≤ 2 * eta

section Reader

variable {eta width : ℕ} {bytes : ByteString} {taken : ℕ} {reader : CodeReader}

/-- The reader of no bytes. -/
theorem reads_start (eta width : ℕ) : Reads eta width [] 0 ⟨0, 0, true⟩ where
  available_eq := by rw [mul_zero, List.length_nil, mul_zero, zero_add]
  accumulator_eq := by rw [fromLeBytes_nil, Nat.zero_div]
  valid_iff := iff_of_true rfl fun index hindex ↦ absurd hindex (Nat.not_lt_zero index)

/-- The mask reads a code. -/
theorem and_mask (hreads : Reads eta width bytes taken reader) :
    reader.accumulator &&& (2 ^ width - 1) = bitField width bytes taken := by
  rw [Nat.and_two_pow_sub_one_eq_mod, hreads.accumulator_eq, bitField]

/-- Taking a code keeps the invariant. -/
theorem Reads.take (hreads : Reads eta width bytes taken reader)
    (havailable : width ≤ reader.available) :
    Reads eta width bytes (taken + 1)
      { accumulator := reader.accumulator >>> width
        available := reader.available - width
        valid := reader.valid && decide (reader.accumulator &&& (2 ^ width - 1) ≤ 2 * eta) } where
  available_eq := by
    have htotal := hreads.available_eq
    rw [mul_add, mul_one]
    show width * taken + width + (reader.available - width) = 8 * bytes.length
    omega
  accumulator_eq := by
    show reader.accumulator >>> width = _
    rw [Nat.shiftRight_eq_div_pow, hreads.accumulator_eq, Nat.div_div_eq_div_mul, ← pow_add,
      mul_add, mul_one]
  valid_iff := by
    show (reader.valid && decide _) = true ↔ _
    rw [Bool.and_eq_true, decide_eq_true_iff, and_mask hreads, hreads.valid_iff]
    constructor
    · rintro ⟨hbefore, hlast⟩ index hindex
      rcases Nat.lt_succ_iff_lt_or_eq.mp hindex with hlt | rfl
      · exact hbefore index hlt
      · exact hlast
    · intro hall
      refine ⟨fun index hindex ↦ ?_, hall taken (Nat.lt_succ_self taken)⟩
      exact hall index (Nat.lt_succ_of_lt hindex)

/-- The inner loop takes the codes that are complete. -/
theorem Reads.drain (hwidth : 0 < width) (hreads : Reads eta width bytes taken reader) :
    ∃ reader' taken', (iterate (takeCode eta width (2 ^ width - 1)) reader).Returns reader' ∧
      Reads eta width bytes taken' reader' ∧ reader'.available < width := by
  induction havailable : reader.available using Nat.strong_induction_on generalizing reader taken
    with
  | _ available ih =>
    by_cases hcomplete : width ≤ reader.available
    · have hbody : takeCode eta width (2 ^ width - 1) reader = .inl _ :=
        if_pos hcomplete
      obtain ⟨reader', taken', hreturns, hrest⟩ :=
        ih (reader.available - width) (by omega) (hreads.take hcomplete) rfl
      exact ⟨reader', taken', (returns_iterate_next hbody).mpr hreturns, hrest⟩
    · exact ⟨reader, taken, returns_iterate_done (if_neg hcomplete), hreads, by omega⟩

/-- A byte enters the reader. -/
theorem Reads.append (hreads : Reads eta width bytes taken reader) (byte : UInt8) :
    Reads eta width (bytes ++ [byte]) taken
      { reader with
        accumulator := reader.accumulator ||| byte.toNat <<< reader.available
        available := reader.available + 8 } where
  available_eq := by
    have htotal := hreads.available_eq
    rw [List.length_append, List.length_singleton]
    show width * taken + (reader.available + 8) = _
    omega
  accumulator_eq := by
    have htotal := hreads.available_eq
    have hcount : width * taken ≤ 8 * bytes.length := by omega
    have hleft : 8 * bytes.length - width * taken = reader.available := by omega
    have hbound := fromLeBytes_div_lt hcount
    rw [hleft, ← hreads.accumulator_eq] at hbound
    show reader.accumulator ||| byte.toNat <<< reader.available = _
    rw [fromLeBytes_append_div hcount, hleft, ← hreads.accumulator_eq, Nat.lor_comm,
      Nat.shiftLeft_eq, mul_comm, ← Nat.two_pow_add_eq_or_of_lt hbound, add_comm]
  valid_iff := by
    have htotal := hreads.available_eq
    show reader.valid = true ↔ _
    rw [hreads.valid_iff]
    refine forall₂_congr fun index hindex ↦ ?_
    have hcomplete : width * (index + 1) ≤ 8 * bytes.length := by
      have hmul : width * (index + 1) ≤ width * taken := Nat.mul_le_mul_left width hindex
      omega
    rw [bitField_append hcomplete]

/-- A byte that enters a reader without a complete code is not cut off. -/
theorem shiftLeft_byte {width available : ℕ} (havailable : available < width) (hsmall : width ≤ 25)
    (byte : UInt8) : shiftLeft byte.toNat available = some (byte.toNat <<< available) := by
  have hfits : byte.toNat <<< available < 2 ^ 32 := by
    have hbyte : byte.toNat < 2 ^ 8 := byte.toNat_lt
    rw [Nat.shiftLeft_eq]
    calc byte.toNat * 2 ^ available
        < 2 ^ 8 * 2 ^ available := Nat.mul_lt_mul_of_pos_right hbyte (by positivity)
      _ = 2 ^ (8 + available) := (pow_add 2 8 _).symm
      _ ≤ 2 ^ 32 := Nat.pow_le_pow_right Nat.two_pos (by omega)
  rw [shiftLeft, if_pos (by omega), Nat.mod_eq_of_lt hfits]

/-- A byte is read: it fits into the accumulator. -/
theorem Reads.read (hwidth : 0 < width) (hsmall : width ≤ 25)
    (hreads : Reads eta width bytes taken reader) (havailable : reader.available < width)
    (byte : UInt8) :
    ∃ reader' taken', (readByte eta width (2 ^ width - 1) reader byte).Returns reader' ∧
      Reads eta width (bytes ++ [byte]) taken' reader' ∧ reader'.available < width := by
  obtain ⟨reader', taken', hreturns, hrest⟩ := (hreads.append byte).drain hwidth
  refine ⟨reader', taken', ?_, hrest⟩
  rw [readByte, returns_bind]
  exact ⟨_, returns_ofOption.mpr (shiftLeft_byte havailable hsmall byte), hreturns⟩

/-- The bytes are read. -/
theorem exists_returns_foldlM (hwidth : 0 < width) (hsmall : width ≤ 25) (encoded : ByteString) :
    ∃ reader taken,
      (encoded.foldlM (readByte eta width (2 ^ width - 1)) ⟨0, 0, true⟩).Returns reader ∧
        Reads eta width encoded taken reader ∧ reader.available < width := by
  induction encoded using List.reverseRecOn with
  | nil =>
    exact ⟨⟨0, 0, true⟩, 0, returns_pure.mpr rfl, reads_start eta width, hwidth⟩
  | append_singleton bytes byte ih =>
    obtain ⟨reader, taken, hreturns, hreads, havailable⟩ := ih
    obtain ⟨reader', taken', hlast, hrest⟩ := hreads.read hwidth hsmall havailable byte
    refine ⟨reader', taken', ?_, hrest⟩
    rw [List.foldlM_append, returns_bind]
    refine ⟨reader, hreturns, ?_⟩
    rw [List.foldlM_cons, returns_bind]
    exact ⟨reader', hlast, returns_pure.mpr rfl⟩

end Reader

/-- The check returns whether every complete code is at most twice the bound. -/
theorem returns_validSmallSecretEncoding {eta : ℕ} (heta : 0 < eta)
    (hsmall : Nat.log2 (2 * eta) < 25) (encoded : ByteString) (result : Bool) :
    (validSmallSecretEncoding encoded eta).Returns result ↔
      (result = true ↔ ∀ index < 8 * encoded.length / (Nat.log2 (2 * eta) + 1),
        bitField (Nat.log2 (2 * eta) + 1) encoded index ≤ 2 * eta) := by
  have hlog : ilog2 (2 * eta) = some (Nat.log2 (2 * eta)) := if_neg (by omega)
  have hfits : 1 <<< (Nat.log2 (2 * eta) + 1) < 2 ^ 32 := by
    rw [Nat.one_shiftLeft]
    exact Nat.pow_lt_pow_right (by omega) (by omega)
  have hpower : shiftLeft 1 (Nat.log2 (2 * eta) + 1) = some (2 ^ (Nat.log2 (2 * eta) + 1)) := by
    rw [shiftLeft, if_pos (by omega), Nat.mod_eq_of_lt hfits, Nat.one_shiftLeft]
  obtain ⟨reader, taken, hreturns, hreads, havailable⟩ :=
    @exists_returns_foldlM eta _ (Nat.succ_pos (Nat.log2 (2 * eta))) (by omega) encoded
  have htaken : 8 * encoded.length / (Nat.log2 (2 * eta) + 1) = taken := by
    rw [← hreads.available_eq, Nat.mul_add_div (Nat.succ_pos _), Nat.div_eq_of_lt havailable,
      add_zero]
  have hvalid : (validSmallSecretEncoding encoded eta).Returns reader.valid := by
    simp only [validSmallSecretEncoding, returns_bind, returns_ofOption, returns_pure]
    exact ⟨_, hlog, _, hpower, reader, hreturns, rfl⟩
  rw [htaken, ← hreads.valid_iff]
  constructor
  · intro hresult
    rw [hresult.unique hvalid]
  · intro hresult
    rw [Bool.eq_iff_iff.mpr hresult]
    exact hvalid

/-! ### The states of the loops -/

/-- The loops over a byte string that grows: a byte enters the reader when no code is complete, and
a complete code is taken. -/
def readerSystem (eta width : ℕ) :
    TransitionSystem (ByteString × CodeReader) (Option UInt8) where
  Initial state := state = ([], ⟨0, 0, true⟩)
  step state event :=
    match event with
    | some byte =>
      if state.2.available < width then
        (shiftLeft byte.toNat state.2.available).map fun shifted ↦
          (state.1 ++ [byte],
            { state.2 with
              accumulator := state.2.accumulator ||| shifted
              available := state.2.available + 8 })
      else none
    | none =>
      match takeCode eta width (2 ^ width - 1) state.2 with
      | .inl next => some (state.1, next)
      | .inr _ => none

section System

variable {eta width : ℕ}

/-- Each state of the loops satisfies the invariant. -/
theorem exists_reads_of_reachable (hsmall : width ≤ 25) {state : ByteString × CodeReader}
    (hreachable : (readerSystem eta width).Reachable state) :
    ∃ taken, Reads eta width state.1 taken state.2 := by
  refine hreachable.invariant (fun state ↦ ∃ taken, Reads eta width state.1 taken state.2) ?_ ?_
  · rintro state rfl
    exact ⟨0, reads_start eta width⟩
  · rintro ⟨bytes, reader⟩ event ⟨bytes', reader'⟩ - - ⟨taken, hreads⟩ hstep
    cases event with
    | some byte =>
      dsimp only [readerSystem] at hstep
      split_ifs at hstep with havailable
      rw [shiftLeft_byte havailable hsmall, Option.map_some, Option.some.injEq] at hstep
      obtain ⟨rfl, rfl⟩ := Prod.mk.inj hstep
      exact ⟨taken, hreads.append byte⟩
    | none =>
      by_cases hcomplete : width ≤ reader.available
      · have hbody : takeCode eta width (2 ^ width - 1) reader = .inl _ := if_pos hcomplete
        dsimp only [readerSystem] at hstep
        rw [hbody, Option.some.injEq] at hstep
        obtain ⟨rfl, rfl⟩ := Prod.mk.inj hstep
        exact ⟨taken + 1, hreads.take hcomplete⟩
      · have hbody : takeCode eta width (2 ^ width - 1) reader = .inr reader :=
          if_neg hcomplete
        dsimp only [readerSystem] at hstep
        rw [hbody] at hstep
        exact absurd hstep (Option.some_ne_none _).symm

/-- The inner loop goes through states of the loops. -/
theorem reachable_iterate {bytes : ByteString} {reader reader' : CodeReader}
    (hreturns : (iterate (takeCode eta width (2 ^ width - 1)) reader).Returns reader')
    (hreachable : (readerSystem eta width).Reachable (bytes, reader)) :
    (readerSystem eta width).Reachable (bytes, reader') := by
  revert hreachable
  refine hreturns.iterate_induction
    (motive := fun reader ↦ (readerSystem eta width).Reachable (bytes, reader) →
      (readerSystem eta width).Reachable (bytes, reader')) ?_ ?_
  · intro reader hdone hreachable
    rw [takeCode] at hdone
    split_ifs at hdone
    rwa [← Sum.inr.inj hdone]
  · intro reader next hnext ih hreachable
    have hstep : (readerSystem eta width).step (bytes, reader) none = some (bytes, next) := by
      dsimp only [readerSystem]
      rw [hnext]
    exact ih (.next hreachable trivial hstep)

/-- The loop over the bytes goes through states of the loops. -/
theorem reachable_foldlM (hwidth : 0 < width) (hsmall : width ≤ 25) {encoded : ByteString}
    {reader : CodeReader}
    (hreturns :
      (encoded.foldlM (readByte eta width (2 ^ width - 1)) ⟨0, 0, true⟩).Returns reader) :
    (readerSystem eta width).Reachable (encoded, reader) := by
  induction encoded using List.reverseRecOn generalizing reader with
  | nil =>
    rw [List.foldlM_nil, returns_pure] at hreturns
    exact .start (congrArg (Prod.mk []) hreturns.symm)
  | append_singleton bytes byte ih =>
    simp only [List.foldlM_append, returns_bind, List.foldlM_cons, List.foldlM_nil,
      returns_pure] at hreturns
    obtain ⟨before, hbefore, after, hafter, rfl⟩ := hreturns
    obtain ⟨same, taken, hsame, -, havailable⟩ :=
      @exists_returns_foldlM eta width hwidth hsmall bytes
    obtain rfl := hsame.unique hbefore
    simp only [readByte, returns_bind, returns_ofOption] at hafter
    obtain ⟨shifted, hshifted, hdrain⟩ := hafter
    have hstep : (readerSystem eta width).step (bytes, same) (some byte) = some (bytes ++ [byte],
        { same with
          accumulator := same.accumulator ||| shifted
          available := same.available + 8 }) := by
      dsimp only [readerSystem]
      rw [if_pos havailable, hshifted, Option.map_some]
    exact reachable_iterate hdrain (.next (ih hbefore) trivial hstep)

end System

/-- The check of the codes of a width reads every code: it returns whether all of them are at most
twice the bound, its loops go through states in which the accumulator holds the bits that no code
was taken of, and a byte enters it whole. -/
structure ReadsEveryCode (eta width : ℕ) : Prop where
  returns : ∀ encoded : ByteString, ∃ valid, (validSmallSecretEncoding encoded eta).Returns valid ∧
    (valid = true ↔ ∀ index, width * (index + 1) ≤ (bitString encoded).length →
      Nat.ofDigits 2 (((bitString encoded).drop (width * index)).take width) ≤ 2 * eta)
  loops : ∀ (encoded : ByteString) (reader : CodeReader),
    (encoded.foldlM (readByte eta width (2 ^ width - 1)) ⟨0, 0, true⟩).Returns reader →
      (readerSystem eta width).Reachable (encoded, reader) ∧ reader.available < width
  holds : ∀ (bytes : ByteString) (reader : CodeReader),
    (readerSystem eta width).Reachable (bytes, reader) → ∃ taken,
      width * taken + reader.available = (bitString bytes).length ∧
        reader.accumulator = Nat.ofDigits 2 ((bitString bytes).drop (width * taken))
  shifts : ∀ (bytes : ByteString) (reader : CodeReader),
    (readerSystem eta width).Reachable (bytes, reader) → reader.available < width →
      ∀ byte : UInt8, reader.available < 32 ∧
        shiftLeft byte.toNat reader.available = some (byte.toNat * 2 ^ reader.available)

/-- The check reads every code of a bound that is small. -/
theorem readsEveryCode {eta width : ℕ} (heta : 0 < eta) (hwidth : Nat.log2 (2 * eta) + 1 = width)
    (hsmall : width ≤ 25) : ReadsEveryCode eta width := by
  have hpositive : 0 < width := hwidth ▸ Nat.succ_pos _
  refine ⟨fun encoded ↦ ?_, fun encoded reader hreturns ↦ ?_, fun bytes reader hreachable ↦ ?_,
    fun bytes reader _ havailable byte ↦ ?_⟩
  · have hvalid := returns_validSmallSecretEncoding heta (by omega) encoded
    rw [hwidth] at hvalid
    refine ⟨decide (∀ index < 8 * encoded.length / width,
      bitField width encoded index ≤ 2 * eta), (hvalid _).mpr decide_eq_true_iff, ?_⟩
    rw [decide_eq_true_iff]
    refine forall_congr' fun index ↦ ?_
    rw [bitField_eq_ofDigits, length_bitString, ← Nat.succ_le_iff,
      Nat.le_div_iff_mul_le hpositive, mul_comm]
  · refine ⟨reachable_foldlM hpositive hsmall hreturns, ?_⟩
    obtain ⟨same, taken, hsame, -, havailable⟩ :=
      @exists_returns_foldlM eta width hpositive hsmall encoded
    exact hsame.unique hreturns ▸ havailable
  · obtain ⟨taken, hreads⟩ := exists_reads_of_reachable hsmall hreachable
    refine ⟨taken, ?_, ?_⟩
    · rw [length_bitString]
      exact hreads.available_eq
    · rw [← fromLeBytes_div_eq_ofDigits]
      exact hreads.accumulator_eq
  · refine ⟨by omega, ?_⟩
    rw [shiftLeft_byte havailable hsmall, Nat.shiftLeft_eq]

/-- The checks of the codes of three and of four bits read every code. -/
theorem validSmallSecretEncoding_reads_every_code : ReadsEveryCode 2 3 ∧ ReadsEveryCode 4 4 :=
  ⟨readsEveryCode (by decide) (by decide) (by decide),
    readsEveryCode (by decide) (by decide) (by decide)⟩

end SoftwareKeyCore.MlDsaValidation
