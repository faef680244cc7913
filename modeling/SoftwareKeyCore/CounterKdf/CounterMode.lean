import SoftwareKeyCore.CounterKdf

/-!
# The counter KDF is counter mode after a full validation

`counter_kdf.rs`, `cmac_counter_kdf_with`, over a CMAC operation with a state of its own, which may
answer any block or any error at every call.

`IsRefused` lists what is wrong with a list of fields and a length of the output, and
`kdfInputs` are the inputs of counter mode: the fields in their order, with the counter counting
from one. `scanFields_eq_ok_iff` is what the validating loop computes, by induction over the
fields, and `nodup_kdfInputs` that the counter does not wrap over accepted fields.
`cmacCounterKdfWith_eq_counterMode` puts the two loops together: a refusal comes before the first
call, and otherwise the calls are the inputs in order (`DerivesFrom`).
-/

set_option autoImplicit false
set_option relaxedAutoImplicit false

namespace SoftwareKeyCore.CounterKdf

open ByteString CallbackSession CheckedSlice FallibleResult

/-! ### Counter mode -/

/-- The formats of the counters among the fields. -/
def counterFormats : List CounterKdfField → List IntegerFormat
  | [] => []
  | .counter format :: fields => format :: counterFormats fields
  | _ :: fields => counterFormats fields

/-- The formats of the lengths among the fields, with what they count. -/
def lengthFormats : List CounterKdfField → List (IntegerFormat × LengthMethod)
  | [] => []
  | .length format method :: fields => (format, method) :: lengthFormats fields
  | _ :: fields => lengthFormats fields

/-- The number of bits that a length field counts: those of the output, or those of all blocks. -/
def selectedBits (outputLength : ℕ) : LengthMethod → ℕ
  | .key => outputLength * 8
  | .segments => outputLength ⌈/⌉ 16 * 128

/-- The number of bytes of a field. -/
def fieldLength : CounterKdfField → ℕ
  | .bytes bytes => bytes.length
  | .counter format => format.widthBits / 8
  | .length format _ => format.widthBits / 8

/-- The number of bytes of an input. -/
def inputSize (fields : List CounterKdfField) : ℕ :=
  (fields.map fieldLength).sum

/-- The numbers of bits of the blocks and of bytes of the fields are words, and the second is the
length of a byte slice. -/
def SizesFit (fields : List CounterKdfField) (outputLength : ℕ) : Prop :=
  outputLength ⌈/⌉ 16 * 128 < 2 ^ 64 ∧ inputSize fields < 2 ^ 63

/-- What is wrong with fields and a length of the output: no output, not exactly one counter, more
than one length, a width that is not of whole bytes or too large, or a number that does not fit its
width. -/
def IsRefused (fields : List CounterKdfField) (outputLength : ℕ) : Prop :=
  outputLength = 0 ∨ (counterFormats fields).length ≠ 1 ∨ 1 < (lengthFormats fields).length ∨
    (∃ format ∈ counterFormats fields, format.widthBits ∉ [8, 16, 24, 32]) ∨
    (∃ entry ∈ lengthFormats fields, entry.1.widthBits ∉ [8, 16, 24, 32, 40, 48, 56, 64]) ∨
    (∃ format ∈ counterFormats fields, 2 ^ format.widthBits ≤ outputLength ⌈/⌉ 16) ∨
    ∃ entry ∈ lengthFormats fields, 2 ^ entry.1.widthBits ≤ selectedBits outputLength entry.2

/-- An integer in a format. -/
def encodeInteger (format : IntegerFormat) (value : ℕ) : ByteString :=
  if format.littleEndian then (toBeBytes (format.widthBits / 8) value).reverse
  else toBeBytes (format.widthBits / 8) value

/-- A field in an iteration. -/
def encodeField (outputLength iteration : ℕ) : CounterKdfField → ByteString
  | .bytes bytes => bytes
  | .counter format => encodeInteger format iteration
  | .length format method => encodeInteger format (selectedBits outputLength method)

/-- The input of an iteration: its fields in order. -/
def kdfInput (fields : List CounterKdfField) (outputLength iteration : ℕ) : ByteString :=
  fields.flatMap (encodeField outputLength iteration)

/-- The inputs of counter mode, for the counters from one on. -/
def kdfInputs (fields : List CounterKdfField) (outputLength : ℕ) : List ByteString :=
  (List.range' 1 (outputLength ⌈/⌉ 16)).map (kdfInput fields outputLength)

/-! ### The validating loop -/

section Scan

variable {blocks keyBits segmentBits : ℕ} {scan final : FieldScan}

theorem IntegerFormat.valid_iff_of_le_64 {format : IntegerFormat} :
    format.Valid 64 ↔ format.widthBits ∈ [8, 16, 24, 32, 40, 48, 56, 64] := by
  simp only [IntegerFormat.Valid, List.mem_cons, List.not_mem_nil, or_false]
  omega

theorem IntegerFormat.valid_iff_of_le_32 {format : IntegerFormat} :
    format.Valid 32 ↔ format.widthBits ∈ [8, 16, 24, 32] := by
  simp only [IntegerFormat.Valid, List.mem_cons, List.not_mem_nil, or_false]
  omega

/-- A sum that is a word. -/
theorem orError_checkedAdd_eq_ok_iff {ε : Type} {error : ε} {left right sum : ℕ} :
    orError error (checkedAdd left right) = .ok sum ↔ left + right < 2 ^ 64 ∧ left + right = sum :=
  orError_eq_ok_iff.trans checkedAdd_eq_some_iff

/-- A step of the loop adds the size of its field, up to a word. -/
theorem scanField_eq_ok_iff {field : CounterKdfField} :
    scanField blocks keyBits segmentBits scan field = .ok final ↔
      ∃ next, fieldSize blocks keyBits segmentBits scan field = .ok next ∧
        next.1.inputLength + next.2 < 2 ^ 64 ∧
        final = { next.1 with inputLength := next.1.inputLength + next.2 } := by
  unfold scanField
  rw [bind_eq_ok_iff]
  refine exists_congr fun next ↦ and_congr_right fun _ ↦ ?_
  rw [bind_eq_ok_iff]
  constructor
  · rintro ⟨sum, hsum, hfinal⟩
    obtain ⟨hlt, rfl⟩ := orError_checkedAdd_eq_ok_iff.mp hsum
    exact ⟨hlt, (Except.ok.inj hfinal).symm⟩
  · rintro ⟨hlt, rfl⟩
    exact ⟨_, orError_checkedAdd_eq_ok_iff.mpr ⟨hlt, rfl⟩, rfl⟩

/-- A byte string adds its length. -/
theorem scanField_bytes_eq_ok_iff {bytes : ByteString} :
    scanField blocks keyBits segmentBits scan (.bytes bytes) = .ok final ↔
      scan.inputLength + bytes.length < 2 ^ 64 ∧
        final = { scan with inputLength := scan.inputLength + bytes.length } := by
  rw [scanField_eq_ok_iff, fieldSize]
  simp only [Except.ok.injEq, exists_eq_left']

/-- A counter is valid, the first one, and fits the number of the blocks. -/
theorem scanField_counter_eq_ok_iff {format : IntegerFormat} :
    scanField blocks keyBits segmentBits scan (.counter format) = .ok final ↔
      (format.Valid 32 ∧ format.Fits blocks) ∧ scan.counter = none ∧
        scan.inputLength + format.widthBits / 8 < 2 ^ 64 ∧
        final = { scan with
          counter := some format, inputLength := scan.inputLength + format.widthBits / 8 } := by
  rw [scanField_eq_ok_iff, fieldSize]
  simp only [ite_error_eq_ok_iff, Except.ok.injEq, not_or, not_not, Option.not_isSome_iff_eq_none]
  constructor
  · rintro ⟨next, ⟨⟨hvalid, hfirst⟩, hfits, rfl⟩, hsum, hfinal⟩
    exact ⟨⟨hvalid, hfits⟩, hfirst, hsum, hfinal⟩
  · rintro ⟨⟨hvalid, hfits⟩, hfirst, hsum, hfinal⟩
    exact ⟨_, ⟨⟨hvalid, hfirst⟩, hfits, rfl⟩, hsum, hfinal⟩

/-- A length is valid, the first one, and fits the number of the bits. -/
theorem scanField_length_eq_ok_iff {format : IntegerFormat} {method : LengthMethod}
    {outputLength : ℕ} :
    scanField blocks (outputLength * 8) (outputLength ⌈/⌉ 16 * 128) scan
        (.length format method) = .ok final ↔
      (format.Valid 64 ∧ format.Fits (selectedBits outputLength method)) ∧ scan.length = none ∧
        scan.inputLength + format.widthBits / 8 < 2 ^ 64 ∧
        final = { scan with
          length := some (selectedBits outputLength method),
          inputLength := scan.inputLength + format.widthBits / 8 } := by
  rw [scanField_eq_ok_iff]
  unfold fieldSize
  simp only [ite_error_eq_ok_iff, Except.ok.injEq, not_or, not_not, Option.not_isSome_iff_eq_none]
  constructor
  · rintro ⟨next, ⟨⟨hvalid, hfirst⟩, hfits, rfl⟩, hsum, hfinal⟩
    exact ⟨⟨hvalid, hfits⟩, hfirst, hsum, hfinal⟩
  · rintro ⟨⟨hvalid, hfits⟩, hfirst, hsum, hfinal⟩
    exact ⟨_, ⟨⟨hvalid, hfirst⟩, hfits, rfl⟩, hsum, hfinal⟩

/-- Every counter and every length among the fields is valid and fits its number. -/
def FormatsFit (fields : List CounterKdfField) (outputLength : ℕ) : Prop :=
  (∀ format ∈ counterFormats fields, format.Valid 32 ∧ format.Fits (outputLength ⌈/⌉ 16)) ∧
    ∀ entry ∈ lengthFormats fields,
      entry.1.Valid 64 ∧ entry.1.Fits (selectedBits outputLength entry.2)

/-- The counters that the loop has met after the fields. -/
def scannedCounters (scan : FieldScan) (fields : List CounterKdfField) : List IntegerFormat :=
  scan.counter.toList ++ counterFormats fields

/-- The numbers of bits of the lengths that the loop has met after the fields. -/
def scannedLengths (scan : FieldScan) (fields : List CounterKdfField) (outputLength : ℕ) : List ℕ :=
  scan.length.toList ++ (lengthFormats fields).map fun entry ↦ selectedBits outputLength entry.2

/-- The fields are accepted from a state of the loop, and lead to a state: all formats fit, there is
at most one counter and one length, and the size of the fields is a word. -/
def ScanAccepts (outputLength : ℕ) (scan final : FieldScan) (fields : List CounterKdfField) :
    Prop :=
  FormatsFit fields outputLength ∧ (scannedCounters scan fields).length ≤ 1 ∧
    (scannedLengths scan fields outputLength).length ≤ 1 ∧
    scan.inputLength + inputSize fields < 2 ^ 64 ∧
    final = ⟨(scannedCounters scan fields).head?, (scannedLengths scan fields outputLength).head?,
      scan.inputLength + inputSize fields⟩

section Steps

variable {fields : List CounterKdfField} {outputLength : ℕ}

theorem scanAccepts_nil (hscan : scan.inputLength < 2 ^ 64) :
    ScanAccepts outputLength scan final [] ↔ scan = final := by
  have hfits : FormatsFit [] outputLength :=
    ⟨fun _ hmem ↦ absurd hmem List.not_mem_nil, fun _ hmem ↦ absurd hmem List.not_mem_nil⟩
  have hcounters : scannedCounters scan [] = scan.counter.toList := List.append_nil _
  have hlengths : scannedLengths scan [] outputLength = scan.length.toList := List.append_nil _
  have hsize : scan.inputLength + inputSize [] = scan.inputLength := Nat.add_zero _
  rw [ScanAccepts, hcounters, hlengths, hsize, Option.head?_toList, Option.head?_toList]
  constructor
  · rintro ⟨-, -, -, -, rfl⟩
    rfl
  · rintro rfl
    exact ⟨hfits, Option.length_toList_le, Option.length_toList_le, hscan, rfl⟩

theorem inputSize_cons (field : CounterKdfField) :
    inputSize (field :: fields) = fieldLength field + inputSize fields := by
  rw [inputSize, List.map_cons, List.sum_cons, inputSize]

theorem scanAccepts_bytes {bytes : ByteString} :
    ScanAccepts outputLength scan final (.bytes bytes :: fields) ↔
      ∃ next, scanField blocks keyBits segmentBits scan (.bytes bytes) = .ok next ∧
        ScanAccepts outputLength next final fields := by
  simp only [scanField_bytes_eq_ok_iff]
  rw [ScanAccepts, inputSize_cons, fieldLength, ← Nat.add_assoc]
  constructor
  · intro haccepted
    have hwhole := haccepted.2.2.2.1
    exact ⟨_, ⟨by omega, rfl⟩, haccepted⟩
  · rintro ⟨next, ⟨-, rfl⟩, haccepted⟩
    exact haccepted

/-- A second counter is refused, and a first one is the counter of the state after it. -/
theorem scanAccepts_counter {format : IntegerFormat} :
    ScanAccepts outputLength scan final (.counter format :: fields) ↔
      ∃ next, scanField (outputLength ⌈/⌉ 16) keyBits segmentBits scan (.counter format) =
        .ok next ∧ ScanAccepts outputLength next final fields := by
  have hfits : FormatsFit (.counter format :: fields) outputLength ↔
      (format.Valid 32 ∧ format.Fits (outputLength ⌈/⌉ 16)) ∧ FormatsFit fields outputLength := by
    rw [FormatsFit, counterFormats, List.forall_mem_cons, and_assoc]
    rfl
  simp only [scanField_counter_eq_ok_iff]
  rw [ScanAccepts, hfits, inputSize_cons, fieldLength, ← Nat.add_assoc]
  cases hcounter : scan.counter with
  | some counter =>
    have hlength : (scannedCounters scan (.counter format :: fields)).length =
        (counterFormats fields).length + 2 := by
      rw [scannedCounters, hcounter]
      rfl
    refine iff_of_false (fun haccepted ↦ ?_) ?_
    · have hle := haccepted.2.1
      omega
    · rintro ⟨next, ⟨-, hfirst, -⟩, -⟩
      cases hfirst
  | none =>
    have hcounters : scannedCounters scan (.counter format :: fields) =
        format :: counterFormats fields := by
      rw [scannedCounters, hcounter]
      rfl
    rw [hcounters]
    constructor
    · rintro ⟨⟨hformat, hformats⟩, haccepted⟩
      have hwhole := haccepted.2.2.1
      exact ⟨_, ⟨hformat, rfl, by omega, rfl⟩, hformats, haccepted⟩
    · rintro ⟨next, ⟨hformat, -, -, rfl⟩, hformats, haccepted⟩
      exact ⟨⟨hformat, hformats⟩, haccepted⟩

/-- A second length is refused, and a first one is the length of the state after it. -/
theorem scanAccepts_length {format : IntegerFormat} {method : LengthMethod} :
    ScanAccepts outputLength scan final (.length format method :: fields) ↔
      ∃ next, scanField blocks (outputLength * 8) (outputLength ⌈/⌉ 16 * 128) scan
        (.length format method) = .ok next ∧ ScanAccepts outputLength next final fields := by
  have hfits : FormatsFit (.length format method :: fields) outputLength ↔
      (format.Valid 64 ∧ format.Fits (selectedBits outputLength method)) ∧
        FormatsFit fields outputLength := by
    rw [FormatsFit, lengthFormats, List.forall_mem_cons, and_left_comm]
    rfl
  simp only [scanField_length_eq_ok_iff]
  rw [ScanAccepts, hfits, inputSize_cons, fieldLength, ← Nat.add_assoc]
  cases hlength : scan.length with
  | some length =>
    have hcount : (scannedLengths scan (.length format method :: fields) outputLength).length =
        (lengthFormats fields).length + 2 := by
      rw [scannedLengths, hlength, List.length_append, List.length_map]
      exact Nat.add_comm _ _
    refine iff_of_false (fun haccepted ↦ ?_) ?_
    · have hle := haccepted.2.2.1
      omega
    · rintro ⟨next, ⟨-, hfirst, -⟩, -⟩
      cases hfirst
  | none =>
    have hlengths : scannedLengths scan (.length format method :: fields) outputLength =
        selectedBits outputLength method :: (lengthFormats fields).map
          fun entry ↦ selectedBits outputLength entry.2 := by
      rw [scannedLengths, hlength]
      rfl
    rw [hlengths]
    constructor
    · rintro ⟨⟨hformat, hformats⟩, haccepted⟩
      have hwhole := haccepted.2.2.1
      exact ⟨_, ⟨hformat, rfl, by omega, rfl⟩, hformats, haccepted⟩
    · rintro ⟨next, ⟨hformat, -, -, rfl⟩, hformats, haccepted⟩
      exact ⟨⟨hformat, hformats⟩, haccepted⟩

/-- The size of the fields is a word after every step. -/
theorem inputLength_lt_of_scanField {field : CounterKdfField}
    (hnext : scanField blocks keyBits segmentBits scan field = .ok final) :
    final.inputLength < 2 ^ 64 := by
  obtain ⟨next, -, hlt, rfl⟩ := scanField_eq_ok_iff.mp hnext
  exact hlt

/-- The validating loop from any state, by the step that a field is. -/
theorem foldlM_scanField_eq_ok_iff (hscan : scan.inputLength < 2 ^ 64) :
    fields.foldlM (scanField (outputLength ⌈/⌉ 16) (outputLength * 8)
        (outputLength ⌈/⌉ 16 * 128)) scan = .ok final ↔
      ScanAccepts outputLength scan final fields := by
  induction fields generalizing scan with
  | nil => rw [List.foldlM_nil, pure_eq_ok_iff, scanAccepts_nil hscan]
  | cons field fields ih =>
    have hstep : ScanAccepts outputLength scan final (field :: fields) ↔
        ∃ next, scanField (outputLength ⌈/⌉ 16) (outputLength * 8) (outputLength ⌈/⌉ 16 * 128)
          scan field = .ok next ∧ ScanAccepts outputLength next final fields := by
      cases field with
      | bytes bytes => exact scanAccepts_bytes
      | counter format => exact scanAccepts_counter
      | length format method => exact scanAccepts_length
    rw [List.foldlM_cons, bind_eq_ok_iff, hstep]
    exact exists_congr fun next ↦ and_congr_right fun hnext ↦ ih (inputLength_lt_of_scanField hnext)

end Steps

end Scan

/-! ### Refusals -/

section Refusals

variable {fields : List CounterKdfField} {outputLength : ℕ}

/-- The state that the validating loop starts from. -/
abbrev initialScan : FieldScan :=
  { counter := none, length := none, inputLength := 0 }

/-- The state of the validating loop after fields with one counter. -/
def finalScan (fields : List CounterKdfField) (outputLength : ℕ) : FieldScan :=
  ⟨(counterFormats fields).head?, (scannedLengths initialScan fields outputLength).head?,
    inputSize fields⟩

/-- Fields and a length of the output are not refused exactly when the formats fit and there is one
counter and at most one length. -/
theorem not_isRefused_iff (hsizes : SizesFit fields outputLength) :
    ¬ IsRefused fields outputLength ↔
      outputLength ≠ 0 ∧ (counterFormats fields).length = 1 ∧ (lengthFormats fields).length ≤ 1 ∧
        FormatsFit fields outputLength := by
  have hcounter : ∀ format : IntegerFormat, format.Valid 32 ∧
      format.Fits (outputLength ⌈/⌉ 16) ↔ format.widthBits ∈ [8, 16, 24, 32] ∧
        outputLength ⌈/⌉ 16 < 2 ^ format.widthBits := by
    intro format
    rw [IntegerFormat.valid_iff_of_le_32]
    refine and_congr_right fun hvalid ↦ or_iff_right fun hwidth ↦ ?_
    rw [hwidth] at hvalid
    exact absurd hvalid (by decide)
  have hbits : ∀ method, selectedBits outputLength method < 2 ^ 64 := by
    intro method
    have hword := hsizes.1
    have hcover := le_ceilDiv_mul (by decide : 0 < 16) outputLength
    cases method with
    | key => rw [selectedBits]; omega
    | segments => exact hword
  have hlength : ∀ entry : IntegerFormat × LengthMethod, entry.1.Valid 64 ∧
      entry.1.Fits (selectedBits outputLength entry.2) ↔
        entry.1.widthBits ∈ [8, 16, 24, 32, 40, 48, 56, 64] ∧
          selectedBits outputLength entry.2 < 2 ^ entry.1.widthBits := by
    intro entry
    rw [IntegerFormat.valid_iff_of_le_64]
    refine and_congr_right fun _ ↦ or_iff_right_of_imp fun hwidth ↦ ?_
    rw [hwidth]
    exact hbits entry.2
  simp only [FormatsFit, hcounter, hlength, IsRefused, not_or, not_not, not_lt, not_exists, not_and,
    not_le, forall_and]
  tauto

/-- What the validating loop of `cmac_counter_kdf_with` accepts. -/
theorem scanFields_eq_ok_iff {scan : FieldScan} :
    scanFields (outputLength ⌈/⌉ 16) (outputLength * 8) (outputLength ⌈/⌉ 16 * 128) fields =
        .ok scan ↔
      FormatsFit fields outputLength ∧ (counterFormats fields).length ≤ 1 ∧
        (lengthFormats fields).length ≤ 1 ∧ inputSize fields < 2 ^ 64 ∧
        scan = finalScan fields outputLength := by
  have hlengths : (scannedLengths initialScan fields outputLength).length =
      (lengthFormats fields).length := List.length_map _
  have hscan : fields.foldlM (scanField (outputLength ⌈/⌉ 16) (outputLength * 8)
      (outputLength ⌈/⌉ 16 * 128)) initialScan = .ok scan ↔ _ :=
    foldlM_scanField_eq_ok_iff (by decide)
  rw [ScanAccepts, hlengths, Nat.zero_add] at hscan
  exact hscan

section

variable {m : Type → Type} [Monad m] [LawfulMonad m] [CanPanic m] {ε : Type}

/-- What is not refused goes on to the deriving loop. -/
theorem cmacCounterKdfWith_of_accepts (haccepts : ¬ IsRefused fields outputLength)
    (hsizes : SizesFit fields outputLength)
    (cmac : ByteString → m (Except ε (List.Vector UInt8 16))) :
    cmacCounterKdfWith fields outputLength cmac =
      (List.range' 1 (outputLength ⌈/⌉ 16)).foldlM
        (deriveBlock fields (finalScan fields outputLength).length outputLength cmac) [] := by
  obtain ⟨hnonzero, hcounter, hlength, hformats⟩ := (not_isRefused_iff hsizes).mp haccepts
  obtain ⟨hword, hslice⟩ := hsizes
  have hcover := le_ceilDiv_mul (by decide : 0 < 16) outputLength
  have hscan := scanFields_eq_ok_iff.mpr ⟨hformats, hcounter.le, hlength, hslice.trans (by decide),
    rfl⟩
  have hpasses : ¬ ((finalScan fields outputLength).counter.isNone ∨
      2 ^ 63 - 1 < (finalScan fields outputLength).inputLength) := by
    obtain ⟨format, hformat⟩ := List.length_eq_one_iff.mp hcounter
    rw [finalScan, hformat, not_or]
    exact ⟨Bool.false_ne_true, by dsimp only; omega⟩
  unfold cmacCounterKdfWith
  dsimp only
  rw [if_neg hnonzero, checkedMul_eq_some_iff.mpr ⟨by omega, rfl⟩, orThrow_orError_some_bind,
    checkedMul_eq_some_iff.mpr ⟨hword, rfl⟩, orThrow_orError_some_bind, hscan]
  exact (orThrow_ok_bind _ _).trans (if_neg hpasses)

/-- What is refused, or does not fit, ends with an error of the KDF and without a call. -/
theorem exists_cmacCounterKdfWith_eq_throw
    (hrefused : IsRefused fields outputLength ∨ ¬ SizesFit fields outputLength)
    (cmac : ByteString → m (Except ε (List.Vector UInt8 16))) :
    ∃ error, cmacCounterKdfWith fields outputLength cmac = throw (.kdf error) := by
  unfold cmacCounterKdfWith
  dsimp only
  by_cases hzero : outputLength = 0
  · exact ⟨_, if_pos hzero⟩
  rw [if_neg hzero]
  cases hkeyBits : checkedMul outputLength 8 with
  | none => exact ⟨_, orThrow_error_bind _ _⟩
  | some keyBits =>
    obtain ⟨-, rfl⟩ := checkedMul_eq_some_iff.mp hkeyBits
    rw [orThrow_orError_some_bind]
    cases hsegmentBits : checkedMul (outputLength ⌈/⌉ 16) 128 with
    | none => exact ⟨_, orThrow_error_bind _ _⟩
    | some segmentBits =>
      obtain ⟨hword, rfl⟩ := checkedMul_eq_some_iff.mp hsegmentBits
      rw [orThrow_orError_some_bind]
      cases hscan : scanFields (outputLength ⌈/⌉ 16) (outputLength * 8)
          (outputLength ⌈/⌉ 16 * 128) fields with
      | error error => exact ⟨_, orThrow_error_bind _ _⟩
      | ok scan =>
        refine ⟨.invalidParameters, (orThrow_ok_bind _ _).trans (if_pos ?_)⟩
        -- A scan that passes and is not refused afterwards leaves nothing that is wrong.
        obtain ⟨hformats, hcounter, hlength, -, rfl⟩ := scanFields_eq_ok_iff.mp hscan
        by_contra hpasses
        rw [not_or, finalScan, not_lt] at hpasses
        obtain ⟨hsome, hslice⟩ := hpasses
        have hsizes : SizesFit fields outputLength := ⟨hword, by dsimp only at hslice; omega⟩
        have hone : (counterFormats fields).length = 1 := by
          refine le_antisymm hcounter (List.length_pos_iff.mpr fun hnil ↦ hsome ?_)
          rw [hnil]
          rfl
        have haccepted := (not_isRefused_iff hsizes).mpr ⟨hzero, hone, hlength, hformats⟩
        exact hrefused.elim haccepted fun h ↦ h hsizes

end

end Refusals

/-! ### The inputs -/

section Inputs

variable {fields : List CounterKdfField} {outputLength : ℕ}

/-- An integer of a valid format is appended in its width. -/
theorem append_eq_encodeInteger {format : IntegerFormat} (hvalid : format.Valid 64) (value : ℕ) :
    format.append value = some (encodeInteger format value) := by
  have hwidth : format.widthBits / 8 ≤ 8 := by
    have hle := hvalid.2.1
    omega
  have hbig : (toBeBytes 8 value).drop (8 - format.widthBits / 8) =
      toBeBytes (format.widthBits / 8) value := drop_toBeBytes hwidth value
  unfold IntegerFormat.append encodeInteger
  dsimp only
  by_cases hlittle : format.littleEndian
  · rw [if_pos hlittle, if_pos hlittle, sliceTo_eq_some (by
      rw [List.length_reverse, length_toBeBytes]; exact hwidth), List.take_reverse,
      length_toBeBytes, hbig]
  · rw [if_neg hlittle, if_neg hlittle, subtract_eq_some hwidth, Option.bind_eq_bind,
      Option.bind_some, sliceFrom_eq_some (by rw [length_toBeBytes]; omega), hbig]

@[simp] theorem mem_counterFormats {format : IntegerFormat} :
    format ∈ counterFormats fields ↔ .counter format ∈ fields := by
  induction fields with
  | nil => simp [counterFormats]
  | cons field fields ih => cases field <;> simp [counterFormats, ih]

@[simp] theorem mem_lengthFormats {format : IntegerFormat} {method : LengthMethod} :
    (format, method) ∈ lengthFormats fields ↔ .length format method ∈ fields := by
  induction fields with
  | nil => simp [lengthFormats]
  | cons field fields ih => cases field <;> simp [lengthFormats, ih]

/-- A length among fields with at most one is the length that the loop has met. -/
theorem finalScan_length_eq_some (hlength : (lengthFormats fields).length ≤ 1)
    {format : IntegerFormat} {method : LengthMethod} (hmem : .length format method ∈ fields) :
    (finalScan fields outputLength).length = some (selectedBits outputLength method) := by
  have hentry := mem_lengthFormats.mpr hmem
  have hone : (lengthFormats fields).length = 1 :=
    le_antisymm hlength (List.length_pos_of_mem hentry)
  obtain ⟨entry, hsingle⟩ := List.length_eq_one_iff.mp hone
  rw [hsingle, List.mem_singleton] at hentry
  rw [finalScan, scannedLengths, hsingle, ← hentry]
  rfl

section

variable {m : Type → Type} [Monad m] [LawfulMonad m] [CanPanic m] {ε : Type}

/-- The fields of an accepted list have bytes in every iteration. -/
theorem fieldBytes_eq_pure (hformats : FormatsFit fields outputLength)
    (hlength : (lengthFormats fields).length ≤ 1) (iteration : ℕ) {field : CounterKdfField}
    (hfield : field ∈ fields) :
    (fieldBytes (finalScan fields outputLength).length iteration field :
        ExceptT (CounterKdfOperationError ε) m ByteString) =
      pure (encodeField outputLength iteration field) := by
  cases field with
  | bytes bytes => rfl
  | counter format =>
    have hvalid := (hformats.1 format (mem_counterFormats.mpr hfield)).1
    have hwide : format.Valid 64 := ⟨hvalid.1, hvalid.2.1.trans (by decide), hvalid.2.2⟩
    rw [fieldBytes, append_eq_encodeInteger hwide]
    rfl
  | length format method =>
    have hvalid := (hformats.2 (format, method) (mem_lengthFormats.mpr hfield)).1
    rw [fieldBytes, finalScan_length_eq_some hlength hfield, orThrow_orError_some_bind,
      append_eq_encodeInteger hvalid]
    rfl

/-- The input of an iteration is the input of counter mode. -/
theorem fieldInput_eq_pure (hformats : FormatsFit fields outputLength)
    (hlength : (lengthFormats fields).length ≤ 1) (iteration : ℕ) :
    (fieldInput fields (finalScan fields outputLength).length iteration :
        ExceptT (CounterKdfOperationError ε) m ByteString) =
      pure (kdfInput fields outputLength iteration) := by
  have hloop : ∀ (rest : List CounterKdfField) (before : ByteString), (∀ field ∈ rest,
      field ∈ fields) → rest.foldlM (fun input field ↦ do
        let bytes ← fieldBytes (m := m) (ε := ε) (finalScan fields outputLength).length iteration
          field
        pure (input ++ bytes)) before =
      pure (before ++ rest.flatMap (encodeField outputLength iteration)) := by
    intro rest
    induction rest with
    | nil =>
      intro before _
      rw [List.flatMap_nil, List.append_nil]
      rfl
    | cons field rest ih =>
      intro before hrest
      rw [List.forall_mem_cons] at hrest
      rw [List.foldlM_cons, fieldBytes_eq_pure hformats hlength iteration hrest.1, pure_bind,
        pure_bind, ih _ hrest.2, List.flatMap_cons, List.append_assoc]
  exact hloop fields [] fun _ hfield ↦ hfield

end

/-- Inputs with parts of equal lengths have equal parts. -/
theorem eq_of_flatMap_eq {ι : Type} {left right : ι → ByteString} {indices : List ι}
    (hlength : ∀ index ∈ indices, (left index).length = (right index).length)
    (hequal : indices.flatMap left = indices.flatMap right) :
    ∀ index ∈ indices, left index = right index := by
  induction indices with
  | nil => exact fun index hmem ↦ absurd hmem List.not_mem_nil
  | cons index indices ih =>
    rw [List.forall_mem_cons] at hlength ⊢
    rw [List.flatMap_cons, List.flatMap_cons] at hequal
    obtain ⟨hhead, htail⟩ := List.append_inj hequal hlength.1
    exact ⟨hhead, ih hlength.2 htail⟩

theorem length_encodeInteger (format : IntegerFormat) (value : ℕ) :
    (encodeInteger format value).length = format.widthBits / 8 := by
  unfold encodeInteger
  split_ifs
  · rw [List.length_reverse, length_toBeBytes]
  · exact length_toBeBytes _ _

/-- Numbers that fit a format of whole bytes are told apart by it. -/
theorem encodeInteger_injective {format : IntegerFormat} (hdvd : 8 ∣ format.widthBits)
    {left right : ℕ} (hleft : left < 2 ^ format.widthBits) (hright : right < 2 ^ format.widthBits)
    (hequal : encodeInteger format left = encodeInteger format right) : left = right := by
  have hpower : 2 ^ format.widthBits = 256 ^ (format.widthBits / 8) := by
    rw [show (256 : ℕ) = 2 ^ 8 by rfl, ← pow_mul, Nat.mul_div_cancel' hdvd]
  have hbytes : toBeBytes (format.widthBits / 8) left = toBeBytes (format.widthBits / 8) right := by
    unfold encodeInteger at hequal
    split_ifs at hequal
    · exact List.reverse_injective hequal
    · exact hequal
  rw [hpower] at hleft hright
  calc left = fromBeBytes (toBeBytes (format.widthBits / 8) left) :=
        (fromBeBytes_toBeBytes_of_lt hleft).symm
    _ = fromBeBytes (toBeBytes (format.widthBits / 8) right) := congrArg fromBeBytes hbytes
    _ = right := fromBeBytes_toBeBytes_of_lt hright

/-- The counter does not wrap: the inputs of an accepted list are distinct. -/
theorem nodup_kdfInputs (haccepts : ¬ IsRefused fields outputLength) :
    (kdfInputs fields outputLength).Nodup := by
  simp only [IsRefused, not_or, not_not, not_exists, not_and, not_le] at haccepts
  obtain ⟨-, hcounter, -, hwidth, -, hfits, -⟩ := haccepts
  obtain ⟨format, hformat⟩ := List.length_eq_one_iff.mp hcounter
  have hmem : format ∈ counterFormats fields := hformat ▸ List.mem_singleton_self format
  have hdvd : 8 ∣ format.widthBits :=
    (IntegerFormat.valid_iff_of_le_32.mpr (hwidth format hmem)).2.2
  have hlengths : ∀ left right, ∀ field ∈ fields, (encodeField outputLength left field).length =
      (encodeField outputLength right field).length := by
    intro left right field _
    cases field with
    | bytes bytes => rfl
    | counter format => exact (length_encodeInteger _ _).trans (length_encodeInteger _ _).symm
    | length format method => rfl
  have hrange : ∀ iteration ∈ List.range' 1 (outputLength ⌈/⌉ 16),
      iteration < 2 ^ format.widthBits := by
    intro iteration hiteration
    rw [List.mem_range'_1] at hiteration
    have hblocks := hfits format hmem
    omega
  refine List.Nodup.map_on ?_ List.nodup_range'
  intro left hleft right hright hequal
  have hparts := eq_of_flatMap_eq (hlengths left right) hequal
  exact encodeInteger_injective hdvd (hrange left hleft) (hrange right hright)
    (hparts _ (mem_counterFormats.mp hmem))

end Inputs

/-! ### The deriving loop -/

section Sessions

variable {σ ε : Type}

/-- A CMAC operation with a state; its calls are listed. -/
def observedCmac (cmac : ByteString → StateM σ (Except ε (List.Vector UInt8 16)))
    (input : ByteString) : Observed σ ByteString ε (Except ε (List.Vector UInt8 16)) :=
  fun (state, calls) ↦
    let (answer, state) := cmac input state
    some (answer, (state, calls ++ [⟨input, answer.map List.Vector.toList⟩]))

/-- How a derivation ends: all inputs are answered and the output is the start of the answers, or
the last call fails and its error is the result. In both cases the calls are inputs from the first
one on, in order. -/
inductive DerivesFrom (inputs : List ByteString) (outputLength : ℕ) :
    Except (CounterKdfOperationError ε) ByteString → List (Call ByteString ε) → Prop
  | answered {calls : List (Call ByteString ε)} {blocks : List ByteString}
      (hqueries : calls.map Call.query = inputs)
      (hanswers : calls.map Call.answer = blocks.map Except.ok)
      (hblocks : ∀ block ∈ blocks, block.length = 16) :
      DerivesFrom inputs outputLength (.ok (blocks.flatten.take outputLength)) calls
  | failed {answered : List (Call ByteString ε)} {query : ByteString} {error : ε}
      (hqueries : answered.map Call.query ++ [query] <+: inputs)
      (hanswered : ∀ call ∈ answered, ∃ block, call.answer = .ok block) :
      DerivesFrom inputs outputLength (.error (.cmac error)) (answered ++ [⟨query, .error error⟩])

/-- A CMAC call answers what the CMAC answers, with its error wrapped. -/
theorem run_liftCallback_observedCmac
    {cmac : ByteString → StateM σ (Except ε (List.Vector UInt8 16))} {input : ByteString}
    {state state' : σ} {answer : Except ε (List.Vector UInt8 16)}
    (hcall : cmac input state = (answer, state')) (before : List (Call ByteString ε)) :
    (liftCallback CounterKdfOperationError.cmac (observedCmac cmac input)).run (state, before) =
      some (answer.mapError .cmac,
        (state', before ++ [⟨input, answer.map List.Vector.toList⟩])) := by
  have hobserved : observedCmac cmac input (state, before) =
      some (answer, (state', before ++ [⟨input, answer.map List.Vector.toList⟩])) := by
    change some ((cmac input state).1, ((cmac input state).2, _)) = _
    rw [hcall]
  have hbind : (liftCallback CounterKdfOperationError.cmac (observedCmac cmac input)).run
        (state, before) =
      (observedCmac cmac input (state, before)).bind fun (answer, session) ↦
        some (answer.mapError .cmac, session) := by
    rw [liftCallback_eq]
    rfl
  rw [hbind, hobserved]
  rfl

/-- A block that is cut to what is missing makes up the start of the stream with what is there. -/
theorem take_append_missing {done block : ByteString} (hblock : block.length = 16)
    (outputLength : ℕ) :
    done.take outputLength ++ block.take (min (outputLength - (done.take outputLength).length) 16) =
      (done ++ block).take outputLength := by
  have hmissing : outputLength - (done.take outputLength).length = outputLength - done.length := by
    rw [List.length_take]
    omega
  rw [hmissing, List.take_append, ← hblock, ← List.take_eq_take_min]

variable {fields : List CounterKdfField} {outputLength : ℕ}
  (cmac : ByteString → StateM σ (Except ε (List.Vector UInt8 16)))

/-- The deriving loop after some blocks. Assumes: the calls so far asked for the first inputs and
were answered with the blocks. Then the loop ends a derivation of all inputs. -/
theorem exists_run_deriveBlocks (hformats : FormatsFit fields outputLength)
    (hlength : (lengthFormats fields).length ≤ 1) {inputs : List ByteString}
    {iterations : List ℕ} {before : List (Call ByteString ε)} {blocks : List ByteString}
    (hqueries : before.map Call.query ++ iterations.map (kdfInput fields outputLength) = inputs)
    (hanswers : before.map Call.answer = blocks.map Except.ok)
    (hblocks : ∀ block ∈ blocks, block.length = 16) (state : σ) :
    ∃ result state' calls,
      (iterations.foldlM (deriveBlock fields (finalScan fields outputLength).length outputLength
        (observedCmac cmac)) (blocks.flatten.take outputLength)).run (state, before) =
          some (result, (state', calls)) ∧ DerivesFrom inputs outputLength result calls := by
  induction iterations generalizing before blocks state with
  | nil =>
    rw [List.map_nil, List.append_nil] at hqueries
    exact ⟨_, state, before, rfl, .answered hqueries hanswers hblocks⟩
  | cons iteration iterations ih =>
    rw [List.map_cons, List.append_cons] at hqueries
    rw [List.foldlM_cons]
    rcases hcall : cmac (kdfInput fields outputLength iteration) state with ⟨answer, state'⟩
    have hlift := run_liftCallback_observedCmac hcall before
    cases answer with
    | error error =>
      have hstep : (deriveBlock fields (finalScan fields outputLength).length outputLength
          (observedCmac cmac) (blocks.flatten.take outputLength) iteration).run (state, before) =
            some (.error (.cmac error), (state', before ++
              [⟨kdfInput fields outputLength iteration, .error error⟩])) := by
        unfold deriveBlock
        rw [fieldInput_eq_pure hformats hlength, pure_bind]
        exact run_bind_of_error hlift
      refine ⟨_, state', _, run_bind_of_error hstep, .failed ⟨_, hqueries⟩ fun call hmem ↦ ?_⟩
      have hanswer := List.mem_map_of_mem (f := Call.answer) hmem
      rw [hanswers, List.mem_map] at hanswer
      obtain ⟨block, -, hblock⟩ := hanswer
      exact ⟨block, hblock.symm⟩
    | ok block =>
      have hblock := block.toList_length
      have hmissing : (blocks.flatten.take outputLength).length ≤ outputLength :=
        List.length_take_le _ _
      have hstep : (deriveBlock fields (finalScan fields outputLength).length outputLength
          (observedCmac cmac) (blocks.flatten.take outputLength) iteration).run (state, before) =
            some (.ok ((blocks ++ [block.toList]).flatten.take outputLength), (state', before ++
              [⟨kdfInput fields outputLength iteration, .ok block.toList⟩])) := by
        unfold deriveBlock
        rw [fieldInput_eq_pure hformats hlength, pure_bind, run_bind_of_ok hlift,
          subtract_eq_some hmissing, orPanic_some_bind, sliceTo_eq_some (by omega),
          orPanic_some_bind, take_append_missing hblock, List.flatten_append,
          List.flatten_singleton]
        rfl
      rw [run_bind_of_ok hstep]
      apply ih
      · rw [List.map_append]
        exact hqueries
      · rw [List.map_append, List.map_append, hanswers]
        rfl
      · exact List.forall_mem_append.mpr ⟨hblocks, List.forall_mem_singleton.mpr hblock⟩

end Sessions

/-- The counter KDF validates everything first, and then is counter mode. For all fields, every
length of the output and every CMAC operation with a state: an error of the KDF without any call is
returned exactly when the parameters are refused, or their sizes do not fit. Otherwise the calls are
the inputs of counter mode in order, which are all distinct, up to the first that fails; the result
is its error, or the start of the concatenated answers.

The CMAC operation may fail and keeps a state of any type; that the sizes fit (`SizesFit`) is
what the checked arithmetic of the code decides. -/
theorem cmacCounterKdfWith_eq_counterMode {σ ε : Type} (fields : List CounterKdfField)
    (outputLength : ℕ) (cmac : ByteString → StateM σ (Except ε (List.Vector UInt8 16)))
    (state : σ) :
    ∃ result calls,
      runObserved (cmacCounterKdfWith fields outputLength (observedCmac cmac)) state =
          some (result, calls) ∧
        ((∃ error, result = .error (.kdf error) ∧ calls = []) ↔
          IsRefused fields outputLength ∨ ¬ SizesFit fields outputLength) ∧
        (¬ IsRefused fields outputLength → SizesFit fields outputLength →
          (kdfInputs fields outputLength).Nodup ∧
            DerivesFrom (kdfInputs fields outputLength) outputLength result calls) := by
  by_cases hrefused : IsRefused fields outputLength ∨ ¬ SizesFit fields outputLength
  · obtain ⟨error, herror⟩ := exists_cmacCounterKdfWith_eq_throw hrefused (observedCmac cmac)
    refine ⟨.error (.kdf error), [], ?_, iff_of_true ⟨error, rfl, rfl⟩ hrefused, ?_⟩
    · rw [herror]
      rfl
    · exact fun haccepts hsizes ↦ absurd hrefused (not_or.mpr ⟨haccepts, not_not.mpr hsizes⟩)
  · obtain ⟨haccepts, hsizes⟩ := not_or.mp hrefused
    rw [not_not] at hsizes
    obtain ⟨-, -, hlength, hformats⟩ := (not_isRefused_iff hsizes).mp haccepts
    have hqueries : ([] : List (Call ByteString ε)).map Call.query ++
        (List.range' 1 (outputLength ⌈/⌉ 16)).map (kdfInput fields outputLength) =
          kdfInputs fields outputLength := List.nil_append _
    have hanswers : ([] : List (Call ByteString ε)).map Call.answer =
        ([] : List ByteString).map Except.ok := rfl
    obtain ⟨result, state', calls, hrun, hderives⟩ := exists_run_deriveBlocks cmac hformats hlength
      hqueries hanswers (fun _ hmem ↦ absurd hmem List.not_mem_nil) state
    rw [List.flatten_nil, List.take_nil] at hrun
    refine ⟨result, calls, ?_, iff_of_false ?_ hrefused,
      fun _ _ ↦ ⟨nodup_kdfInputs haccepts, hderives⟩⟩
    · rw [cmacCounterKdfWith_of_accepts haccepts hsizes, runObserved, hrun]
      rfl
    · rintro ⟨error, rfl, -⟩
      cases hderives

/-- A label, a counter and a length of two bytes: two blocks for an output of twenty bytes. -/
theorem cmacCounterKdfWith_eq_counterMode_label :
    ∃ result calls,
      runObserved (cmacCounterKdfWith [.bytes [0x61], .counter ⟨8, false⟩, .length ⟨16, true⟩ .key]
        20 (observedCmac fun _ (count : ℕ) ↦
          ((.ok (List.Vector.replicate 16 0) : Except Unit _), count + 1))) 0 =
            some (result, calls) ∧
        DerivesFrom [[0x61, 1, 160, 0], [0x61, 2, 160, 0]] 20 result calls := by
  have haccepts : ¬ IsRefused [.bytes [0x61], .counter ⟨8, false⟩, .length ⟨16, true⟩ .key] 20 := by
    unfold IsRefused
    decide
  obtain ⟨result, calls, hrun, -, hderives⟩ := cmacCounterKdfWith_eq_counterMode
    [.bytes [0x61], .counter ⟨8, false⟩, .length ⟨16, true⟩ .key] 20
    (fun _ (count : ℕ) ↦ ((.ok (List.Vector.replicate 16 0) : Except Unit _), count + 1)) 0
  exact ⟨result, calls, hrun, (hderives haccepts ⟨by decide, by decide⟩).2⟩

end SoftwareKeyCore.CounterKdf
