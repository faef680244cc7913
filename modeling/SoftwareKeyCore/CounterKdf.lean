import SoftwareKeyCore.SoftwareSymmetric.Cmac

/-!
# The counter KDF with AES-CMAC

`counter_kdf.rs`: the SP 800-108 counter KDF over a CMAC operation of the caller
(`cmacCounterKdfWith`) and over AES-CMAC (`cmacCounterKdf`), with fields in the order of the
caller. A field is a byte string, the counter, or the length of the output; the formats of the
integers are checked before the first CMAC. Slices and subtractions are checked.

The widths of the integers are `u8` in the source and natural numbers here. `scanFields` is the
validating loop, `fieldInput` the input of an iteration, and `answer_deriveBlocks` what the
deriving loop computes when every iteration has an input: the stream of blocks, cut to the
length of the output.
-/

set_option autoImplicit false
set_option relaxedAutoImplicit false

namespace SoftwareKeyCore.CounterKdf

open ByteString CallbackSession CheckedSlice Cmac FallibleResult Panicking

/-- `CounterKdfError`. -/
inductive CounterKdfError
  | invalidKeyLength
  | invalidParameters
  | outputTooLong
  deriving DecidableEq, Repr

/-- `CounterKdfOperationError`, over the error type of the CMAC operation. -/
inductive CounterKdfOperationError (ε : Type)
  | kdf (error : CounterKdfError)
  | cmac (error : ε)
  deriving DecidableEq, Repr

/-- `IntegerFormat`. -/
structure IntegerFormat where
  widthBits : ℕ
  littleEndian : Bool
  deriving DecidableEq, Repr

namespace IntegerFormat

variable (format : IntegerFormat)

/-- `IntegerFormat::valid`. -/
def Valid (maxBits : ℕ) : Prop :=
  format.widthBits ≠ 0 ∧ format.widthBits ≤ maxBits ∧ 8 ∣ format.widthBits

instance (maxBits : ℕ) : Decidable (format.Valid maxBits) :=
  inferInstanceAs (Decidable (_ ∧ _))

/-- `IntegerFormat::fits`. -/
def Fits (value : ℕ) : Prop :=
  format.widthBits = 64 ∨ value < 2 ^ format.widthBits

instance (value : ℕ) : Decidable (format.Fits value) :=
  inferInstanceAs (Decidable (_ ∨ _))

/-- `IntegerFormat::append`: the bytes that are appended. -/
def append (value : ℕ) : Option ByteString := do
  let width := format.widthBits / 8
  if format.littleEndian then sliceTo (toBeBytes 8 value).reverse width
  else do
    let start ← subtract 8 width
    sliceFrom (toBeBytes 8 value) start

end IntegerFormat

/-- `LengthMethod`. -/
inductive LengthMethod
  | key
  | segments
  deriving DecidableEq, Repr

/-- `CounterKdfField`. -/
inductive CounterKdfField
  | bytes (bytes : ByteString)
  | counter (format : IntegerFormat)
  | length (format : IntegerFormat) (method : LengthMethod)
  deriving DecidableEq, Repr

/-- The registers of the validating loop of `cmac_counter_kdf_with`. -/
structure FieldScan where
  counter : Option IntegerFormat
  length : Option ℕ
  inputLength : ℕ
  deriving DecidableEq, Repr

/-- The size of a field and the registers after it. -/
def fieldSize (blocks keyBits segmentBits : ℕ) (scan : FieldScan) :
    CounterKdfField → Except CounterKdfError (FieldScan × ℕ)
  | .bytes bytes => .ok (scan, bytes.length)
  | .counter format =>
    if ¬ format.Valid 32 ∨ scan.counter.isSome then .error .invalidParameters
    else if ¬ format.Fits blocks then .error .outputTooLong
    else .ok ({ scan with counter := some format }, format.widthBits / 8)
  | .length format method =>
    if ¬ format.Valid 64 ∨ scan.length.isSome then .error .invalidParameters
    else
      let bits := match method with
        | .key => keyBits
        | .segments => segmentBits
      if ¬ format.Fits bits then .error .outputTooLong
      else .ok ({ scan with length := some bits }, format.widthBits / 8)

/-- The body of the validating loop. -/
def scanField (blocks keyBits segmentBits : ℕ) (scan : FieldScan) (field : CounterKdfField) :
    Except CounterKdfError FieldScan := do
  let (scan, size) ← fieldSize blocks keyBits segmentBits scan field
  let inputLength ← orError .invalidParameters (checkedAdd scan.inputLength size)
  .ok { scan with inputLength := inputLength }

/-- The validating loop of `cmac_counter_kdf_with`. -/
def scanFields (blocks keyBits segmentBits : ℕ) (fields : List CounterKdfField) :
    Except CounterKdfError FieldScan :=
  fields.foldlM (scanField blocks keyBits segmentBits)
    { counter := none, length := none, inputLength := 0 }

section Constructions

variable {m : Type → Type} [Monad m] [CanPanic m] {ε : Type}

/-- The bytes of a field in an iteration. -/
def fieldBytes (length : Option ℕ) (iteration : ℕ) :
    CounterKdfField → ExceptT (CounterKdfOperationError ε) m ByteString
  | .bytes bytes => pure bytes
  | .counter format => orPanic (format.append iteration)
  | .length format _ => do
    let length ← orThrow (orError (.kdf .invalidParameters) length)
    orPanic (format.append length)

/-- The input of the CMAC in an iteration. -/
def fieldInput (fields : List CounterKdfField) (length : Option ℕ) (iteration : ℕ) :
    ExceptT (CounterKdfOperationError ε) m ByteString :=
  fields.foldlM (fun input field ↦ do
    let bytes ← fieldBytes length iteration field
    pure (input ++ bytes)) []

/-- The body of the deriving loop of `cmac_counter_kdf_with`. -/
def deriveBlock (fields : List CounterKdfField) (length : Option ℕ) (outputLength : ℕ)
    (cmac : ByteString → m (Except ε (List.Vector UInt8 16))) (result : ByteString)
    (iteration : ℕ) : ExceptT (CounterKdfOperationError ε) m ByteString := do
  let input ← fieldInput fields length iteration
  let block ← liftCallback .cmac (cmac input)
  let missing ← orPanic (subtract outputLength result.length)
  let remaining ← orPanic (sliceTo block.toList (min missing 16))
  pure (result ++ remaining)

/-- `cmac_counter_kdf_with`. -/
def cmacCounterKdfWith (fields : List CounterKdfField) (outputLength : ℕ)
    (cmac : ByteString → m (Except ε (List.Vector UInt8 16))) :
    ExceptT (CounterKdfOperationError ε) m ByteString :=
  if outputLength = 0 then throw (.kdf .invalidParameters)
  else do
    let blocks := outputLength ⌈/⌉ 16
    let keyBits ← orThrow (orError (.kdf .outputTooLong) (checkedMul outputLength 8))
    let segmentBits ← orThrow (orError (.kdf .outputTooLong) (checkedMul blocks 128))
    let scan ← orThrow ((scanFields blocks keyBits segmentBits fields).mapError .kdf)
    if scan.counter.isNone ∨ 2 ^ 63 - 1 < scan.inputLength then throw (.kdf .invalidParameters)
    else (List.range' 1 blocks).foldlM (deriveBlock fields scan.length outputLength cmac) []

end Constructions

/-- The error of `cmac_counter_kdf` for an error of the KDF over AES-CMAC. -/
def cmacCounterKdfError : CounterKdfOperationError SoftwareSymmetricError → CounterKdfError
  | .kdf error => error
  | .cmac _ => .invalidKeyLength

/-- `cmac_counter_kdf`; no result is a panic. -/
def cmacCounterKdf (cmac : AesCmac) (key : ByteString) (fields : List CounterKdfField)
    (outputLength : ℕ) : Option (Except CounterKdfError ByteString) :=
  if ¬ (key.length = 16 ∨ key.length = 24 ∨ key.length = 32) then some (.error .invalidKeyLength)
  else (answer (cmacCounterKdfWith fields outputLength (answering (aesCmac cmac key)))).map
    fun result ↦ result.mapError cmacCounterKdfError

/-! ### The deriving loop -/

/-- What the deriving loop computes, over a CMAC without effects that answers on the inputs of
all iterations: the stream of the blocks, cut to the length of the output. -/
theorem answer_deriveBlocks {ε : Type} {fields : List CounterKdfField} {length : Option ℕ}
    {cmac : ByteString → Except ε (List.Vector UInt8 16)} {inputs : ℕ → ByteString}
    {blocks : ℕ → List.Vector UInt8 16} {iterations : List ℕ} (outputLength : ℕ)
    (hinputs : ∀ iteration ∈ iterations,
      answer (fieldInput (m := Option) (ε := ε) fields length iteration) =
        some (.ok (inputs iteration)))
    (hcmac : ∀ iteration ∈ iterations, cmac (inputs iteration) = .ok (blocks iteration)) :
    answer (iterations.foldlM (deriveBlock fields length outputLength (answering cmac)) []) =
      some (.ok ((iterations.flatMap fun iteration ↦ (blocks iteration).toList).take
        outputLength)) := by
  have hempty : ([] : ByteString).length ≤ outputLength := Nat.zero_le _
  refine answer_foldlM_append_take (fun iteration hiteration result hresult ↦ ?_) hempty
  have hblock := (blocks iteration).toList_length
  have hcall : answer (liftCallback (CounterKdfOperationError.cmac (ε := ε))
      (answering cmac (inputs iteration))) = some (.ok (blocks iteration)) := by
    rw [liftCallback_eq]
    change some ((cmac (inputs iteration)).mapError _) = _
    rw [hcmac iteration hiteration]
    rfl
  unfold deriveBlock
  rw [hblock, answer_bind_of_ok (hinputs iteration hiteration), answer_bind_of_ok hcall,
    subtract_eq_some hresult, orPanic_some_bind, sliceTo_eq_some (by omega), orPanic_some_bind,
    answer_pure]

/-- A big-endian integer of whole bytes is encoded in that many bytes. -/
theorem append_bigEndian {width : ℕ} (hwidth : width ≤ 8) (value : ℕ) :
    (IntegerFormat.mk (8 * width) false).append value = some (toBeBytes width value) := by
  unfold IntegerFormat.append
  dsimp only
  rw [if_neg Bool.false_ne_true, Nat.mul_div_cancel_left _ (by decide), subtract_eq_some hwidth,
    Option.bind_eq_bind, Option.bind_some, sliceFrom_eq_some (by rw [length_toBeBytes]; omega),
    drop_toBeBytes hwidth]

end SoftwareKeyCore.CounterKdf
