import SoftwareKeyCore.Foundation.FuelledComputation
import SoftwareKeyCore.RsaSigning.CallbackConstructions
import SoftwareKeyCore.RsaValidation.PublicKey

/-!
# PKCS #1 v1.5 encodings

`rsa_signing.rs`: the type-2 encoding `rsa_pkcs1v15_pad`, beside the type-1 encoding
`pkcs1v15_encoded_payload` and the type-2 decoding `rsa_pkcs1v15_unpad`. The padding bytes are drawn
from a random source until they are not zero, so the encoding is a computation that need not return;
it does when the source always comes to a nonzero byte or fails (`EventuallyNonzero`).

`foldl_pkcs1v15ScanStep_eq_iff` says what the decoder's scan finds, the first zero byte, and
`answer_rsaPkcs1v15Unpad_of_isType2Block` that it takes a type-2 block apart.

Both encoders bound their input by a saturating subtraction. A modulus of fewer than 11 bytes has
the bound zero, which the empty input meets: the blocks are then too short or the later subtractions
underflow. `Allocated` has the encoders with the capacities of their vectors, which overflow for
moduli that no key has. `encodersWellFormed_iff` is the exact condition under which both encoders
keep the format.
-/

set_option autoImplicit false
set_option relaxedAutoImplicit false

namespace SoftwareKeyCore.RsaSigning

open ByteString CallbackSession CheckedSlice Panicking

/-! ### The type-2 encoding -/

section

variable {σ : Type} (source : RsaValidation.RandomSource σ)

/-- A turn of `while *byte == 0`: a byte that is zero is filled again. -/
def refill (current : UInt8 × σ) :
    (UInt8 × σ) ⊕ (Except RsaConstructionError UInt8 × σ) :=
  if current.1 = 0 then
    match source 1 current.2 with
    | (none, state) => .inr (.error .randomnessUnavailable, state)
    | (some bytes, state) => .inl (bytes.head, state)
  else .inr (.ok current.1, current.2)

/-- A byte of the padding. -/
def fillNonzero (state : σ) : Fuelled (Except RsaConstructionError UInt8 × σ) :=
  Fuelled.iterate (refill source) (0, state)

/-- The padding with a number of bytes left. -/
def fillPadding :
    (remaining : ℕ) → (state : σ) → Fuelled (Except RsaConstructionError ByteString)
  | 0, _ => pure (.ok [])
  | remaining + 1, state => do
    let (byte, state) ← fillNonzero source state
    match byte with
    | .error error => pure (.error error)
    | .ok byte => do
      let rest ← fillPadding remaining state
      pure (rest.map (byte :: ·))

/-- `padding_length`, after the bound of the plaintext. -/
def paddingLength (plaintext : ByteString) (modulusSize : ℕ) : Panicking RsaConstructionError ℕ :=
  if modulusSize - 11 < plaintext.length then throw .inputTooLong
  else do
    let withoutPlaintext ← checkedSub modulusSize plaintext.length
    checkedSub withoutPlaintext 3

/-- `rsa_pkcs1v15_pad`; `none` is a panic. The capacities of its vectors are left out:
`Allocated.rsaPkcs1v15Pad` has them. -/
def rsaPkcs1v15Pad (plaintext : ByteString) (modulusSize : ℕ) (state : σ) :
    Fuelled (Option (Except RsaConstructionError ByteString)) :=
  match answer (paddingLength plaintext modulusSize) with
  | none => pure none
  | some (.error error) => pure (some (.error error))
  | some (.ok length) => do
    let padding ← fillPadding source length state
    pure (some (padding.map fun padding ↦ [0, 2] ++ padding ++ [0] ++ plaintext))

/-- The source comes to a nonzero byte or fails, from every state. -/
def EventuallyNonzero : Prop :=
  ∀ state, ∃ outcome, (fillNonzero source state).Returns outcome

/-- `rsa_pkcs1v15_pad`, with the capacities of its vectors. -/
def Allocated.rsaPkcs1v15Pad (plaintext : ByteString) (modulusSize : ℕ) (state : σ) :
    Fuelled (Option (Except RsaConstructionError ByteString)) :=
  match answer (paddingLength plaintext modulusSize >>= allocate) with
  | none => pure none
  | some (.error error) => pure (some (.error error))
  | some (.ok length) => do
    let padding ← fillPadding source length state
    match padding with
    | .error error => pure (some (.error error))
    | .ok padding => pure (answer do
      let _ ← allocate modulusSize
      pure ([0, 2] ++ padding ++ [0] ++ plaintext))

end

/-- `pkcs1v15_encoded_payload`, with the capacities of its vector. -/
def Allocated.pkcs1v15EncodedPayload (modulusSize : ℕ) (payload : ByteString) :
    Panicking RsaConstructionError ByteString :=
  if modulusSize - 11 < payload.length then throw .inputTooLong
  else do
    let withoutPayload ← checkedSub modulusSize payload.length
    let separator ← checkedSub withoutPayload 1
    let encoded : ByteString := [0, 1]
    let capacity ← reserve encoded.length encoded.length (separator - encoded.length)
    let encoded := resize encoded separator 0xff
    let capacity ← reserve capacity encoded.length 1
    let encoded := encoded ++ [0]
    let _ ← reserve capacity encoded.length payload.length
    pure (encoded ++ payload)

/-! ### The formats -/

/-- `00 01 FF .. FF 00 payload` in the size of the modulus, with at least eight padding bytes. -/
def IsType1Block (modulusSize : ℕ) (payload block : ByteString) : Prop :=
  block.length = modulusSize ∧
    ∃ count, 8 ≤ count ∧ block = [0, 1] ++ List.replicate count 0xff ++ [0] ++ payload

/-- `00 02 PS 00 plaintext` in the size of the modulus, with at least eight padding bytes, none of
which is zero. -/
def IsType2Block (modulusSize : ℕ) (plaintext block : ByteString) : Prop :=
  block.length = modulusSize ∧ ∃ padding : ByteString, 8 ≤ padding.length ∧
    (∀ byte ∈ padding, byte ≠ 0) ∧ block = [0, 2] ++ padding ++ [0] ++ plaintext

/-- The type-1 encoder does not panic, and what it answers is a type-1 block. -/
def EncodesType1 (modulusSize : ℕ) (payload : ByteString) : Prop :=
  Safe (Allocated.pkcs1v15EncodedPayload modulusSize payload) (IsType1Block modulusSize payload)

/-- The type-2 encoder does not panic; what it answers is a type-2 block, which the decoder takes
apart; and it returns when the random source comes to nonzero bytes. -/
def EncodesType2 (modulusSize : ℕ) (plaintext : ByteString) : Prop :=
  ∀ (σ : Type) (source : RsaValidation.RandomSource σ) (state : σ),
    (∀ outcome, (Allocated.rsaPkcs1v15Pad source plaintext modulusSize state).Returns outcome →
      ∃ result, outcome = some result ∧ ∀ block, result = .ok block →
        IsType2Block modulusSize plaintext block ∧
          answer (rsaPkcs1v15Unpad block) = some (.ok plaintext)) ∧
    (EventuallyNonzero source →
      ∃ outcome, (Allocated.rsaPkcs1v15Pad source plaintext modulusSize state).Returns outcome)

/-! ### The scan of the decoder -/

/-- Once the separator is found the scan changes nothing. -/
theorem foldl_pkcs1v15ScanStep_of_found (entries : List (UInt8 × ℕ)) (separator : ℕ) :
    entries.foldl pkcs1v15ScanStep { found := true, separator := separator } =
      { found := true, separator := separator } := by
  induction entries with
  | nil => rfl
  | cons entry entries ih =>
    rw [List.foldl_cons]
    exact ih

/-- The scan of a block from an index on: it finds a separator exactly when there is a zero byte,
and then the separator is the index of the first one in the encoded message. -/
theorem foldl_pkcs1v15ScanStep_eq_iff (block : ByteString) (start separator position : ℕ) :
    (block.zipIdx start).foldl pkcs1v15ScanStep { found := false, separator := separator } =
        { found := true, separator := position } ↔
      ∃ padding rest, block = padding ++ 0 :: rest ∧ (∀ byte ∈ padding, byte ≠ 0) ∧
        position = start + padding.length + 2 := by
  induction block generalizing start with
  | nil => simp
  | cons byte block ih =>
    rw [List.zipIdx_cons, List.foldl_cons]
    by_cases hzero : byte = 0
    · have hstep : pkcs1v15ScanStep { found := false, separator := separator } (byte, start) =
          { found := true, separator := start + 2 } := by
        simp [pkcs1v15ScanStep, hzero]
      rw [hstep, foldl_pkcs1v15ScanStep_of_found, Pkcs1v15Scan.mk.injEq]
      constructor
      · rintro ⟨-, rfl⟩
        exact ⟨[], block, by rw [hzero, List.nil_append], by simp, rfl⟩
      · rintro ⟨padding, rest, hblock, hpadding, rfl⟩
        cases padding with
        | nil => exact ⟨rfl, rfl⟩
        | cons head padding =>
          rw [List.cons_append] at hblock
          exact absurd ((List.cons.inj hblock).1.symm.trans hzero)
            (hpadding head List.mem_cons_self)
    · have hstep : pkcs1v15ScanStep { found := false, separator := separator } (byte, start) =
          { found := false, separator := separator } := by
        simp [pkcs1v15ScanStep, hzero]
      rw [hstep, ih]
      constructor
      · rintro ⟨padding, rest, rfl, hpadding, rfl⟩
        refine ⟨byte :: padding, rest, rfl, List.forall_mem_cons.mpr ⟨hzero, hpadding⟩, ?_⟩
        rw [List.length_cons]
        omega
      · rintro ⟨padding, rest, hblock, hpadding, rfl⟩
        cases padding with
        | nil => exact absurd (List.cons.inj hblock).1 hzero
        | cons head padding =>
          rw [List.cons_append] at hblock
          refine ⟨padding, rest, (List.cons.inj hblock).2,
            (List.forall_mem_cons.mp hpadding).2, ?_⟩
          rw [List.length_cons]
          omega

/-- The decoder takes a type-2 block apart. -/
theorem answer_rsaPkcs1v15Unpad_of_isType2Block {modulusSize : ℕ} {plaintext block : ByteString}
    (hblock : IsType2Block modulusSize plaintext block) :
    answer (rsaPkcs1v15Unpad block) = some (.ok plaintext) := by
  obtain ⟨-, padding, hcount, hpadding, rfl⟩ := hblock
  have hscan := (foldl_pkcs1v15ScanStep_eq_iff (padding ++ 0 :: plaintext) 0 0 _).mpr
    ⟨padding, plaintext, rfl, hpadding, rfl⟩
  have hshape : [0, 2] ++ padding ++ [0] ++ plaintext = 0 :: 2 :: (padding ++ 0 :: plaintext) := by
    simp
  have hlength : (0 :: 2 :: (padding ++ 0 :: plaintext)).length =
      padding.length + plaintext.length + 3 := by
    simp only [List.length_cons, List.length_append]
    omega
  unfold rsaPkcs1v15Unpad
  rw [hshape, if_neg (by omega), List.getElem?_cons_zero, orPanic_some_bind,
    List.getElem?_cons_succ, List.getElem?_cons_zero, orPanic_some_bind,
    sliceFrom_eq_some (by omega), orPanic_some_bind]
  have hvalid : (!(decide ((0 : UInt8) = 0) && decide ((2 : UInt8) = 2) &&
      (true && decide (9 < 0 + padding.length + 2)))) = false := by
    simp
    omega
  change answer (if _ then _ else _) = _
  rw [List.drop_succ_cons, List.drop_succ_cons, List.drop_zero, hscan]
  dsimp only
  rw [hvalid, if_neg Bool.false_ne_true, sliceFrom_eq_some (by omega)]
  rw [zero_add, List.drop_succ_cons, List.drop_succ_cons, ← List.singleton_append,
    ← List.append_assoc, List.drop_left' (by rw [List.length_append, List.length_singleton])]
  rfl

/-- What the decoder answers follows the separator of a type-2 block. -/
theorem isType2Block_of_answer_eq_ok {encoded plaintext : ByteString}
    (hanswer : answer (rsaPkcs1v15Unpad encoded) = some (.ok plaintext)) :
    IsType2Block encoded.length plaintext encoded := by
  unfold rsaPkcs1v15Unpad at hanswer
  obtain ⟨hshort, hanswer⟩ := answer_ite_throw_eq_ok_iff.mp hanswer
  obtain ⟨first, second, rest, rfl⟩ : ∃ first second rest, encoded = first :: second :: rest := by
    match encoded, hshort with
    | first :: second :: rest, _ => exact ⟨first, second, rest, rfl⟩
    | [_], hshort | [], hshort => simp at hshort
  rw [List.getElem?_cons_zero, orPanic_some_bind, List.getElem?_cons_succ, List.getElem?_cons_zero,
    orPanic_some_bind, sliceFrom_eq_some (by simp), orPanic_some_bind, List.drop_succ_cons,
    List.drop_succ_cons, List.drop_zero] at hanswer
  obtain ⟨hvalid, hanswer⟩ := answer_ite_throw_eq_ok_iff.mp hanswer
  generalize hscan : rest.zipIdx.foldl pkcs1v15ScanStep { found := false, separator := 0 } = scan
    at hvalid hanswer
  obtain ⟨found, separator⟩ := scan
  rw [Bool.not_eq_true', Bool.not_eq_false, Bool.and_eq_true, Bool.and_eq_true, Bool.and_eq_true,
    decide_eq_true_eq, decide_eq_true_eq, decide_eq_true_eq] at hvalid
  obtain ⟨⟨rfl, rfl⟩, rfl, hposition⟩ := hvalid
  -- The scan found the first zero byte of what follows the header.
  obtain ⟨padding, tail, rfl, hpadding, rfl⟩ := (foldl_pkcs1v15ScanStep_eq_iff rest 0 0 _).mp hscan
  rw [answer_orPanic_eq_ok_iff, sliceFrom_eq_some (by simp), Option.some.injEq, zero_add,
    List.drop_succ_cons, List.drop_succ_cons, ← List.singleton_append, ← List.append_assoc,
    List.drop_left' (by rw [List.length_append, List.length_singleton])] at hanswer
  change 9 < 0 + padding.length + 2 at hposition
  refine ⟨rfl, padding, by omega, hpadding, ?_⟩
  rw [← hanswer]
  simp

/-- `OperationFailed` is the only error of the decoder. -/
theorem avoids_rsaPkcs1v15Unpad {error : RsaConstructionError} (hne : .operationFailed ≠ error)
    (encoded : ByteString) : Avoids error (rsaPkcs1v15Unpad encoded) := by
  refine avoids_ite (avoids_throw hne) ?_
  refine (avoids_orPanic _).bind fun _ ↦ (avoids_orPanic _).bind fun _ ↦ ?_
  refine (avoids_orPanic _).bind fun _ ↦ ?_
  exact avoids_ite (avoids_throw hne) (avoids_orPanic _)

/-- The decoder takes exactly the type-2 blocks apart, refuses everything else with
`OperationFailed`, and does not panic. -/
theorem rsaPkcs1v15Unpad_eq_ok_iff (encoded : ByteString) :
    (∀ plaintext : ByteString, answer (rsaPkcs1v15Unpad encoded) = some (.ok plaintext) ↔
      ∃ padding : ByteString, 8 ≤ padding.length ∧ (∀ byte ∈ padding, byte ≠ 0) ∧
        encoded = [0x00, 0x02] ++ padding ++ [0x00] ++ plaintext) ∧
    ((¬ ∃ plaintext padding : ByteString, 8 ≤ padding.length ∧ (∀ byte ∈ padding, byte ≠ 0) ∧
        encoded = [0x00, 0x02] ++ padding ++ [0x00] ++ plaintext) →
      answer (rsaPkcs1v15Unpad encoded) = some (.error .operationFailed)) ∧
    answer (rsaPkcs1v15Unpad encoded) ≠ none := by
  have haccepts : ∀ plaintext : ByteString,
      answer (rsaPkcs1v15Unpad encoded) = some (.ok plaintext) ↔
        ∃ padding : ByteString, 8 ≤ padding.length ∧ (∀ byte ∈ padding, byte ≠ 0) ∧
          encoded = [0x00, 0x02] ++ padding ++ [0x00] ++ plaintext := fun plaintext ↦
    ⟨fun hanswer ↦ (isType2Block_of_answer_eq_ok hanswer).2,
      fun hblock ↦ answer_rsaPkcs1v15Unpad_of_isType2Block ⟨rfl, hblock⟩⟩
  obtain ⟨result, hresult⟩ := exists_answer_rsaPkcs1v15Unpad encoded
  refine ⟨haccepts, fun hnone ↦ ?_, by rw [hresult]; exact Option.some_ne_none result⟩
  cases result with
  | ok plaintext => exact absurd ⟨plaintext, (haccepts plaintext).mp hresult⟩ hnone
  | error error =>
    by_cases herror : error = .operationFailed
    · rw [hresult, herror]
    · exact absurd hresult (avoids_rsaPkcs1v15Unpad (Ne.symm herror) encoded)

/-! ### The padding -/

section

variable {σ : Type} {source : RsaValidation.RandomSource σ}

/-- A byte that is returned is not zero. -/
theorem ne_zero_of_returns_fillNonzero {state : σ}
    {outcome : Except RsaConstructionError UInt8 × σ}
    (hreturns : (fillNonzero source state).Returns outcome) :
    ∀ byte, outcome.1 = .ok byte → byte ≠ 0 := by
  refine hreturns.iterate_induction (motive := fun _ ↦ ∀ byte, outcome.1 = .ok byte → byte ≠ 0)
    ?_ fun _ _ _ hnext ↦ hnext
  intro current hdone byte hbyte
  unfold refill at hdone
  split_ifs at hdone with hzero
  · split at hdone
    · rw [← Sum.inr.inj hdone] at hbyte
      exact nomatch hbyte
    · exact nomatch hdone
  · rw [← Sum.inr.inj hdone] at hbyte
    rwa [← Except.ok.inj hbyte]

/-- A padding that is returned has its length and no zero bytes. -/
theorem fillPadding_returns_ok {remaining : ℕ} {state : σ} {padding : ByteString}
    (hreturns : (fillPadding source remaining state).Returns (.ok padding)) :
    padding.length = remaining ∧ ∀ byte ∈ padding, byte ≠ 0 := by
  induction remaining generalizing state padding with
  | zero =>
    obtain rfl := Except.ok.inj (Fuelled.returns_pure.mp hreturns)
    simp
  | succ remaining ih =>
    rw [fillPadding, Fuelled.returns_bind] at hreturns
    obtain ⟨⟨byte, next⟩, hbyte, hmore⟩ := hreturns
    cases byte with
    | error error => exact nomatch Fuelled.returns_pure.mp hmore
    | ok byte =>
      obtain ⟨result, hrest, hpadding⟩ := Fuelled.returns_bind.mp hmore
      obtain ⟨tail, rfl, rfl⟩ := FallibleResult.map_eq_ok_iff.mp (Fuelled.returns_pure.mp hpadding)
      obtain ⟨hlength, hnonzero⟩ := ih hrest
      exact ⟨by rw [List.length_cons, hlength],
        List.forall_mem_cons.mpr ⟨ne_zero_of_returns_fillNonzero hbyte byte rfl, hnonzero⟩⟩

/-- A padding is returned when the source comes to nonzero bytes. -/
theorem exists_fillPadding_returns (hsource : EventuallyNonzero source) (remaining : ℕ)
    (state : σ) : ∃ result, (fillPadding source remaining state).Returns result := by
  induction remaining generalizing state with
  | zero => exact ⟨_, Fuelled.returns_pure.mpr rfl⟩
  | succ remaining ih =>
    obtain ⟨⟨byte, next⟩, hbyte⟩ := hsource state
    rw [fillPadding]
    cases byte with
    | error error => exact ⟨_, Fuelled.returns_bind.mpr ⟨_, hbyte, Fuelled.returns_pure.mpr rfl⟩⟩
    | ok byte =>
      obtain ⟨rest, hrest⟩ := ih next
      exact ⟨_, Fuelled.returns_bind.mpr ⟨_, hbyte, Fuelled.returns_bind.mpr
        ⟨rest, hrest, Fuelled.returns_pure.mpr rfl⟩⟩⟩

end

/-! ### The encoders -/

/-- An input that is not too long leaves room for eight padding bytes. -/
theorem room_of_not_long {modulusSize : ℕ} {input : ByteString} (hsize : 11 ≤ modulusSize)
    (hshort : ¬ modulusSize - 11 < input.length) : input.length + 11 ≤ modulusSize := by
  omega

/-- The capacities of the vector of the type-1 encoder do not overflow: the block before its
separator, doubled for the separator, and grown once more unless the payload fits beside it. -/
def FitsType1 (modulusSize length : ℕ) : Prop :=
  2 * (modulusSize - length - 1) ≤ isizeMax ∧
    (length < modulusSize - length - 1 ∨
      4 * (modulusSize - length - 1) ≤ isizeMax ∧ modulusSize ≤ isizeMax)

instance (modulusSize length : ℕ) : Decidable (FitsType1 modulusSize length) :=
  inferInstanceAs (Decidable (_ ∧ _))

/-- With room for eight padding bytes the type-1 encoder answers its block. -/
theorem answer_pkcs1v15EncodedPayload {modulusSize : ℕ} {payload : ByteString}
    (hroom : payload.length + 11 ≤ modulusSize) :
    answer (pkcs1v15EncodedPayload modulusSize payload) =
      some (.ok (resize [0, 1] (modulusSize - payload.length - 1) 0xff ++ [0] ++ payload)) := by
  unfold pkcs1v15EncodedPayload
  rw [if_neg (by omega), answer_bind_of_ok (answer_checkedSub_of_le (by omega)),
    answer_bind_of_ok (answer_checkedSub_of_le (by omega)), answer_pure]

/-- The capacities that a block of some length asks for. -/
theorem grownCapacity_type1 {separator : ℕ} (length : ℕ) (hseparator : 10 ≤ separator) :
    grownCapacity 2 2 (separator - 2) = separator ∧
      grownCapacity separator separator 1 = 2 * separator ∧
      grownCapacity (2 * separator) (separator + 1) length =
        if length < separator then 2 * separator
        else max (4 * separator) (separator + 1 + length) := by
  unfold grownCapacity
  refine ⟨?_, ?_, ?_⟩
  · rw [if_pos (by omega)]
    omega
  · rw [if_pos (by omega)]
    omega
  · split_ifs <;> omega

/-- The type-1 encoder answers what it answers without its capacities, or overflows one. -/
theorem answer_allocated_pkcs1v15EncodedPayload {modulusSize : ℕ} {payload : ByteString}
    (hroom : payload.length + 11 ≤ modulusSize) :
    answer (Allocated.pkcs1v15EncodedPayload modulusSize payload) =
      if FitsType1 modulusSize payload.length
      then answer (pkcs1v15EncodedPayload modulusSize payload) else none := by
  have hseparator : 10 ≤ modulusSize - payload.length - 1 := by omega
  obtain ⟨hresized, hpushed, hextended⟩ := grownCapacity_type1 payload.length hseparator
  have hlength : (resize [0, 1] (modulusSize - payload.length - 1) 0xff ++ [0]).length =
      modulusSize - payload.length - 1 + 1 := by
    rw [List.length_append, length_resize, List.length_singleton]
  unfold Allocated.pkcs1v15EncodedPayload
  rw [answer_pkcs1v15EncodedPayload hroom, if_neg (by omega),
    answer_bind_of_ok (answer_checkedSub_of_le (by omega)),
    answer_bind_of_ok (answer_checkedSub_of_le (by omega))]
  dsimp only
  rw [List.length_cons, List.length_singleton, reserve, hresized]
  by_cases hfits : FitsType1 modulusSize payload.length
  · obtain ⟨hdoubled, hlast⟩ := hfits
    rw [if_pos ⟨hdoubled, hlast⟩, answer_bind_of_ok (answer_allocate_of_le (by omega)),
      length_resize, reserve, hpushed, answer_bind_of_ok (answer_allocate_of_le hdoubled), hlength,
      reserve, hextended, answer_bind_of_ok (answer_allocate_of_le ?_), answer_pure]
    split_ifs <;> omega
  · rw [if_neg hfits]
    unfold FitsType1 at hfits
    by_cases hfirst : modulusSize - payload.length - 1 ≤ isizeMax
    · rw [answer_bind_of_ok (answer_allocate_of_le hfirst), length_resize, reserve, hpushed]
      by_cases hdoubled : 2 * (modulusSize - payload.length - 1) ≤ isizeMax
      · rw [answer_bind_of_ok (answer_allocate_of_le hdoubled), hlength, reserve, hextended,
          answer_bind_of_panic (answer_allocate_of_lt ?_)]
        split_ifs <;> omega
      · rw [answer_bind_of_panic (answer_allocate_of_lt (not_le.mp hdoubled))]
    · rw [answer_bind_of_panic (answer_allocate_of_lt (not_le.mp hfirst))]

/-- The block of a modulus of at most ten bytes has no room for eight padding bytes. -/
theorem not_encodesType1_of_lt {modulusSize : ℕ} (hsize : modulusSize < 11) :
    ¬ EncodesType1 modulusSize [] := by
  rintro ⟨result, hresult, hblock⟩
  cases result with
  | error error =>
    have havoids : Avoids error (Allocated.pkcs1v15EncodedPayload modulusSize []) := by
      unfold Allocated.pkcs1v15EncodedPayload
      rw [List.length_nil, if_neg (Nat.not_lt_zero _)]
      exact (avoids_checkedSub _ _ _).bind fun _ ↦ (avoids_checkedSub _ _ _).bind fun _ ↦
        (avoids_expect _ _).bind fun _ ↦ (avoids_expect _ _).bind fun _ ↦
          (avoids_expect _ _).bind fun _ ↦ avoids_pure _ _
    exact havoids hresult
  | ok block =>
    obtain ⟨hlength, count, hcount, rfl⟩ := hblock block rfl
    simp only [List.length_append, List.length_replicate, List.length_cons,
      List.length_nil] at hlength
    omega

/-- The type-1 encoder keeps its format exactly for a payload that is too long, or a modulus of 11
bytes whose block fits in a vector. -/
theorem encodesType1_iff (modulusSize : ℕ) (payload : ByteString) :
    EncodesType1 modulusSize payload ↔ modulusSize - 11 < payload.length ∨
      11 ≤ modulusSize ∧ FitsType1 modulusSize payload.length := by
  by_cases hlong : modulusSize - 11 < payload.length
  · refine iff_of_true ?_ (Or.inl hlong)
    unfold EncodesType1 Allocated.pkcs1v15EncodedPayload
    rw [if_pos hlong]
    exact safe_throw _ _
  rw [or_iff_right hlong]
  by_cases hsize : 11 ≤ modulusSize
  · rw [and_iff_right hsize]
    have hanswer := answer_allocated_pkcs1v15EncodedPayload (room_of_not_long hsize hlong)
    constructor
    · rintro ⟨result, hresult, -⟩
      by_contra hfits
      rw [if_neg hfits, hresult] at hanswer
      exact nomatch hanswer
    · intro hfits
      rw [if_pos hfits, answer_pkcs1v15EncodedPayload (room_of_not_long hsize hlong)] at hanswer
      refine ⟨_, hanswer, fun block hblock ↦ ?_⟩
      obtain rfl := Except.ok.inj hblock
      have hroom := room_of_not_long hsize hlong
      have hheader : ([0, 1] : ByteString).length ≤ modulusSize - payload.length - 1 := by
        rw [List.length_cons, List.length_singleton]
        omega
      rw [resize_of_le hheader]
      refine ⟨?_, modulusSize - payload.length - 1 - 2, by omega, rfl⟩
      simp only [List.length_append, List.length_replicate, List.length_cons, List.length_nil]
      omega
  · obtain rfl : payload = [] := List.length_eq_zero_iff.mp (by omega)
    exact iff_of_false (not_encodesType1_of_lt (not_le.mp hsize)) fun h ↦ hsize h.1

/-- The padding takes what the plaintext and three bytes leave. -/
theorem answer_paddingLength {modulusSize : ℕ} {plaintext : ByteString}
    (hshort : ¬ modulusSize - 11 < plaintext.length) :
    answer (paddingLength plaintext modulusSize) =
      if plaintext.length + 3 ≤ modulusSize then some (.ok (modulusSize - plaintext.length - 3))
      else none := by
  unfold paddingLength
  rw [if_neg hshort, answer_bind_of_ok (answer_checkedSub_of_le (by omega))]
  split_ifs with hroom
  · exact answer_checkedSub_of_le (by omega)
  · exact answer_checkedSub_of_lt (by omega)

/-- The random source that fills every buffer with ones. -/
def onesSource : RsaValidation.RandomSource Unit := fun length state ↦
  (some (List.Vector.replicate length 1), state)

theorem fillPadding_returns_onesSource (remaining : ℕ) :
    (fillPadding onesSource remaining ()).Returns (.ok (List.replicate remaining 1)) := by
  induction remaining with
  | zero => exact Fuelled.returns_pure.mpr rfl
  | succ remaining ih =>
    have hbyte : (fillNonzero onesSource ()).Returns (.ok 1, ()) := by
      have hfill : refill onesSource (0, ()) = .inl (1, ()) := rfl
      exact (Fuelled.returns_iterate_next hfill).mpr (Fuelled.returns_iterate_done rfl)
    exact Fuelled.returns_bind.mpr ⟨_, hbyte, Fuelled.returns_bind.mpr
      ⟨_, ih, Fuelled.returns_pure.mpr rfl⟩⟩

/-- With ones for its random bytes the type-2 encoder returns a block of ones, or overflows a
capacity. -/
theorem returns_allocated_onesSource {plaintext : ByteString} {modulusSize length : ℕ}
    (hlength : answer (paddingLength plaintext modulusSize >>= allocate) = some (.ok length)) :
    (Allocated.rsaPkcs1v15Pad onesSource plaintext modulusSize ()).Returns
      (if modulusSize ≤ isizeMax
        then some (.ok ([0, 2] ++ List.replicate length 1 ++ [0] ++ plaintext)) else none) := by
  unfold Allocated.rsaPkcs1v15Pad
  rw [hlength]
  refine Fuelled.returns_bind.mpr
    ⟨_, fillPadding_returns_onesSource length, Fuelled.returns_pure.mpr ?_⟩
  split_ifs with hfits
  · rw [answer_bind_of_ok (answer_allocate_of_le hfits), answer_pure]
  · rw [answer_bind_of_panic (answer_allocate_of_lt (not_le.mp hfits))]

/-- What is returned for a modulus of 11 bytes is a type-2 block. -/
theorem isType2Block_of_returns {σ : Type} {source : RsaValidation.RandomSource σ} {state : σ}
    {modulusSize : ℕ} {plaintext block : ByteString} (hsize : 11 ≤ modulusSize)
    (hreturns : (rsaPkcs1v15Pad source plaintext modulusSize state).Returns (some (.ok block))) :
    IsType2Block modulusSize plaintext block := by
  unfold rsaPkcs1v15Pad at hreturns
  by_cases hlong : modulusSize - 11 < plaintext.length
  · unfold paddingLength at hreturns
    rw [if_pos hlong] at hreturns
    exact nomatch Option.some.inj (Fuelled.returns_pure.mp hreturns)
  · have hroom := room_of_not_long hsize hlong
    have hpadding := answer_paddingLength hlong
    rw [if_pos (by omega)] at hpadding
    rw [hpadding] at hreturns
    obtain ⟨padding, hpadding, hreturned⟩ := Fuelled.returns_bind.mp hreturns
    obtain ⟨bytes, rfl, rfl⟩ := FallibleResult.map_eq_ok_iff.mp
      (Option.some.inj (Fuelled.returns_pure.mp hreturned))
    obtain ⟨hlength, hnonzero⟩ := fillPadding_returns_ok hpadding
    refine ⟨?_, bytes, by omega, hnonzero, rfl⟩
    simp only [List.length_append, List.length_cons, List.length_nil]
    omega

/-- A type-2 encoder whose block fits in a vector is the encoder without capacities. -/
theorem allocated_rsaPkcs1v15Pad {σ : Type} (source : RsaValidation.RandomSource σ) (state : σ)
    {modulusSize : ℕ} {plaintext : ByteString} (hroom : plaintext.length + 11 ≤ modulusSize)
    (hfits : modulusSize ≤ isizeMax) :
    Allocated.rsaPkcs1v15Pad source plaintext modulusSize state =
      rsaPkcs1v15Pad source plaintext modulusSize state := by
  have hshort : ¬ modulusSize - 11 < plaintext.length := by omega
  have hpadding := answer_paddingLength hshort
  rw [if_pos (by omega)] at hpadding
  have hallocated : answer (paddingLength plaintext modulusSize >>= allocate) =
      some (.ok (modulusSize - plaintext.length - 3)) := by
    rw [answer_bind_of_ok hpadding, answer_allocate_of_le (by omega)]
  unfold Allocated.rsaPkcs1v15Pad rsaPkcs1v15Pad
  rw [hallocated, hpadding]
  dsimp only
  congr 1
  funext padding
  cases padding with
  | error error => rfl
  | ok padding =>
    dsimp only
    rw [answer_bind_of_ok (answer_allocate_of_le hfits), answer_pure]
    rfl

/-- The type-2 encoder keeps its format for a modulus of 11 bytes whose block fits in a vector. -/
theorem encodesType2_of_fits {modulusSize : ℕ} {plaintext : ByteString}
    (hroom : plaintext.length + 11 ≤ modulusSize) (hfits : modulusSize ≤ isizeMax) :
    EncodesType2 modulusSize plaintext := by
  intro σ source state
  have hpaddingLength := answer_paddingLength
    (show ¬ modulusSize - 11 < plaintext.length by omega)
  rw [if_pos (by omega)] at hpaddingLength
  rw [allocated_rsaPkcs1v15Pad source state hroom hfits]
  refine ⟨fun outcome houtcome ↦ ?_, fun hsource ↦ ?_⟩
  · have hreturned := houtcome
    unfold rsaPkcs1v15Pad at hreturned
    rw [hpaddingLength] at hreturned
    obtain ⟨padding, -, hpadded⟩ := Fuelled.returns_bind.mp hreturned
    obtain rfl := Fuelled.returns_pure.mp hpadded
    refine ⟨_, rfl, fun block hblock ↦ ?_⟩
    rw [hblock] at houtcome
    have htype2 := isType2Block_of_returns (by omega) houtcome
    exact ⟨htype2, answer_rsaPkcs1v15Unpad_of_isType2Block htype2⟩
  · obtain ⟨padding, hpadding⟩ := exists_fillPadding_returns hsource
      (modulusSize - plaintext.length - 3) state
    unfold rsaPkcs1v15Pad
    rw [hpaddingLength]
    exact ⟨_, Fuelled.returns_bind.mpr ⟨_, hpadding, Fuelled.returns_pure.mpr rfl⟩⟩

/-- The type-2 encoder keeps its format exactly for a plaintext that is too long, or a modulus of 11
bytes whose block fits in a vector. -/
theorem encodesType2_iff (modulusSize : ℕ) (plaintext : ByteString) :
    EncodesType2 modulusSize plaintext ↔ modulusSize - 11 < plaintext.length ∨
      11 ≤ modulusSize ∧ modulusSize ≤ isizeMax := by
  by_cases hlong : modulusSize - 11 < plaintext.length
  · refine iff_of_true ?_ (Or.inl hlong)
    intro σ source state
    have hlength : answer (paddingLength plaintext modulusSize >>= allocate) =
        some (.error .inputTooLong) := by
      unfold paddingLength
      rw [if_pos hlong, answer_bind_of_error (answer_throw _)]
    unfold Allocated.rsaPkcs1v15Pad
    rw [hlength]
    refine ⟨fun outcome houtcome ↦ ?_, fun _ ↦ ⟨_, Fuelled.returns_pure.mpr rfl⟩⟩
    rw [← Fuelled.returns_pure.mp houtcome]
    exact ⟨_, rfl, fun block hblock ↦ nomatch hblock⟩
  rw [or_iff_right hlong]
  refine ⟨fun hencodes ↦ ?_, fun hfits ↦
    encodesType2_of_fits (room_of_not_long hfits.1 hlong) hfits.2⟩
  obtain ⟨houtcome, -⟩ := hencodes Unit onesSource ()
  have hpanics : answer (paddingLength plaintext modulusSize >>= allocate) ≠ none := by
    intro hnone
    have hreturns :
        (Allocated.rsaPkcs1v15Pad onesSource plaintext modulusSize ()).Returns none := by
      unfold Allocated.rsaPkcs1v15Pad
      rw [hnone]
      exact Fuelled.returns_pure.mpr rfl
    obtain ⟨result, hresult, -⟩ := houtcome none hreturns
    exact nomatch hresult
  have hpadding := answer_paddingLength hlong
  have hroom : plaintext.length + 3 ≤ modulusSize := by
    by_contra hnone
    rw [if_neg hnone] at hpadding
    exact hpanics (answer_bind_of_panic hpadding)
  rw [if_pos hroom] at hpadding
  have hallocated : modulusSize - plaintext.length - 3 ≤ isizeMax := by
    by_contra hnone
    exact hpanics ((answer_bind_of_ok hpadding).trans (answer_allocate_of_lt (not_le.mp hnone)))
  obtain ⟨result, hresult, hblock⟩ := houtcome _ (returns_allocated_onesSource
    ((answer_bind_of_ok hpadding).trans (answer_allocate_of_le hallocated)))
  split_ifs at hresult with hfits
  obtain ⟨⟨hlength, padding, hcount, -, hshape⟩, -⟩ := hblock _ (Option.some.inj hresult).symm
  rw [hshape] at hlength
  simp only [List.length_append, List.length_cons, List.length_nil] at hlength
  exact ⟨by omega, hfits⟩

/-- Both encoders keep their formats, and the decoder takes their blocks apart, exactly when the
input is too long and refused, or the modulus has at least 11 bytes and the block fits in the
vectors that they make for it.

A vector has at most `isize::MAX` bytes. The random source is any, and may fail; that the type-2
encoder returns is for a source that comes to nonzero bytes. -/
theorem encodersWellFormed_iff (modulusSize : ℕ) (input : ByteString) :
    (EncodesType1 modulusSize input ↔ modulusSize - 11 < input.length ∨
        11 ≤ modulusSize ∧ FitsType1 modulusSize input.length) ∧
      (EncodesType2 modulusSize input ↔ modulusSize - 11 < input.length ∨
        11 ≤ modulusSize ∧ modulusSize ≤ isizeMax) :=
  ⟨encodesType1_iff modulusSize input, encodesType2_iff modulusSize input⟩

/-- A modulus of five bytes and the empty input: the type-1 encoder answers `00 01 FF FF 00`, and
the type-2 encoder a block with two padding bytes; without a modulus both panic, and so they do for
the greatest `usize`. -/
theorem not_encodersWellFormed_five :
    (answer (Allocated.pkcs1v15EncodedPayload 5 []) = some (.ok [0, 1, 0xff, 0xff, 0]) ∧
      ¬ EncodesType1 5 []) ∧
    ((Allocated.rsaPkcs1v15Pad onesSource [] 5 ()).Returns (some (.ok [0, 2, 1, 1, 0])) ∧
      ¬ EncodesType2 5 []) ∧
    (answer (Allocated.pkcs1v15EncodedPayload 0 []) = none ∧
      (Allocated.rsaPkcs1v15Pad onesSource [] 0 ()).Returns none) ∧
    answer (Allocated.pkcs1v15EncodedPayload (2 ^ 64 - 1) []) = none ∧
      (Allocated.rsaPkcs1v15Pad onesSource [] (2 ^ 64 - 1) ()).Returns none := by
  refine ⟨⟨by decide, ?_⟩, ⟨?_, ?_⟩, ⟨by decide, Fuelled.returns_pure.mpr rfl⟩, by decide,
    Fuelled.returns_pure.mpr rfl⟩
  · rw [encodesType1_iff]
    decide
  · have hlength : answer (paddingLength [] 5 >>= allocate) = some (.ok 2) := by decide
    have hreturns := returns_allocated_onesSource hlength
    rwa [if_pos (by decide)] at hreturns
  · rw [encodesType2_iff]
    decide

end SoftwareKeyCore.RsaSigning
