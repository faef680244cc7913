import SoftwareKeyCore.Foundation.CallbackSession
import SoftwareKeyCore.Foundation.CheckedSlice
import SoftwareKeyCore.SoftwareSymmetric.KeyWrap

/-!
# The slices of the AES key wrap

`software_symmetric.rs`, `key_wrap_rounds`, `key_wrap_with` and `key_wrap_with_padding_with`, with
every slice, copy and subtraction checked: an index out of range is a panic of the model.

`Checked.keyWrapWith_eq` and `Checked.keyWrapWithPaddingWith_eq` say that no check ever fails,
whatever the block operation answers: the checked functions are the functions of `KeyWrap`. Their
loops keep the lengths of `a` and `r` (`RoundState`), which is what the slices rely on.
-/

set_option autoImplicit false
set_option relaxedAutoImplicit false

namespace SoftwareKeyCore.KeyWrap.Checked

open ByteString CallbackSession CheckedSlice FallibleResult

/-- The bytes of the array of a length that `try_into` makes. -/
def toArray (length : ℕ) (bytes : ByteString) : Option ByteString :=
  (tryInto length bytes).map List.Vector.toList

/-- The two halves of a transformed block, copied to `a` and to a range of `r`. -/
def copyHalves (a r : ByteString) (start stop : ℕ) (transformed : ByteString) :
    Option (ByteString × ByteString) := do
  let head ← sliceTo transformed keyWrapSemiblockSize
  let a ← copyInto a 0 a.length head
  let tail ← sliceFrom transformed keyWrapSemiblockSize
  let r ← copyInto r start stop tail
  some (a, r)

section Constructions

variable {m : Type → Type} [Monad m] [CanPanic m] {ε : Type}

/-- The body of the encrypting loop at a round and an index. -/
def wrapStep (cryptBlock : ByteString → Bool → m (Except ε ByteString)) (semiblocks round : ℕ)
    (state : ByteString × ByteString) (index : ℕ) :
    ExceptT (KeyWrapError ε) m (ByteString × ByteString) := do
  let (a, r) := state
  let start := index * keyWrapSemiblockSize
  let stop := (index + 1) * keyWrapSemiblockSize
  let semiblock ← orPanic (sliceRange r start stop)
  let transformed ← transformBlock cryptBlock (a ++ semiblock) true
  let (a, r) ← orPanic (copyHalves a r start stop transformed)
  pure (xorInPlace a (counterBytes semiblocks round index), r)

/-- The body of the decrypting loop at a round and an index. -/
def unwrapStep (cryptBlock : ByteString → Bool → m (Except ε ByteString)) (semiblocks round : ℕ)
    (state : ByteString × ByteString) (index : ℕ) :
    ExceptT (KeyWrapError ε) m (ByteString × ByteString) := do
  let (a, r) := state
  let start := index * keyWrapSemiblockSize
  let stop := (index + 1) * keyWrapSemiblockSize
  let block := xorInPlace a (counterBytes semiblocks round index)
  let semiblock ← orPanic (sliceRange r start stop)
  let transformed ← transformBlock cryptBlock (block ++ semiblock) false
  orPanic (copyHalves a r start stop transformed)

/-- `key_wrap_rounds`. -/
def keyWrapRounds (a r : ByteString) (encrypting : Bool)
    (cryptBlock : ByteString → Bool → m (Except ε ByteString)) :
    ExceptT (KeyWrapError ε) m (ByteString × ByteString) :=
  let semiblocks := r.length / keyWrapSemiblockSize
  if encrypting then
    (List.range 6).foldlM (fun state round ↦
      (List.range semiblocks).foldlM (wrapStep cryptBlock semiblocks round) state) (a, r)
  else
    (List.range 6).reverse.foldlM (fun state round ↦
      (List.range semiblocks).reverse.foldlM (unwrapStep cryptBlock semiblocks round) state) (a, r)

/-- `key_wrap_with`. -/
def keyWrapWith (input : ByteString) (encrypting : Bool) (initialValue : ByteString)
    (cryptBlock : ByteString → Bool → m (Except ε ByteString)) :
    ExceptT (KeyWrapError ε) m ByteString :=
  if initialValue.length ≠ keyWrapSemiblockSize then throw .invalidInitialValue
  else if encrypting then
    if input.length < aesBlockSize ∨ ¬ keyWrapSemiblockSize ∣ input.length then
      throw .invalidDataLength
    else do
      let a ← orThrow (orError .invalidInitialValue (toArray keyWrapSemiblockSize initialValue))
      let (a, r) ← keyWrapRounds a input true cryptBlock
      pure (a ++ r)
  else if input.length < aesBlockSize + keyWrapSemiblockSize ∨
      ¬ keyWrapSemiblockSize ∣ input.length then
    throw .invalidDataLength
  else do
    let head ← orPanic (sliceTo input keyWrapSemiblockSize)
    let a ← orThrow (orError .authenticationFailed (toArray keyWrapSemiblockSize head))
    let r ← orPanic (sliceFrom input keyWrapSemiblockSize)
    let (a, r) ← keyWrapRounds a r false cryptBlock
    if a = initialValue then pure r else throw .authenticationFailed

/-- The initial `a` of `key_wrap_with_padding_with`. -/
def paddedInitialValue (alternativeInitialValue : ByteString) (length : ℕ) :
    Option ByteString := do
  let a ← copyInto (List.replicate keyWrapSemiblockSize 0) 0 4 alternativeInitialValue
  copyInto a 4 a.length (toBeBytes 4 length)

/-- The flag that the decrypting branch of `key_wrap_with_padding_with` accumulates. -/
def paddedFieldsInvalid (alternativeInitialValue : ByteString) (semiblocks messageLength : ℕ)
    (a r : ByteString) : Option Bool := do
  let minimumSemiblocks ← subtract semiblocks 1
  let minimumLength := minimumSemiblocks * keyWrapSemiblockSize
  let maximumLength := semiblocks * keyWrapSemiblockSize
  let head ← sliceTo a 4
  let invalid := !decide (head = alternativeInitialValue)
  let invalid := invalid || !decide (minimumLength < messageLength)
  let invalid := invalid || decide (maximumLength < messageLength)
  some (r.zipIdx.foldl (fun invalid (byte, index) ↦
    invalid || (!decide (index < messageLength) && !decide (byte = 0))) invalid)

/-- The decryption of a padded wrapping into `a` and `r`. -/
def unwrapPaddedFields (semiblocks : ℕ) (input a r : ByteString)
    (cryptBlock : ByteString → Bool → m (Except ε ByteString)) :
    ExceptT (KeyWrapError ε) m (ByteString × ByteString) :=
  if semiblocks = 1 then do
    let transformed ← transformBlock cryptBlock input false
    orPanic (copyHalves a r 0 r.length transformed)
  else keyWrapRounds a r false cryptBlock

/-- `key_wrap_with_padding_with`. -/
def keyWrapWithPaddingWith (input : ByteString) (encrypting : Bool)
    (alternativeInitialValue : ByteString)
    (cryptBlock : ByteString → Bool → m (Except ε ByteString)) :
    ExceptT (KeyWrapError ε) m ByteString :=
  if alternativeInitialValue.length ≠ 4 then throw .invalidInitialValue
  else if encrypting then
    if input = [] ∨ 2 ^ 32 - 1 < input.length then throw .inputTooLong
    else do
      let semiblocks := input.length ⌈/⌉ keyWrapSemiblockSize
      let a ← orPanic (paddedInitialValue alternativeInitialValue input.length)
      let r := resize input (semiblocks * keyWrapSemiblockSize) 0
      if semiblocks = 1 then transformBlock cryptBlock (a ++ r) true
      else do
        let (a, r) ← keyWrapRounds a r true cryptBlock
        pure (a ++ r)
  else if input.length < aesBlockSize ∨ ¬ keyWrapSemiblockSize ∣ input.length then
    throw .invalidDataLength
  else do
    let semiblocks ← orPanic (subtract (input.length / keyWrapSemiblockSize) 1)
    let head ← orPanic (sliceTo input keyWrapSemiblockSize)
    let a ← orThrow (orError .authenticationFailed (toArray keyWrapSemiblockSize head))
    let r ← orPanic (sliceFrom input keyWrapSemiblockSize)
    let (a, r) ← unwrapPaddedFields semiblocks input a r cryptBlock
    let field ← orPanic (sliceFrom a 4)
    let field ← orThrow (orError .authenticationFailed (toArray 4 field))
    let messageLength := fromBeBytes field
    let invalid ← orPanic
      (paddedFieldsInvalid alternativeInitialValue semiblocks messageLength a r)
    if invalid then throw .authenticationFailed
    else pure (r.take messageLength)

end Constructions

/-! ### No check fails -/

/-- The lengths that the rounds keep: `a` is one semiblock and `r` is as long as at first. -/
def RoundState (length : ℕ) (state : ByteString × ByteString) : Prop :=
  state.1.length = keyWrapSemiblockSize ∧ state.2.length = length

section

variable {m : Type → Type} [Monad m] [LawfulMonad m] {ε : Type}
  (cryptBlock : ByteString → Bool → m (Except ε ByteString)) {a r transformed : ByteString}

/-- A block operation goes on with whole blocks. -/
theorem ensures_transformBlock (block : ByteString) (encrypting : Bool) :
    Ensures (transformBlock cryptBlock block encrypting) fun transformed ↦
      transformed.length = aesBlockSize :=
  ensures_checkedCall KeyWrapError.blockOperation .invalidBlockOutput aesBlockSize
    (cryptBlock block encrypting)

omit [Monad m] [LawfulMonad m] in
/-- The halves of a block are copied within bounds. -/
theorem copyHalves_eq_some (ha : a.length = keyWrapSemiblockSize)
    (htransformed : transformed.length = aesBlockSize) {start stop : ℕ}
    (hstop : stop = start + keyWrapSemiblockSize) (hr : stop ≤ r.length) :
    copyHalves a r start stop transformed =
      some (transformed.take keyWrapSemiblockSize,
        writeSlice r start (transformed.drop keyWrapSemiblockSize)) := by
  obtain ⟨hhead, htail⟩ := length_halves htransformed
  have hlength : keyWrapSemiblockSize ≤ transformed.length := by
    rw [htransformed, aesBlockSize_eq]
    exact Nat.le_add_left _ _
  unfold copyHalves
  rw [sliceTo_eq_some hlength, Option.bind_eq_bind, Option.bind_some,
    copyInto_all (hhead.trans ha.symm), Option.bind_some, sliceFrom_eq_some hlength,
    Option.bind_some, copyInto_eq_some (by omega) hr (by omega), Option.bind_some]

/-- The halves of a block have the lengths of a round state. -/
theorem roundState_halves {mask : ByteString} (hmask : mask.length = keyWrapSemiblockSize)
    (htransformed : transformed.length = aesBlockSize) {start : ℕ}
    (hr : start + keyWrapSemiblockSize ≤ r.length) :
    RoundState r.length (xorBytes (transformed.take keyWrapSemiblockSize) mask,
      writeSlice r start (transformed.drop keyWrapSemiblockSize)) := by
  obtain ⟨hhead, htail⟩ := length_halves htransformed
  refine ⟨?_, ?_⟩
  · rw [length_xorBytes, hhead, hmask, min_self]
  · exact length_writeSlice (by rw [htail]; exact hr)

variable [CanPanic m] {round index : ℕ} {state : ByteString × ByteString} {length : ℕ}

/-- A semiblock ends within `r`, and one semiblock after it starts. -/
theorem semiblock_within {r : ByteString} (hindex : index < length / keyWrapSemiblockSize)
    (hr : r.length = length) :
    (index + 1) * keyWrapSemiblockSize ≤ r.length ∧
      (index + 1) * keyWrapSemiblockSize =
        index * keyWrapSemiblockSize + keyWrapSemiblockSize := by
  refine ⟨?_, Nat.succ_mul _ _⟩
  rw [hr]
  exact (Nat.mul_le_mul_right _ hindex).trans (Nat.div_mul_le_self _ _)

/-- An encrypting step stays within bounds. -/
theorem wrapStep_eq (hindex : index < length / keyWrapSemiblockSize)
    (hstate : RoundState length state) :
    wrapStep cryptBlock (length / keyWrapSemiblockSize) round state index =
        KeyWrap.wrapStep cryptBlock (length / keyWrapSemiblockSize) round state index ∧
      Ensures (KeyWrap.wrapStep cryptBlock (length / keyWrapSemiblockSize) round state index)
        (RoundState length) := by
  obtain ⟨a, r⟩ := state
  obtain ⟨ha, hr⟩ := hstate
  dsimp only at ha hr
  obtain ⟨hbound, hstop⟩ := semiblock_within hindex hr
  refine ⟨?_, ?_⟩
  · unfold wrapStep KeyWrap.wrapStep
    dsimp only
    rw [sliceRange_eq_some (by omega) hbound, orPanic_some_bind, hstop, Nat.add_sub_cancel_left]
    refine ensures_transformBlock cryptBlock _ true _ _ _ fun transformed htransformed ↦ ?_
    rw [copyHalves_eq_some ha htransformed rfl (by omega), orPanic_some_bind, xorInPlace_eq]
    rw [length_counterBytes, (length_halves htransformed).1]
  · unfold KeyWrap.wrapStep
    refine (ensures_transformBlock cryptBlock _ true).bind fun transformed htransformed ↦ ?_
    rw [← hr]
    exact ensures_pure (roundState_halves (length_counterBytes _ _ _) htransformed (by omega))

/-- A decrypting step stays within bounds. -/
theorem unwrapStep_eq (hindex : index < length / keyWrapSemiblockSize)
    (hstate : RoundState length state) :
    unwrapStep cryptBlock (length / keyWrapSemiblockSize) round state index =
        KeyWrap.unwrapStep cryptBlock (length / keyWrapSemiblockSize) round state index ∧
      Ensures (KeyWrap.unwrapStep cryptBlock (length / keyWrapSemiblockSize) round state index)
        (RoundState length) := by
  obtain ⟨a, r⟩ := state
  obtain ⟨ha, hr⟩ := hstate
  dsimp only at ha hr
  obtain ⟨hbound, hstop⟩ := semiblock_within hindex hr
  refine ⟨?_, ?_⟩
  · unfold unwrapStep KeyWrap.unwrapStep
    dsimp only
    rw [sliceRange_eq_some (by omega) hbound, orPanic_some_bind, hstop, Nat.add_sub_cancel_left,
      xorInPlace_eq (by rw [length_counterBytes, ha])]
    refine ensures_transformBlock cryptBlock _ false _ _ _ fun transformed htransformed ↦ ?_
    rw [copyHalves_eq_some ha htransformed rfl (by omega)]
    rfl
  · unfold KeyWrap.unwrapStep
    refine (ensures_transformBlock cryptBlock _ false).bind fun transformed htransformed ↦ ?_
    obtain ⟨hhead, htail⟩ := length_halves htransformed
    rw [← hr]
    exact ensures_pure ⟨hhead, length_writeSlice (by rw [htail]; omega)⟩

/-- The rounds stay within bounds, and keep the lengths of `a` and `r`. -/
theorem keyWrapRounds_eq (ha : a.length = keyWrapSemiblockSize) (encrypting : Bool) :
    keyWrapRounds a r encrypting cryptBlock = KeyWrap.keyWrapRounds a r encrypting cryptBlock ∧
      Ensures (keyWrapRounds a r encrypting cryptBlock) (RoundState r.length) := by
  have hstate : RoundState r.length (a, r) := ⟨ha, rfl⟩
  unfold keyWrapRounds KeyWrap.keyWrapRounds
  cases encrypting with
  | true =>
    refine foldlM_congr_of_ensures (RoundState r.length) ?_ hstate
    intro round _ state hstate
    refine foldlM_congr_of_ensures (RoundState r.length) ?_ hstate
    intro index hindex state hstate
    obtain ⟨hequal, hensures⟩ := wrapStep_eq cryptBlock (List.mem_range.mp hindex) hstate
    rw [hequal]
    exact ⟨rfl, hensures⟩
  | false =>
    refine foldlM_congr_of_ensures (RoundState r.length) ?_ hstate
    intro round _ state hstate
    refine foldlM_congr_of_ensures (RoundState r.length) ?_ hstate
    intro index hindex state hstate
    rw [List.mem_reverse, List.mem_range] at hindex
    obtain ⟨hequal, hensures⟩ := unwrapStep_eq cryptBlock hindex hstate
    rw [hequal]
    exact ⟨rfl, hensures⟩

theorem toArray_eq_some {bytes : ByteString} {length : ℕ} (hlength : bytes.length = length) :
    toArray length bytes = some bytes := by
  rw [toArray, @tryInto_eq_some_iff length bytes ⟨bytes, hlength⟩ |>.mpr rfl]
  rfl

/-- `key_wrap_with` stays within bounds. -/
theorem keyWrapWith_eq (input : ByteString) (encrypting : Bool) (initialValue : ByteString) :
    keyWrapWith input encrypting initialValue cryptBlock =
      KeyWrap.keyWrapWith input encrypting initialValue cryptBlock := by
  unfold keyWrapWith KeyWrap.keyWrapWith
  split_ifs with hvalue hencrypting hshort hshort
  · rfl
  · rfl
  · have ha : initialValue.length = keyWrapSemiblockSize := not_not.mp hvalue
    rw [toArray_eq_some ha, orThrow_orError_some_bind, (keyWrapRounds_eq cryptBlock ha true).1]
  · rfl
  · rw [not_or, not_lt] at hshort
    have hlength : keyWrapSemiblockSize ≤ input.length :=
      (Nat.le_add_left _ _).trans hshort.1
    have hhead : (input.take keyWrapSemiblockSize).length = keyWrapSemiblockSize :=
      List.length_take_of_le hlength
    rw [sliceTo_eq_some hlength, orPanic_some_bind, toArray_eq_some hhead,
      orThrow_orError_some_bind, sliceFrom_eq_some hlength, orPanic_some_bind,
      (keyWrapRounds_eq cryptBlock hhead false).1]

omit [Monad m] [LawfulMonad m] [CanPanic m] in
/-- The initial `a` of a padded wrap is written within bounds. -/
theorem paddedInitialValue_eq_some {alternativeInitialValue : ByteString}
    (hvalue : alternativeInitialValue.length = 4) (length : ℕ) :
    paddedInitialValue alternativeInitialValue length =
      some (KeyWrap.paddedInitialValue alternativeInitialValue length) := by
  have hzeros : (List.replicate keyWrapSemiblockSize (0 : UInt8)).length = 4 + 4 :=
    List.length_replicate
  have hrest : ((List.replicate keyWrapSemiblockSize (0 : UInt8)).drop 4).length = 4 := by
    rw [List.length_drop, hzeros]
  have hlength : (alternativeInitialValue ++
      (List.replicate keyWrapSemiblockSize 0).drop 4).length = 4 + 4 := by
    rw [List.length_append, hvalue, hrest]
  unfold paddedInitialValue
  rw [copyInto_zero (by omega) hvalue, Option.bind_eq_bind, Option.bind_some,
    copyInto_length (by omega) (by rw [length_toBeBytes]; omega), List.take_left' hvalue,
    KeyWrap.paddedInitialValue]

omit [Monad m] [LawfulMonad m] [CanPanic m] in
/-- The checks of the decrypted fields stay within bounds. -/
theorem paddedFieldsInvalid_eq_some (ha : a.length = keyWrapSemiblockSize) {semiblocks : ℕ}
    (hsemiblocks : 1 ≤ semiblocks) (alternativeInitialValue : ByteString) :
    paddedFieldsInvalid alternativeInitialValue semiblocks (fromBeBytes (a.drop 4)) a r =
      some (KeyWrap.paddedFieldsInvalid alternativeInitialValue semiblocks a r) := by
  have hhead : 4 ≤ a.length := by
    rw [ha]
    exact Nat.le_add_left 4 4
  unfold paddedFieldsInvalid
  rw [subtract_eq_some hsemiblocks, Option.bind_eq_bind, Option.bind_some]
  dsimp only
  rw [sliceTo_eq_some hhead]
  rfl

/-- The decryption of a padded wrapping stays within bounds. -/
theorem unwrapPaddedFields_eq {input : ByteString}
    (hinput : aesBlockSize ≤ input.length) (hdvd : keyWrapSemiblockSize ∣ input.length)  :
    unwrapPaddedFields (input.length / keyWrapSemiblockSize - 1) input
        (input.take keyWrapSemiblockSize) (input.drop keyWrapSemiblockSize) cryptBlock =
        KeyWrap.unwrapPaddedFields (input.length / keyWrapSemiblockSize - 1) input cryptBlock ∧
      Ensures (KeyWrap.unwrapPaddedFields (input.length / keyWrapSemiblockSize - 1) input
        cryptBlock) fun state ↦ state.1.length = keyWrapSemiblockSize := by
  have hhead : (input.take keyWrapSemiblockSize).length = keyWrapSemiblockSize :=
    List.length_take_of_le ((Nat.le_add_left 8 8).trans hinput)
  unfold unwrapPaddedFields KeyWrap.unwrapPaddedFields
  by_cases hone : input.length / keyWrapSemiblockSize - 1 = 1
  · have hlength : (input.drop keyWrapSemiblockSize).length = keyWrapSemiblockSize := by
      obtain ⟨count, hcount⟩ := hdvd
      rw [hcount, Nat.mul_div_cancel_left _ (by decide)] at hone
      rw [List.length_drop, hcount, show count = 2 by omega]
      rfl
    rw [if_pos hone, if_pos hone]
    refine ⟨?_, ?_⟩
    · refine ensures_transformBlock cryptBlock _ false _ _ _ fun transformed htransformed ↦ ?_
      obtain ⟨-, htail⟩ := length_halves htransformed
      have hwrite : writeSlice (input.drop keyWrapSemiblockSize) 0
          (transformed.drop keyWrapSemiblockSize) = transformed.drop keyWrapSemiblockSize := by
        rw [writeSlice, List.take_zero, List.nil_append, zero_add, htail,
          List.drop_eq_nil_of_le hlength.le, List.append_nil]
      rw [copyHalves_eq_some hhead htransformed (by rw [hlength, zero_add]) le_rfl, hwrite]
      rfl
    · refine (ensures_transformBlock cryptBlock _ false).bind fun transformed htransformed ↦ ?_
      exact ensures_pure (length_halves htransformed).1
  · rw [if_neg hone, if_neg hone]
    obtain ⟨hequal, hensures⟩ := keyWrapRounds_eq cryptBlock
      (r := input.drop keyWrapSemiblockSize) hhead false
    rw [← hequal]
    exact ⟨rfl, hensures.mono fun state hstate ↦ hstate.1⟩

/-- `key_wrap_with_padding_with` stays within bounds. -/
theorem keyWrapWithPaddingWith_eq (input : ByteString) (encrypting : Bool)
    (alternativeInitialValue : ByteString) :
    keyWrapWithPaddingWith input encrypting alternativeInitialValue cryptBlock =
      KeyWrap.keyWrapWithPaddingWith input encrypting alternativeInitialValue cryptBlock := by
  unfold keyWrapWithPaddingWith KeyWrap.keyWrapWithPaddingWith
  split_ifs with hvalue hencrypting hlong hshort
  · rfl
  · rfl
  · have hcount : input.length ⌈/⌉ keyWrapSemiblockSize =
        (input.length + 7) / keyWrapSemiblockSize := Nat.ceilDiv_eq_add_pred_div _ _
    have hcover : input.length ≤
        (input.length + 7) / keyWrapSemiblockSize * keyWrapSemiblockSize := by
      rw [← hcount]
      exact le_ceilDiv_mul (by decide) _
    have ha : (KeyWrap.paddedInitialValue alternativeInitialValue input.length).length =
        keyWrapSemiblockSize := by
      rw [KeyWrap.paddedInitialValue, List.length_append, not_not.mp hvalue, length_toBeBytes]
    dsimp only
    rw [hcount, paddedInitialValue_eq_some (not_not.mp hvalue), orPanic_some_bind,
      resize_of_le hcover, wrapPaddedFields, (keyWrapRounds_eq cryptBlock ha true).1]
  · rfl
  · rw [not_or, not_lt, not_not] at hshort
    have hlength : keyWrapSemiblockSize ≤ input.length := (Nat.le_add_left 8 8).trans hshort.1
    have hhead : (input.take keyWrapSemiblockSize).length = keyWrapSemiblockSize :=
      List.length_take_of_le hlength
    have hsemiblocks : 2 ≤ input.length / keyWrapSemiblockSize :=
      (Nat.le_div_iff_mul_le (by decide)).mpr hshort.1
    obtain ⟨hequal, hensures⟩ := unwrapPaddedFields_eq cryptBlock hshort.1 hshort.2
    rw [subtract_eq_some (by omega), orPanic_some_bind, sliceTo_eq_some hlength,
      orPanic_some_bind, toArray_eq_some hhead, orThrow_orError_some_bind,
      sliceFrom_eq_some hlength, orPanic_some_bind, hequal]
    refine hensures _ _ _ fun state hstate ↦ ?_
    obtain ⟨a, r⟩ := state
    dsimp only at hstate ⊢
    have hfield : (a.drop 4).length = 4 := by
      rw [List.length_drop, hstate]
      rfl
    have htail : 4 ≤ a.length := by
      rw [hstate]
      exact Nat.le_add_left 4 4
    rw [sliceFrom_eq_some htail, orPanic_some_bind, toArray_eq_some hfield,
      orThrow_orError_some_bind, paddedFieldsInvalid_eq_some hstate (by omega),
      orPanic_some_bind]

end

end SoftwareKeyCore.KeyWrap.Checked
