import SoftwareKeyCore.Foundation.ByteString
import SoftwareKeyCore.Foundation.CallbackMonad

/-!
# AES key wrap over a caller-supplied block operation

`software_symmetric.rs`, `key_wrap_rounds`, `key_wrap_with` (RFC 3394) and
`key_wrap_with_padding_with` (RFC 5649). The block operation is a callback in any monad `m`: it
receives a byte string and a direction and answers a byte string or an error of its own. A byte
array `[u8; 8]` and a `Vec<u8>` are both byte strings here; the lengths that the Rust types
enforce are the ones the functions establish. The constant-time comparisons are comparisons, and
the overwriting of a refused plaintext with zeros has no effect on a result.

The counter is a `u64` in the source. It is at most `6 * (length / 8)`, which fits, because a
byte slice is shorter than `2 ^ 64`.

The second half is about a callback that answers with a permutation of the 16-byte blocks and
its inverse, `BlockCipherCallback`. `wrapStep_unwrapStep` and `unwrapStep_wrapStep` are the two
step lemmas: the two steps of one round and index undo each other. `keyWrapRounds_true` and
`keyWrapRounds_false` carry them through both loops.
-/

set_option autoImplicit false
set_option relaxedAutoImplicit false

namespace SoftwareKeyCore.KeyWrap

open ByteString CallbackMonad

/-- `AES_BLOCK_SIZE`. -/
abbrev aesBlockSize : ℕ := 16

/-- `KEY_WRAP_SEMIBLOCK_SIZE`. -/
abbrev keyWrapSemiblockSize : ℕ := 8

/-- `KeyWrapError`, over the error type of the block operation. -/
inductive KeyWrapError (ε : Type)
  | invalidInitialValue
  | invalidDataLength
  | inputTooLong
  | invalidBlockOutput
  | authenticationFailed
  | blockOperation (error : ε)
  deriving DecidableEq, Repr

/-! ### The constructions -/

section Constructions

variable {m : Type → Type} [Monad m] {ε : Type}

/-- One call of the block operation whose output must be one AES block. -/
def transformBlock (cryptBlock : ByteString → Bool → m (Except ε ByteString))
    (block : ByteString) (encrypting : Bool) : ExceptT (KeyWrapError ε) m ByteString := do
  let transformed ← liftCallback KeyWrapError.blockOperation (cryptBlock block encrypting)
  if transformed.length = aesBlockSize then pure transformed
  else throw .invalidBlockOutput

/-- The counter mixed into `a` at a round and an index, as eight big-endian bytes. -/
def counterBytes (semiblocks round index : ℕ) : ByteString :=
  toBeBytes 8 (semiblocks * round + index + 1)

/-- The body of the encrypting loop at a round and an index. -/
def wrapStep (cryptBlock : ByteString → Bool → m (Except ε ByteString))
    (semiblocks round : ℕ) (state : ByteString × ByteString) (index : ℕ) :
    ExceptT (KeyWrapError ε) m (ByteString × ByteString) := do
  let (a, r) := state
  let block := a ++ slice r (index * keyWrapSemiblockSize) keyWrapSemiblockSize
  let transformed ← transformBlock cryptBlock block true
  pure (xorBytes (transformed.take keyWrapSemiblockSize) (counterBytes semiblocks round index),
    writeSlice r (index * keyWrapSemiblockSize) (transformed.drop keyWrapSemiblockSize))

/-- The body of the decrypting loop at a round and an index. -/
def unwrapStep (cryptBlock : ByteString → Bool → m (Except ε ByteString))
    (semiblocks round : ℕ) (state : ByteString × ByteString) (index : ℕ) :
    ExceptT (KeyWrapError ε) m (ByteString × ByteString) := do
  let (a, r) := state
  let block := xorBytes a (counterBytes semiblocks round index) ++
    slice r (index * keyWrapSemiblockSize) keyWrapSemiblockSize
  let transformed ← transformBlock cryptBlock block false
  pure (transformed.take keyWrapSemiblockSize,
    writeSlice r (index * keyWrapSemiblockSize) (transformed.drop keyWrapSemiblockSize))

/-- The inner encrypting loop: one pass over the semiblocks in increasing order. -/
def wrapPass (cryptBlock : ByteString → Bool → m (Except ε ByteString)) (semiblocks : ℕ)
    (state : ByteString × ByteString) (round : ℕ) :
    ExceptT (KeyWrapError ε) m (ByteString × ByteString) :=
  (List.range semiblocks).foldlM (wrapStep cryptBlock semiblocks round) state

/-- The inner decrypting loop: one pass over the semiblocks in decreasing order. -/
def unwrapPass (cryptBlock : ByteString → Bool → m (Except ε ByteString)) (semiblocks : ℕ)
    (state : ByteString × ByteString) (round : ℕ) :
    ExceptT (KeyWrapError ε) m (ByteString × ByteString) :=
  (List.range semiblocks).reverse.foldlM (unwrapStep cryptBlock semiblocks round) state

/-- `key_wrap_rounds`: six passes over the semiblocks of `r`, in increasing order when
encrypting and in decreasing order when decrypting. -/
def keyWrapRounds (a r : ByteString) (encrypting : Bool)
    (cryptBlock : ByteString → Bool → m (Except ε ByteString)) :
    ExceptT (KeyWrapError ε) m (ByteString × ByteString) :=
  let semiblocks := r.length / keyWrapSemiblockSize
  if encrypting then
    (List.range 6).foldlM (wrapPass cryptBlock semiblocks) (a, r)
  else
    (List.range 6).reverse.foldlM (unwrapPass cryptBlock semiblocks) (a, r)

/-- `key_wrap_with`. -/
def keyWrapWith (input : ByteString) (encrypting : Bool) (initialValue : ByteString)
    (cryptBlock : ByteString → Bool → m (Except ε ByteString)) :
    ExceptT (KeyWrapError ε) m ByteString :=
  if initialValue.length ≠ keyWrapSemiblockSize then throw .invalidInitialValue
  else if encrypting then
    if input.length < aesBlockSize ∨ ¬ keyWrapSemiblockSize ∣ input.length then
      throw .invalidDataLength
    else do
      let (a, r) ← keyWrapRounds initialValue input true cryptBlock
      pure (a ++ r)
  else if input.length < aesBlockSize + keyWrapSemiblockSize ∨
      ¬ keyWrapSemiblockSize ∣ input.length then
    throw .invalidDataLength
  else do
    let (a, r) ← keyWrapRounds (input.take keyWrapSemiblockSize)
      (input.drop keyWrapSemiblockSize) false cryptBlock
    if a = initialValue then pure r else throw .authenticationFailed

/-- The initial `a` of a padded wrap: the alternative initial value and the length of the input
as four big-endian bytes. -/
def paddedInitialValue (alternativeInitialValue : ByteString) (length : ℕ) : ByteString :=
  alternativeInitialValue ++ toBeBytes 4 length

/-- The encryption of `a` and the padded input `r`: one block operation for a single semiblock
and the rounds otherwise. -/
def wrapPaddedFields (semiblocks : ℕ) (a r : ByteString)
    (cryptBlock : ByteString → Bool → m (Except ε ByteString)) :
    ExceptT (KeyWrapError ε) m ByteString :=
  if semiblocks = 1 then transformBlock cryptBlock (a ++ r) true
  else do
    let (a, r) ← keyWrapRounds a r true cryptBlock
    pure (a ++ r)

/-- The decryption of a padded wrapping into `a` and `r`: one block operation for a single
semiblock and the rounds otherwise. -/
def unwrapPaddedFields (semiblocks : ℕ) (input : ByteString)
    (cryptBlock : ByteString → Bool → m (Except ε ByteString)) :
    ExceptT (KeyWrapError ε) m (ByteString × ByteString) :=
  if semiblocks = 1 then do
    let transformed ← transformBlock cryptBlock input false
    pure (transformed.take keyWrapSemiblockSize, transformed.drop keyWrapSemiblockSize)
  else
    keyWrapRounds (input.take keyWrapSemiblockSize) (input.drop keyWrapSemiblockSize) false
      cryptBlock

/-- The flag the decrypting branch accumulates over `a` and `r`: whether the alternative initial
value differs, the length field is outside the last semiblock, or a pad byte is not zero. -/
def paddedFieldsInvalid (alternativeInitialValue : ByteString) (semiblocks : ℕ)
    (a r : ByteString) : Bool :=
  let messageLength := fromBeBytes (a.drop 4)
  let minimumLength := (semiblocks - 1) * keyWrapSemiblockSize
  let maximumLength := semiblocks * keyWrapSemiblockSize
  let invalid := !decide (a.take 4 = alternativeInitialValue)
  let invalid := invalid || !decide (minimumLength < messageLength)
  let invalid := invalid || decide (maximumLength < messageLength)
  r.zipIdx.foldl (fun invalid (byte, index) ↦
    invalid || (!decide (index < messageLength) && !decide (byte = 0))) invalid

/-- `key_wrap_with_padding_with`. -/
def keyWrapWithPaddingWith (input : ByteString) (encrypting : Bool)
    (alternativeInitialValue : ByteString)
    (cryptBlock : ByteString → Bool → m (Except ε ByteString)) :
    ExceptT (KeyWrapError ε) m ByteString :=
  if alternativeInitialValue.length ≠ 4 then throw .invalidInitialValue
  else if encrypting then
    if input = [] ∨ 2 ^ 32 - 1 < input.length then throw .inputTooLong
    else
      let semiblocks := (input.length + 7) / keyWrapSemiblockSize
      let a := paddedInitialValue alternativeInitialValue input.length
      let r := input ++ List.replicate (semiblocks * keyWrapSemiblockSize - input.length) 0
      wrapPaddedFields semiblocks a r cryptBlock
  else if input.length < aesBlockSize ∨ ¬ keyWrapSemiblockSize ∣ input.length then
    throw .invalidDataLength
  else do
    let semiblocks := input.length / keyWrapSemiblockSize - 1
    let (a, r) ← unwrapPaddedFields semiblocks input cryptBlock
    if paddedFieldsInvalid alternativeInitialValue semiblocks a r then
      throw .authenticationFailed
    else pure (r.take (fromBeBytes (a.drop 4)))

end Constructions

/-! ### A callback that permutes the blocks -/

/-- A 16-byte block. -/
abbrev Block := {block : ByteString // block.length = aesBlockSize}

/-- A callback without effects that answers every 16-byte block with its image under a
permutation of the blocks when encrypting and under the inverse permutation when decrypting. Its
answers to other byte strings are arbitrary. -/
structure BlockCipherCallback (ε : Type) where
  cryptBlock : ByteString → Bool → Except ε ByteString
  cipher : Equiv.Perm Block
  cryptBlock_true : ∀ block : Block, cryptBlock block true = .ok (cipher block)
  cryptBlock_false : ∀ block : Block, cryptBlock block false = .ok (cipher.symm block)

namespace BlockCipherCallback

variable {ε : Type} (callback : BlockCipherCallback ε)

/-- The callback as an argument of a construction. -/
def run (block : ByteString) (encrypting : Bool) : Id (Except ε ByteString) :=
  callback.cryptBlock block encrypting

/-- The permutation the callback applies in a direction. -/
def direction (encrypting : Bool) : Equiv.Perm Block :=
  if encrypting then callback.cipher else callback.cipher.symm

theorem direction_not (encrypting : Bool) :
    callback.direction (!encrypting) = (callback.direction encrypting).symm := by
  cases encrypting <;> rfl

/-- One call of the callback on a block answers with the image of the block. -/
theorem outcome_transformBlock (block : Block) (encrypting : Bool) :
    outcome (transformBlock callback.run block encrypting) =
      .ok (callback.direction encrypting block : ByteString) := by
  have hcall : callback.run block encrypting =
      (Except.ok (callback.direction encrypting block : ByteString) : Except ε ByteString) := by
    cases encrypting
    · exact callback.cryptBlock_false block
    · exact callback.cryptBlock_true block
  unfold transformBlock
  refine outcome_bind_eq_ok.mpr ⟨callback.direction encrypting block, ?_, ?_⟩
  · rw [hcall, outcome_liftCallback]
    rfl
  · rw [if_pos (callback.direction encrypting block).property]
    rfl

/-- A block and its image: the callback answers `image` to `block` exactly when it answers
`block` to `image` in the other direction. -/
theorem outcome_transformBlock_comm {block image : ByteString} {encrypting : Bool}
    (hblock : block.length = aesBlockSize) :
    outcome (transformBlock callback.run block encrypting) = .ok image →
      image.length = aesBlockSize ∧
        outcome (transformBlock callback.run image (!encrypting)) = .ok block := by
  intro hcall
  have himage := callback.outcome_transformBlock ⟨block, hblock⟩ encrypting
  obtain rfl : (callback.direction encrypting ⟨block, hblock⟩ : ByteString) = image :=
    Except.ok.inj (himage.symm.trans hcall)
  refine ⟨(callback.direction encrypting ⟨block, hblock⟩).property, ?_⟩
  rw [outcome_transformBlock, direction_not, Equiv.symm_apply_apply]

end BlockCipherCallback

/-! ### One round and index -/

/-- The states of the loops over `semiblocks` semiblocks: `a` is one semiblock and `r` is all of
them. -/
def WellSized (semiblocks : ℕ) (state : ByteString × ByteString) : Prop :=
  state.1.length = keyWrapSemiblockSize ∧ state.2.length = semiblocks * keyWrapSemiblockSize

section Steps

variable {ε : Type} (callback : BlockCipherCallback ε) {semiblocks round index : ℕ}

@[simp] theorem length_counterBytes (semiblocks round index : ℕ) :
    (counterBytes semiblocks round index).length = keyWrapSemiblockSize :=
  length_toBeBytes _ _

/-- A block is two semiblocks. -/
theorem aesBlockSize_eq : aesBlockSize = keyWrapSemiblockSize + keyWrapSemiblockSize :=
  rfl

/-- The semiblock of an index lies inside `r`. -/
theorem semiblock_le_length {r : ByteString}
    (hr : r.length = semiblocks * keyWrapSemiblockSize) (hindex : index < semiblocks) :
    index * keyWrapSemiblockSize + keyWrapSemiblockSize ≤ r.length := by
  rw [hr, ← Nat.succ_mul]
  exact Nat.mul_le_mul_right _ hindex

theorem length_slice_semiblock {r : ByteString}
    (hr : r.length = semiblocks * keyWrapSemiblockSize) (hindex : index < semiblocks) :
    (slice r (index * keyWrapSemiblockSize) keyWrapSemiblockSize).length =
      keyWrapSemiblockSize := by
  have hbound := semiblock_le_length hr hindex
  rw [length_slice]
  omega

/-- The two halves of a block are semiblocks. -/
theorem length_halves {block : ByteString} (hblock : block.length = aesBlockSize) :
    (block.take keyWrapSemiblockSize).length = keyWrapSemiblockSize ∧
      (block.drop keyWrapSemiblockSize).length = keyWrapSemiblockSize := by
  rw [aesBlockSize_eq] at hblock
  rw [List.length_take, List.length_drop]
  omega

/-- The decrypting step takes back the encrypting step of the same round and index. -/
theorem wrapStep_unwrapStep (hindex : index < semiblocks) {state next : ByteString × ByteString}
    (hstate : WellSized semiblocks state)
    (hstep : outcome (wrapStep callback.run semiblocks round state index) = .ok next) :
    WellSized semiblocks next ∧
      outcome (unwrapStep callback.run semiblocks round next index) = .ok state := by
  obtain ⟨a, r⟩ := state
  obtain ⟨ha, hr⟩ := hstate
  dsimp only at ha hr
  have hsemiblock := length_slice_semiblock hr hindex
  have hbound := semiblock_le_length hr hindex
  obtain ⟨transformed, hcall, hresult⟩ := outcome_bind_eq_ok.mp hstep
  obtain rfl : _ = next := by simpa using hresult
  obtain ⟨htransformed, hback⟩ := callback.outcome_transformBlock_comm
    (by rw [List.length_append, ha, hsemiblock, aesBlockSize_eq]) hcall
  obtain ⟨hhead, htail⟩ := length_halves htransformed
  have hwrite : index * keyWrapSemiblockSize +
      (transformed.drop keyWrapSemiblockSize).length ≤ r.length := by
    rw [htail]
    exact hbound
  refine ⟨⟨?_, ?_⟩, ?_⟩
  · rw [length_xorBytes, hhead, length_counterBytes, min_self]
  · rw [length_writeSlice hwrite, hr]
  · have hblock : xorBytes (xorBytes (transformed.take keyWrapSemiblockSize)
        (counterBytes semiblocks round index)) (counterBytes semiblocks round index) ++
        slice (writeSlice r (index * keyWrapSemiblockSize)
          (transformed.drop keyWrapSemiblockSize)) (index * keyWrapSemiblockSize)
          keyWrapSemiblockSize = transformed := by
      have hread := slice_writeSlice hwrite
      rw [htail] at hread
      rw [hread, xorBytes_cancel_right (by rw [hhead, length_counterBytes]),
        List.take_append_drop]
    refine outcome_bind_eq_ok.mpr
      ⟨a ++ slice r (index * keyWrapSemiblockSize) keyWrapSemiblockSize, ?_, ?_⟩
    · rw [hblock]
      exact hback
    · rw [outcome_pure, List.take_left' ha, List.drop_left' ha,
        writeSlice_writeSlice (by rw [htail, hsemiblock]) hwrite, writeSlice_slice hbound]

/-- The encrypting step takes back the decrypting step of the same round and index. -/
theorem unwrapStep_wrapStep (hindex : index < semiblocks) {state next : ByteString × ByteString}
    (hstate : WellSized semiblocks state)
    (hstep : outcome (unwrapStep callback.run semiblocks round state index) = .ok next) :
    WellSized semiblocks next ∧
      outcome (wrapStep callback.run semiblocks round next index) = .ok state := by
  obtain ⟨a, r⟩ := state
  obtain ⟨ha, hr⟩ := hstate
  dsimp only at ha hr
  have hsemiblock := length_slice_semiblock hr hindex
  have hbound := semiblock_le_length hr hindex
  have hmixed : (xorBytes a (counterBytes semiblocks round index)).length =
      keyWrapSemiblockSize := by
    rw [length_xorBytes, ha, length_counterBytes, min_self]
  obtain ⟨transformed, hcall, hresult⟩ := outcome_bind_eq_ok.mp hstep
  obtain rfl : _ = next := by simpa using hresult
  obtain ⟨htransformed, hback⟩ := callback.outcome_transformBlock_comm
    (by rw [List.length_append, hmixed, hsemiblock, aesBlockSize_eq]) hcall
  obtain ⟨hhead, htail⟩ := length_halves htransformed
  have hwrite : index * keyWrapSemiblockSize +
      (transformed.drop keyWrapSemiblockSize).length ≤ r.length := by
    rw [htail]
    exact hbound
  refine ⟨⟨hhead, ?_⟩, ?_⟩
  · rw [length_writeSlice hwrite, hr]
  · have hblock : transformed.take keyWrapSemiblockSize ++
        slice (writeSlice r (index * keyWrapSemiblockSize)
          (transformed.drop keyWrapSemiblockSize)) (index * keyWrapSemiblockSize)
          keyWrapSemiblockSize = transformed := by
      have hread := slice_writeSlice hwrite
      rw [htail] at hread
      rw [hread, List.take_append_drop]
    refine outcome_bind_eq_ok.mpr ⟨xorBytes a (counterBytes semiblocks round index) ++
      slice r (index * keyWrapSemiblockSize) keyWrapSemiblockSize, ?_, ?_⟩
    · rw [hblock]
      exact hback
    · rw [outcome_pure, List.take_left' hmixed, List.drop_left' hmixed,
        xorBytes_cancel_right (by rw [ha, length_counterBytes]),
        writeSlice_writeSlice (by rw [htail, hsemiblock]) hwrite, writeSlice_slice hbound]

/-- The encrypting step succeeds on a well-sized state. -/
theorem exists_wrapStep (hindex : index < semiblocks) {state : ByteString × ByteString}
    (hstate : WellSized semiblocks state) :
    ∃ next, outcome (wrapStep callback.run semiblocks round state index) = .ok next ∧
      WellSized semiblocks next := by
  have hsemiblock := length_slice_semiblock hstate.2 hindex
  have hblock : (state.1 ++ slice state.2 (index * keyWrapSemiblockSize)
      keyWrapSemiblockSize).length = aesBlockSize := by
    rw [List.length_append, hstate.1, hsemiblock, aesBlockSize_eq]
  have hstep : ∃ next,
      outcome (wrapStep callback.run semiblocks round state index) = .ok next :=
    ⟨_, outcome_bind_eq_ok.mpr ⟨_, callback.outcome_transformBlock ⟨_, hblock⟩ true, rfl⟩⟩
  obtain ⟨next, hnext⟩ := hstep
  exact ⟨next, hnext, (wrapStep_unwrapStep callback hindex hstate hnext).1⟩

/-! ### The rounds -/

/-- The decrypting pass takes back the encrypting pass of the same round. -/
theorem wrapPass_unwrapPass {state next : ByteString × ByteString}
    (hstate : WellSized semiblocks state)
    (hpass : outcome (wrapPass callback.run semiblocks state round) = .ok next) :
    WellSized semiblocks next ∧
      outcome (unwrapPass callback.run semiblocks next round) = .ok state :=
  foldlM_reverse_eq_ok (wrapStep callback.run semiblocks round)
    (unwrapStep callback.run semiblocks round) (WellSized semiblocks)
    (fun _ hindex _ _ hgood hstep ↦
      wrapStep_unwrapStep callback (List.mem_range.mp hindex) hgood hstep) hstate hpass

/-- The encrypting pass takes back the decrypting pass of the same round. -/
theorem unwrapPass_wrapPass {state next : ByteString × ByteString}
    (hstate : WellSized semiblocks state)
    (hpass : outcome (unwrapPass callback.run semiblocks state round) = .ok next) :
    WellSized semiblocks next ∧
      outcome (wrapPass callback.run semiblocks next round) = .ok state := by
  have hback := foldlM_reverse_eq_ok (unwrapStep callback.run semiblocks round)
    (wrapStep callback.run semiblocks round) (WellSized semiblocks)
    (fun _ hindex _ _ hgood hstep ↦ unwrapStep_wrapStep callback
      (List.mem_range.mp (List.mem_reverse.mp hindex)) hgood hstep) hstate hpass
  rwa [List.reverse_reverse] at hback

/-- The number of semiblocks is read off the length of `r`. -/
theorem WellSized.semiblocks_eq {state : ByteString × ByteString}
    (hstate : WellSized semiblocks state) :
    state.2.length / keyWrapSemiblockSize = semiblocks := by
  rw [hstate.2, Nat.mul_div_cancel _ (by decide)]

/-- Decrypting takes back a whole encryption. -/
theorem keyWrapRounds_true {a r a' r' : ByteString} (hstate : WellSized semiblocks (a, r))
    (hrounds : outcome (keyWrapRounds a r true callback.run) = .ok (a', r')) :
    WellSized semiblocks (a', r') ∧
      outcome (keyWrapRounds a' r' false callback.run) = .ok (a, r) := by
  unfold keyWrapRounds at hrounds ⊢
  rw [hstate.semiblocks_eq, if_pos rfl] at hrounds
  have hback := foldlM_reverse_eq_ok (wrapPass callback.run semiblocks)
    (unwrapPass callback.run semiblocks) (WellSized semiblocks)
    (fun _ _ _ _ hgood hpass ↦ wrapPass_unwrapPass callback hgood hpass)
    hstate hrounds
  rw [hback.1.semiblocks_eq, if_neg (by decide)]
  exact hback

/-- Encrypting takes back a whole decryption. -/
theorem keyWrapRounds_false {a r a' r' : ByteString} (hstate : WellSized semiblocks (a, r))
    (hrounds : outcome (keyWrapRounds a r false callback.run) = .ok (a', r')) :
    WellSized semiblocks (a', r') ∧
      outcome (keyWrapRounds a' r' true callback.run) = .ok (a, r) := by
  unfold keyWrapRounds at hrounds ⊢
  rw [hstate.semiblocks_eq, if_neg (by decide)] at hrounds
  have hback := foldlM_reverse_eq_ok (unwrapPass callback.run semiblocks)
    (wrapPass callback.run semiblocks) (WellSized semiblocks)
    (fun _ _ _ _ hgood hpass ↦ unwrapPass_wrapPass callback hgood hpass)
    hstate hrounds
  rw [hback.1.semiblocks_eq, if_pos rfl]
  rw [List.reverse_reverse] at hback
  exact hback

/-- The encrypting rounds succeed on a well-sized state. -/
theorem exists_keyWrapRounds_true {a r : ByteString} (hstate : WellSized semiblocks (a, r)) :
    ∃ a' r', outcome (keyWrapRounds a r true callback.run) = .ok (a', r') := by
  unfold keyWrapRounds
  rw [hstate.semiblocks_eq, if_pos rfl]
  obtain ⟨final, hfinal, -⟩ := exists_foldlM_eq_ok (wrapPass callback.run semiblocks)
    (WellSized semiblocks) (fun round _ _ hgood ↦ exists_foldlM_eq_ok
      (wrapStep callback.run semiblocks round) (WellSized semiblocks)
      (fun _ hindex _ hgood ↦ exists_wrapStep callback (List.mem_range.mp hindex) hgood) hgood)
    hstate
  exact ⟨final.1, final.2, hfinal⟩

end Steps

end SoftwareKeyCore.KeyWrap
