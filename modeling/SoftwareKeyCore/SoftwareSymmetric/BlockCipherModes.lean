import SoftwareKeyCore.Foundation.CallbackSession
import SoftwareKeyCore.Foundation.CheckedSlice

/-!
# CBC and CTR over a caller-supplied block transformation

`software_symmetric.rs`, `cbc_with` and `ctr_with`. The block transformation is a callback in any
monad that has panics. Slices and copies are the checked ones of `CheckedSlice`, so that an index
out of range is a panic of the model. The 128-bit words of `ctr_with` are bit vectors. The length
of a byte slice is below `2 ^ 63`, so that sums of lengths and constants do not overflow where
the source does not check them.

The counter of `ctr_with` has `counter_bits` bits, and the bits above them stay.
`toNat_ctrCounter` is what the counter of an offset is, `ctrBlock_eq_iff` when two offsets have
the same counter block, and `nodup_ctrBlocks_iff` that the counter blocks are distinct as long as
there are at most `2 ^ counter_bits` of them. `ctr_with` does not check the number of blocks,
as `ccm_with` and `gcm_with` do: `neverReusesKeystream_iff` is the exact condition under which it
does not use a counter block twice.
-/

set_option autoImplicit false
set_option relaxedAutoImplicit false

namespace SoftwareKeyCore.SoftwareSymmetric

open ByteString CallbackSession CheckedSlice Panicking

/-- `AES_BLOCK_SIZE`. -/
abbrev aesBlockSize : ℕ := 16

/-- A payload masked with a key stream, block by block. -/
def maskBlocks (payload keyStream : ByteString) : ByteString :=
  ((chunks aesBlockSize payload).zip (chunks aesBlockSize keyStream)).flatMap
    fun (block, keyStream) ↦ xorBytes block keyStream

theorem maskBlocks_eq (payload keyStream : ByteString) :
    maskBlocks payload keyStream = xorBytes payload keyStream :=
  flatMap_zip_chunks (by decide) payload keyStream

/-- `BlockCipherModeError`, over the error type of the block operation. -/
inductive BlockCipherModeError (ε : Type)
  | invalidBlockSize
  | invalidIvLength
  | invalidDataLength
  | invalidCounterBits
  | inputTooLong
  | invalidBlockOutput
  | blockOperation (error : ε)
  deriving DecidableEq, Repr

section Constructions

variable {m : Type → Type} [Monad m] [CanPanic m] {ε : Type}

/-- The body of the encrypting loop of `cbc_with`: the state is the previous block and the
output. -/
def cbcEncryptStep (blockSize : ℕ)
    (transformBlocks : ByteString → Bool → m (Except ε ByteString))
    (state : ByteString × ByteString) (inputBlock : ByteString) :
    ExceptT (BlockCipherModeError ε) m (ByteString × ByteString) := do
  let (previous, output) := state
  let mixed := xorBytes inputBlock previous
  let encrypted ← checkedCall .blockOperation .invalidBlockOutput blockSize
    (transformBlocks mixed true)
  let previous ← orPanic (copyInto previous 0 previous.length encrypted)
  pure (previous, output ++ encrypted)

/-- The body of the decrypting loop of `cbc_with`. -/
def cbcDecryptStep (state : ByteString × ByteString) (blocks : ByteString × ByteString) :
    Option (ByteString × ByteString) := do
  let (previous, output) := state
  let (inputBlock, decrypted) := blocks
  let output := output ++ xorBytes decrypted previous
  let previous ← copyInto previous 0 previous.length inputBlock
  some (previous, output)

/-- `cbc_with`. -/
def cbcWith (blockSize : ℕ) (iv input : ByteString) (encrypting : Bool)
    (transformBlocks : ByteString → Bool → m (Except ε ByteString)) :
    ExceptT (BlockCipherModeError ε) m ByteString :=
  if blockSize = 0 then throw .invalidBlockSize
  else if iv.length ≠ blockSize then throw .invalidIvLength
  else if ¬ blockSize ∣ input.length then throw .invalidDataLength
  else if encrypting then do
    let (_, output) ← (chunksExact blockSize input).foldlM
      (cbcEncryptStep blockSize transformBlocks) (iv, [])
    pure output
  else do
    let transformed ← checkedCall .blockOperation .invalidBlockOutput input.length
      (transformBlocks input false)
    let (_, output) ← orPanic
      (((chunksExact blockSize input).zip (chunksExact blockSize transformed)).foldlM
        cbcDecryptStep (iv, []))
    pure output

/-- The mask of the counter bits, as `ctr_with` computes it. -/
def counterMask (counterBits : ℕ) : BitVec 128 :=
  if counterBits = 128 then BitVec.allOnes 128 else (1#128 <<< counterBits) - 1#128

/-- The counter of `ctr_with` at an offset. -/
def ctrCounter (counterBits : ℕ) (initial : BitVec 128) (offset : ℕ) : BitVec 128 :=
  let mask := counterMask counterBits
  let fixed := initial &&& ~~~mask
  let initialCounter := initial &&& mask
  fixed ||| ((initialCounter + BitVec.ofNat 128 offset) &&& mask)

/-- The counter blocks of `ctr_with`. -/
def ctrCounterBlocks (counterBits : ℕ) (counterBlock : ByteString) (blockCount : ℕ) :
    Option ByteString := do
  let blockSize := counterBlock.length
  let start ← subtract 16 blockSize
  let paddedCounter ← copyInto (List.replicate 16 0) start 16 counterBlock
  let initial := BitVec.ofNat 128 (fromBeBytes paddedCounter)
  (List.range blockCount).foldlM (fun counterBlocks offset ↦ do
    let block ← sliceFrom (toBeBytes 16 (ctrCounter counterBits initial offset).toNat) start
    some (counterBlocks ++ block)) []

/-- `ctr_with`. -/
def ctrWith (counterBits : ℕ) (counterBlock input : ByteString)
    (encryptBlocks : ByteString → m (Except ε ByteString)) :
    ExceptT (BlockCipherModeError ε) m ByteString :=
  if counterBlock = [] ∨ 16 < counterBlock.length then throw .invalidBlockSize
  else
    let blockSize := counterBlock.length
    if ¬ (1 ≤ counterBits ∧ counterBits ≤ blockSize * 8) then throw .invalidCounterBits
    else
      let blockCount := input.length ⌈/⌉ blockSize
      match checkedMul blockCount blockSize with
      | none => throw .inputTooLong
      | some _ => do
        let counterBlocks ← orPanic (ctrCounterBlocks counterBits counterBlock blockCount)
        let keyStream ← checkedCall .blockOperation .invalidBlockOutput counterBlocks.length
          (encryptBlocks counterBlocks)
        pure (xorBytes input keyStream)

end Constructions

/-! ### CBC encryption -/

section

variable {ε : Type}

/-- The ciphertext blocks of CBC over a block function that may fail: every block is masked with
the ciphertext block before it, the first one with the initialization vector. -/
def cbcBlocks (encrypt : ByteString → Except ε ByteString) :
    ByteString → List ByteString → Except ε (List ByteString)
  | _, [] => .ok []
  | previous, block :: blocks => do
    let output ← encrypt (xorBytes block previous)
    let outputs ← cbcBlocks encrypt output blocks
    .ok (output :: outputs)

variable {encrypt : ByteString → Except ε ByteString}

/-- A chain of block encryptions ends with the last ciphertext block. -/
theorem foldlM_eq_cbcBlocks (blocks : List ByteString) (previous : ByteString) :
    blocks.foldlM (fun state block ↦ encrypt (xorBytes block state)) previous =
      (cbcBlocks encrypt previous blocks).map fun outputs ↦ outputs.getLastD previous := by
  induction blocks generalizing previous with
  | nil => rfl
  | cons block blocks ih =>
    rw [List.foldlM_cons, cbcBlocks]
    cases encrypt (xorBytes block previous) with
    | error error => rfl
    | ok output =>
      change List.foldlM _ output blocks = _
      rw [ih]
      change _ = Except.map _ (cbcBlocks encrypt output blocks >>= fun outputs ↦
        .ok (output :: outputs))
      cases cbcBlocks encrypt output blocks with
      | error error => rfl
      | ok outputs => exact congrArg Except.ok (List.getLastD_cons ..).symm

/-- The ciphertext has as many blocks as the input, and they have the block size. -/
theorem length_cbcBlocks {blockSize : ℕ}
    (hencrypt : ∀ block output, block.length = blockSize → encrypt block = .ok output →
      output.length = blockSize) {blocks : List ByteString}
    (hblocks : ∀ block ∈ blocks, block.length = blockSize) {previous : ByteString}
    (hprevious : previous.length = blockSize) {outputs : List ByteString}
    (houtputs : cbcBlocks encrypt previous blocks = .ok outputs) :
    outputs.length = blocks.length ∧ ∀ output ∈ outputs, output.length = blockSize := by
  induction blocks generalizing previous outputs with
  | nil =>
    obtain rfl := Except.ok.inj houtputs
    exact ⟨rfl, fun output hmem ↦ absurd hmem List.not_mem_nil⟩
  | cons block blocks ih =>
    rw [List.forall_mem_cons] at hblocks
    obtain ⟨output, houtput, htail⟩ := FallibleResult.bind_eq_ok_iff.mp houtputs
    obtain ⟨rest, hrest, hcons⟩ := FallibleResult.bind_eq_ok_iff.mp htail
    obtain rfl := Except.ok.inj hcons
    have hmixed : (xorBytes block previous).length = blockSize := by
      rw [length_xorBytes, hblocks.1, hprevious, min_self]
    have hlength := hencrypt _ _ hmixed houtput
    obtain ⟨hcount, hall⟩ := ih hblocks.2 hlength hrest
    exact ⟨by rw [List.length_cons, List.length_cons, hcount],
      List.forall_mem_cons.mpr ⟨hlength, hall⟩⟩

/-- The encrypting loop of `cbc_with` computes the ciphertext blocks. -/
theorem answer_cbcEncryptSteps {blockSize : ℕ}
    (hencrypt : ∀ block output, block.length = blockSize → encrypt block = .ok output →
      output.length = blockSize) {blocks : List ByteString}
    (hblocks : ∀ block ∈ blocks, block.length = blockSize) {previous : ByteString}
    (hprevious : previous.length = blockSize) (before : ByteString) :
    answer (blocks.foldlM (cbcEncryptStep blockSize fun block _ ↦ answering encrypt block)
        (previous, before)) =
      some (((cbcBlocks encrypt previous blocks).map fun outputs ↦
        (outputs.getLastD previous, before ++ outputs.flatten)).mapError .blockOperation) := by
  induction blocks generalizing previous before with
  | nil =>
    rw [cbcBlocks]
    change some (Except.ok (previous, before)) = some (Except.ok (previous, before ++ []))
    rw [List.append_nil]
  | cons block blocks ih =>
    rw [List.forall_mem_cons] at hblocks
    have hmixed : (xorBytes block previous).length = blockSize := by
      rw [length_xorBytes, hblocks.1, hprevious, min_self]
    have hcall := answer_checkedCall_of_length BlockCipherModeError.blockOperation
      .invalidBlockOutput (fun output ↦ hencrypt _ output hmixed)
    rw [List.foldlM_cons, cbcBlocks]
    cases houtput : encrypt (xorBytes block previous) with
    | error error =>
      rw [houtput] at hcall
      have hstep : answer (cbcEncryptStep blockSize (fun block _ ↦ answering encrypt block)
          (previous, before) block) = some (.error (.blockOperation error)) :=
        answer_bind_of_error hcall
      rw [answer_bind_of_error hstep]
      rfl
    | ok output =>
      rw [houtput] at hcall
      have hlength := hencrypt _ _ hmixed houtput
      have hstep : answer (cbcEncryptStep blockSize (fun block _ ↦ answering encrypt block)
          (previous, before) block) = some (.ok (output, before ++ output)) := by
        unfold cbcEncryptStep
        dsimp only
        rw [answer_bind_of_ok hcall, copyInto_all (hlength.trans hprevious.symm),
          orPanic_some_bind, answer_pure]
      rw [answer_bind_of_ok hstep, ih hblocks.2 hlength]
      change _ = some (Except.mapError _ (Except.map _ (cbcBlocks encrypt output blocks >>=
        fun outputs ↦ .ok (output :: outputs))))
      cases cbcBlocks encrypt output blocks with
      | error error => rfl
      | ok outputs =>
        change some (Except.ok (outputs.getLastD output, before ++ output ++ outputs.flatten)) =
          some (Except.ok ((output :: outputs).getLastD previous,
            before ++ (output :: outputs).flatten))
        rw [List.getLastD_cons, List.flatten_cons, List.append_assoc]

/-- `cbc_with` encrypts the blocks of its input in CBC. -/
theorem answer_cbcWith_true {blockSize : ℕ} (hsize : 0 < blockSize)
    (hencrypt : ∀ block output, block.length = blockSize → encrypt block = .ok output →
      output.length = blockSize) {iv input : ByteString} (hiv : iv.length = blockSize)
    (hinput : blockSize ∣ input.length) :
    answer (cbcWith blockSize iv input true fun block _ ↦ answering encrypt block) =
      some (((cbcBlocks encrypt iv (chunksExact blockSize input)).map List.flatten).mapError
        .blockOperation) := by
  have hblocks : ∀ block ∈ chunksExact blockSize input, block.length = blockSize :=
    fun block hblock ↦ length_of_mem_chunksExact hblock
  have hloop := answer_cbcEncryptSteps hencrypt hblocks hiv []
  unfold cbcWith
  rw [if_neg hsize.ne', if_neg (not_not.mpr hiv), if_neg (not_not.mpr hinput), if_pos rfl]
  cases houtputs : cbcBlocks encrypt iv (chunksExact blockSize input) with
  | error error =>
    rw [houtputs] at hloop
    exact answer_bind_of_error hloop
  | ok outputs =>
    rw [houtputs] at hloop
    exact answer_bind_of_ok hloop

end

/-! ### The counter -/

variable {counterBits : ℕ}

/-- The mask selects the remainder. -/
theorem toNat_and_counterMask (hbits : counterBits ≤ 128) (word : BitVec 128) :
    (word &&& counterMask counterBits).toNat = word.toNat % 2 ^ counterBits := by
  have hmask : (counterMask counterBits).toNat = 2 ^ counterBits - 1 := by
    unfold counterMask
    split_ifs with hall
    · rw [hall, BitVec.toNat_allOnes]
    · have hlt : 2 ^ counterBits < 2 ^ 128 := Nat.pow_lt_pow_right (by omega) (by omega)
      have hpositive : 0 < 2 ^ counterBits := by positivity
      have hone : (1#128).toNat = 1 := rfl
      have hshift : (1#128 <<< counterBits).toNat = 2 ^ counterBits := by
        rw [BitVec.toNat_shiftLeft, hone, Nat.shiftLeft_eq, one_mul, Nat.mod_eq_of_lt hlt]
      have hle : 1#128 ≤ 1#128 <<< counterBits := by
        rw [BitVec.le_def, hshift, hone]
        exact hpositive
      rw [BitVec.toNat_sub_of_le hle, hshift]
      rfl
  rw [BitVec.toNat_and, hmask, Nat.and_two_pow_sub_one_eq_mod]

/-- The counter bits count up from the initial ones, and wrap. -/
theorem toNat_add_and_counterMask (hbits : counterBits ≤ 128) (initial : BitVec 128)
    (offset : ℕ) :
    (((initial &&& counterMask counterBits) + BitVec.ofNat 128 offset) &&&
      counterMask counterBits).toNat = (initial.toNat + offset) % 2 ^ counterBits := by
  have hdvd : 2 ^ counterBits ∣ 2 ^ 128 := Nat.pow_dvd_pow 2 hbits
  rw [toNat_and_counterMask hbits, BitVec.toNat_add, toNat_and_counterMask hbits,
    BitVec.toNat_ofNat, Nat.mod_mod_of_dvd _ hdvd, Nat.add_mod, Nat.mod_mod,
    Nat.mod_mod_of_dvd _ hdvd, ← Nat.add_mod]

/-- The bits above the mask and the bits under it make up the word. -/
theorem toNat_and_not_counterMask (hbits : counterBits ≤ 128) (word : BitVec 128) :
    (word &&& ~~~counterMask counterBits).toNat =
      word.toNat / 2 ^ counterBits * 2 ^ counterBits := by
  have hdisjoint : (word &&& ~~~counterMask counterBits) &&& (word &&& counterMask counterBits) =
      0#128 := by
    ext index hindex
    simp only [BitVec.getElem_and, BitVec.getElem_not, BitVec.getElem_zero]
    cases (counterMask counterBits)[index] <;> simp
  have hword : (word &&& ~~~counterMask counterBits) ||| (word &&& counterMask counterBits) =
      word := by
    ext index hindex
    simp only [BitVec.getElem_and, BitVec.getElem_or, BitVec.getElem_not]
    cases (counterMask counterBits)[index] <;> simp
  have hsum := BitVec.toNat_add_of_and_eq_zero hdisjoint
  rw [BitVec.add_eq_or_of_and_eq_zero _ _ hdisjoint, hword,
    toNat_and_counterMask hbits] at hsum
  have hdivision := Nat.div_add_mod' word.toNat (2 ^ counterBits)
  omega

/-- The counter of an offset: the bits above the counter bits stay. -/
theorem toNat_ctrCounter (hbits : counterBits ≤ 128) (initial : BitVec 128) (offset : ℕ) :
    (ctrCounter counterBits initial offset).toNat =
      initial.toNat / 2 ^ counterBits * 2 ^ counterBits +
        (initial.toNat + offset) % 2 ^ counterBits := by
  have hdisjoint : (initial &&& ~~~counterMask counterBits) &&&
      (((initial &&& counterMask counterBits) + BitVec.ofNat 128 offset) &&&
        counterMask counterBits) = 0#128 := by
    ext index hindex
    simp only [BitVec.getElem_and, BitVec.getElem_not, BitVec.getElem_zero]
    cases (counterMask counterBits)[index] <;> simp
  unfold ctrCounter
  dsimp only
  rw [← BitVec.add_eq_or_of_and_eq_zero _ _ hdisjoint,
    BitVec.toNat_add_of_and_eq_zero hdisjoint, toNat_and_not_counterMask hbits,
    toNat_add_and_counterMask hbits]

theorem toNat_ctrCounter_mod (hbits : counterBits ≤ 128) (initial : BitVec 128) (offset : ℕ) :
    (ctrCounter counterBits initial offset).toNat % 2 ^ counterBits =
      (initial.toNat + offset) % 2 ^ counterBits := by
  rw [toNat_ctrCounter hbits, Nat.mul_add_mod_self_right, Nat.mod_mod]

/-- The counter depends on the remainder of the offset only. -/
theorem ctrCounter_congr (hbits : counterBits ≤ 128) (initial : BitVec 128) {left right : ℕ}
    (hoffset : left % 2 ^ counterBits = right % 2 ^ counterBits) :
    ctrCounter counterBits initial left = ctrCounter counterBits initial right := by
  apply BitVec.eq_of_toNat_eq
  rw [toNat_ctrCounter hbits, toNat_ctrCounter hbits, Nat.add_mod, hoffset, ← Nat.add_mod]

/-! ### The counter blocks -/

/-- The counter block of an offset. -/
def ctrBlock (counterBits : ℕ) (counterBlock : ByteString) (offset : ℕ) : ByteString :=
  toBeBytes counterBlock.length
    (ctrCounter counterBits (BitVec.ofNat 128 (fromBeBytes counterBlock)) offset).toNat

/-- The counter blocks of the offsets, one after the other. -/
def ctrBlocks (counterBits : ℕ) (counterBlock : ByteString) (blockCount : ℕ) : List ByteString :=
  (List.range blockCount).map (ctrBlock counterBits counterBlock)

theorem length_ctrBlocks {counterBlock : ByteString} (blockCount : ℕ) :
    ∀ block ∈ ctrBlocks counterBits counterBlock blockCount,
      block.length = counterBlock.length := by
  intro block hmem
  obtain ⟨offset, -, rfl⟩ := List.mem_map.mp hmem
  rw [ctrBlock, length_toBeBytes]

/-- The counter blocks are computed without a panic. -/
theorem ctrCounterBlocks_eq_some {counterBlock : ByteString} (hlength : counterBlock.length ≤ 16)
    (blockCount : ℕ) :
    ctrCounterBlocks counterBits counterBlock blockCount =
      some (ctrBlocks counterBits counterBlock blockCount).flatten := by
  have hpadded : copyInto (List.replicate 16 0) (16 - counterBlock.length) 16 counterBlock =
      some (List.replicate (16 - counterBlock.length) 0 ++ counterBlock) := by
    have hzeros : (List.replicate 16 (0 : UInt8)).length = 16 := List.length_replicate
    rw [copyInto_eq_some (Nat.sub_le _ _) hzeros.ge (Nat.sub_sub_self hlength).symm, writeSlice,
      Nat.sub_add_cancel hlength, List.take_replicate, Nat.min_eq_left (Nat.sub_le _ _),
      List.drop_eq_nil_of_le hzeros.le, List.append_nil]
  unfold ctrCounterBlocks
  dsimp only
  rw [subtract_eq_some hlength, Option.bind_eq_bind, Option.bind_some, hpadded,
    Option.bind_eq_bind, Option.bind_some, fromBeBytes_replicate_zero_append]
  apply foldlM_append_eq_some (ctrBlock counterBits counterBlock)
  intro offset _
  rw [sliceFrom_eq_some (by rw [length_toBeBytes]; omega), drop_toBeBytes hlength, ctrBlock]

/-- The blocks of the concatenation are the counter blocks. -/
theorem chunks_flatten_ctrBlocks {counterBlock : ByteString} (hne : counterBlock ≠ [])
    (blockCount : ℕ) :
    chunks counterBlock.length (ctrBlocks counterBits counterBlock blockCount).flatten =
      ctrBlocks counterBits counterBlock blockCount :=
  chunks_flatten (List.length_pos_iff.mpr hne) (length_ctrBlocks blockCount)

/-- Counter blocks are equal exactly when their offsets differ by whole periods. -/
theorem ctrBlock_eq_iff {counterBlock : ByteString} (hlength : counterBlock.length ≤ 16)
    (hbits : counterBits ≤ counterBlock.length * 8) {left right : ℕ} :
    ctrBlock counterBits counterBlock left = ctrBlock counterBits counterBlock right ↔
      left % 2 ^ counterBits = right % 2 ^ counterBits := by
  have hword : counterBits ≤ 128 := by omega
  constructor
  · intro hblocks
    have hvalues := congrArg fromBeBytes hblocks
    rw [ctrBlock, ctrBlock, fromBeBytes_toBeBytes, fromBeBytes_toBeBytes] at hvalues
    have hdvd : 2 ^ counterBits ∣ 256 ^ counterBlock.length := by
      rw [show (256 : ℕ) = 2 ^ 8 by rfl, ← pow_mul, mul_comm 8]
      exact Nat.pow_dvd_pow 2 hbits
    have hremainders : _ % 2 ^ counterBits = _ % 2 ^ counterBits :=
      congrArg (fun value ↦ value % 2 ^ counterBits) hvalues
    rw [Nat.mod_mod_of_dvd _ hdvd, Nat.mod_mod_of_dvd _ hdvd, toNat_ctrCounter_mod hword,
      toNat_ctrCounter_mod hword] at hremainders
    exact Nat.ModEq.add_left_cancel' _ hremainders
  · intro hoffset
    rw [ctrBlock, ctrCounter_congr hword _ hoffset, ctrBlock]

/-- The counter blocks are distinct exactly when they are at most one period. -/
theorem nodup_ctrBlocks_iff {counterBlock : ByteString} (hlength : counterBlock.length ≤ 16)
    (hbits : counterBits ≤ counterBlock.length * 8) {blockCount : ℕ} :
    (ctrBlocks counterBits counterBlock blockCount).Nodup ↔ blockCount ≤ 2 ^ counterBits := by
  constructor
  · intro hnodup
    by_contra hlong
    rw [not_le] at hlong
    have hinjective := List.inj_on_of_nodup_map hnodup
    have hrepeat : 2 ^ counterBits = 0 := by
      refine hinjective (List.mem_range.mpr hlong) (List.mem_range.mpr (Nat.zero_lt_of_lt hlong)) ?_
      rw [ctrBlock_eq_iff hlength hbits, Nat.mod_self, Nat.zero_mod]
    exact absurd hrepeat (by positivity)
  · intro hshort
    refine List.Nodup.map_on ?_ List.nodup_range
    intro left hleft right hright hblocks
    rw [ctrBlock_eq_iff hlength hbits, Nat.mod_eq_of_lt, Nat.mod_eq_of_lt] at hblocks
    · exact hblocks
    · exact (List.mem_range.mp hright).trans_le hshort
    · exact (List.mem_range.mp hleft).trans_le hshort

/-! ### Keystream reuse -/

/-- The arguments that `ctr_with` accepts. -/
structure CtrAccepts (counterBits : ℕ) (counterBlock input : ByteString) : Prop where
  counterBlock_ne_nil : counterBlock ≠ []
  length_counterBlock_le : counterBlock.length ≤ 16
  one_le_counterBits : 1 ≤ counterBits
  counterBits_le : counterBits ≤ counterBlock.length * 8
  capacity_lt : input.length ⌈/⌉ counterBlock.length * counterBlock.length < 2 ^ 64

/-- Whatever the block encryptor does: the counter blocks that it is handed are distinct, and an
input that needs more of them than the counter has values is refused before any call. -/
def NeverReusesKeystream (counterBits : ℕ) (counterBlock input : ByteString) : Prop :=
  ∀ (σ ε : Type) (callback : ByteString → StateM σ (Except ε ByteString)) (state : σ),
    ∃ result calls,
      runObserved (ctrWith counterBits counterBlock input (observed callback)) state =
          some (result, calls) ∧
        (∀ call ∈ calls, (chunks counterBlock.length call.query).Nodup) ∧
        (2 ^ counterBits < input.length ⌈/⌉ counterBlock.length →
          calls = [] ∧ ∃ error, result = .error error)

section

variable {m : Type → Type} [Monad m] [CanPanic m] {ε : Type} {counterBlock input : ByteString}

/-- On accepted arguments `ctr_with` is one call for the whole key stream. -/
theorem ctrWith_of_accepts [LawfulMonad m] (haccepts : CtrAccepts counterBits counterBlock input)
    (encryptBlocks : ByteString → m (Except ε ByteString)) :
    ctrWith counterBits counterBlock input encryptBlocks =
      let counterBlocks := (ctrBlocks counterBits counterBlock
        (input.length ⌈/⌉ counterBlock.length)).flatten
      checkedCall .blockOperation .invalidBlockOutput counterBlocks.length
        (encryptBlocks counterBlocks) >>= fun keyStream ↦ pure (xorBytes input keyStream) := by
  have hblock : ¬ (counterBlock = [] ∨ 16 < counterBlock.length) := by
    rintro (hempty | hlong)
    · exact haccepts.counterBlock_ne_nil hempty
    · exact absurd haccepts.length_counterBlock_le (not_le.mpr hlong)
  unfold ctrWith
  dsimp only
  rw [if_neg hblock, if_neg (not_not.mpr ⟨haccepts.one_le_counterBits, haccepts.counterBits_le⟩),
    checkedMul_eq_some_iff.mpr ⟨haccepts.capacity_lt, rfl⟩]
  dsimp only
  rw [ctrCounterBlocks_eq_some haccepts.length_counterBlock_le, orPanic_some_bind]

/-- Other arguments `ctr_with` refuses without a call. -/
theorem exists_ctrWith_eq_throw (hrefuses : ¬ CtrAccepts counterBits counterBlock input)
    (encryptBlocks : ByteString → m (Except ε ByteString)) :
    ∃ error, ctrWith counterBits counterBlock input encryptBlocks = throw error := by
  unfold ctrWith
  dsimp only
  by_cases hblock : counterBlock = [] ∨ 16 < counterBlock.length
  · exact ⟨_, if_pos hblock⟩
  · rw [if_neg hblock]
    by_cases hbits : 1 ≤ counterBits ∧ counterBits ≤ counterBlock.length * 8
    · rw [if_neg (not_not.mpr hbits)]
      rw [not_or, not_lt] at hblock
      have hcapacity : checkedMul (input.length ⌈/⌉ counterBlock.length) counterBlock.length =
          none := by
        refine if_neg fun hlt ↦ hrefuses ⟨hblock.1, hblock.2, hbits.1, hbits.2, hlt⟩
      rw [hcapacity]
      exact ⟨_, rfl⟩
    · exact ⟨_, if_pos hbits⟩

end

/-- On accepted arguments `ctr_with` hands the counter blocks to the encryptor. -/
theorem exists_runObserved_ctrWith {σ ε : Type} {counterBlock input : ByteString}
    (haccepts : CtrAccepts counterBits counterBlock input)
    (callback : ByteString → StateM σ (Except ε ByteString)) (state : σ) :
    ∃ result answer,
      runObserved (ctrWith counterBits counterBlock input (observed callback)) state =
        some (result, [⟨(ctrBlocks counterBits counterBlock
          (input.length ⌈/⌉ counterBlock.length)).flatten, answer⟩]) := by
  let query := (ctrBlocks counterBits counterBlock
    (input.length ⌈/⌉ counterBlock.length)).flatten
  obtain ⟨result, state', hcall⟩ := exists_run_checkedCall .blockOperation
    BlockCipherModeError.invalidBlockOutput callback query query.length state []
  obtain ⟨result', hrun⟩ := exists_run_bind_pure hcall (xorBytes input)
  refine ⟨result', (callback query state).1, ?_⟩
  rw [ctrWith_of_accepts haccepts, runObserved, hrun]
  rfl

/-- An input with more blocks than the counter has values is not refused. -/
theorem blockCount_le_of_neverReusesKeystream {counterBlock input : ByteString}
    (hnever : NeverReusesKeystream counterBits counterBlock input)
    (haccepts : CtrAccepts counterBits counterBlock input) :
    input.length ⌈/⌉ counterBlock.length ≤ 2 ^ counterBits := by
  let callback : ByteString → StateM Unit (Except Unit ByteString) :=
    fun _ state ↦ (.error (), state)
  by_contra hlong
  obtain ⟨result, calls, hrun, -, hrefused⟩ := hnever Unit Unit callback ()
  obtain ⟨result', answer, hrun'⟩ := exists_runObserved_ctrWith haccepts callback ()
  rw [(hrefused (not_le.mp hlong)).1, hrun'] at hrun
  cases hrun

/-- With a value of the counter for every block the blocks are distinct. -/
theorem neverReusesKeystream_of_blockCount_le {counterBlock input : ByteString}
    (hshort : CtrAccepts counterBits counterBlock input →
      input.length ⌈/⌉ counterBlock.length ≤ 2 ^ counterBits) :
    NeverReusesKeystream counterBits counterBlock input := by
  intro σ ε callback state
  by_cases haccepts : CtrAccepts counterBits counterBlock input
  · obtain ⟨result, answer, hrun⟩ := exists_runObserved_ctrWith haccepts callback state
    refine ⟨result, _, hrun, ?_, ?_⟩
    · intro call hmem
      rw [List.mem_singleton.mp hmem, chunks_flatten_ctrBlocks haccepts.counterBlock_ne_nil,
        nodup_ctrBlocks_iff haccepts.length_counterBlock_le haccepts.counterBits_le]
      exact hshort haccepts
    · exact fun hlong ↦ absurd (hshort haccepts) (not_le.mpr hlong)
  · obtain ⟨error, herror⟩ := exists_ctrWith_eq_throw haccepts (observed callback)
    refine ⟨.error error, [], ?_, ?_, ?_⟩
    · rw [herror]
      rfl
    · intro call hmem
      exact absurd hmem List.not_mem_nil
    · exact fun _ ↦ ⟨rfl, error, rfl⟩

/-- CTR uses no counter block twice exactly when the counter has a value for every block of the
accepted input.

The counter blocks are those that the callback receives, whatever it answers. No bound on the
input or on the width of the counter is assumed. -/
theorem neverReusesKeystream_iff (counterBits : ℕ) (counterBlock input : ByteString) :
    NeverReusesKeystream counterBits counterBlock input ↔
      (CtrAccepts counterBits counterBlock input →
        input.length ⌈/⌉ counterBlock.length ≤ 2 ^ counterBits) :=
  ⟨blockCount_le_of_neverReusesKeystream, neverReusesKeystream_of_blockCount_le⟩

/-- A counter of one bit serves two blocks, and the third block of this input is masked like the
first. -/
theorem not_neverReusesKeystream : ¬ NeverReusesKeystream 1 [0] [0x61, 0x62, 0x63] := by
  intro hnever
  have haccepts : CtrAccepts 1 [0] [0x61, 0x62, 0x63] :=
    ⟨by decide, by decide, by decide, by decide, by decide⟩
  exact absurd (blockCount_le_of_neverReusesKeystream hnever haccepts) (by decide)

end SoftwareKeyCore.SoftwareSymmetric
