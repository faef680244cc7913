import SoftwareKeyCore.SoftwareSymmetric.BlockCipherModes

/-!
# CMAC over a block operation, and over one CBC operation

`software_symmetric.rs`, `cmac_with` and `cmac_with_cbc`, with `cmac_double` and
`cmac_last_subkey`. `cmac_with` encrypts the message block by block; `cmac_with_cbc` prepares the
whole message and hands it to one CBC operation.

Both are about the same padded message (`paddedData`): `cmacInput_eq_some` is what the two-call
construction hands to the CBC operation, `cmacBlock_eq_some` the block that the other one
encrypts in a turn of its loop, and `chunksExact_preparedData` that these blocks are the parts of
that input. `cmacWithCbc_eq_cmacWith` concludes that the two give the same result on every message.
-/

set_option autoImplicit false
set_option relaxedAutoImplicit false

namespace SoftwareKeyCore.Cmac

open ByteString CallbackSession CheckedSlice Panicking SoftwareSymmetric

/-- The body of the loop of `cmac_double`. -/
def cmacShift (block : ByteString) (index : ℕ) : Option ByteString := do
  let byte ← block[index]?
  let next ← block[index + 1]?
  setByte block index ((byte <<< 1) ||| (next >>> 7))

/-- `cmac_double`. -/
def cmacDouble (block : ByteString) : Option ByteString := do
  let first ← block[0]?
  let carry := first >>> 7
  let last ← subtract block.length 1
  let block ← (List.range last).foldlM cmacShift block
  let block ← modifyByte block last (· <<< 1)
  let reduction : UInt8 := if block.length = 8 then 0x1b else 0x87
  modifyByte block last (· ^^^ (reduction &&& (0 - carry)))

/-- The padding bit after a message that is not made of whole blocks. -/
def markEnd (complete : Bool) (bytes : ByteString) (index : ℕ) : Option ByteString :=
  if complete then some bytes else setByte bytes index 0x80

/-- The message of `cmac_with_cbc`, padded and with the subkey in its last block. -/
def cmacInput (blockSize : ℕ) (data lastSubkey : ByteString) (complete : Bool)
    (paddedLength : ℕ) : Option ByteString := do
  let input ← copyInto (List.replicate paddedLength 0) 0 data.length data
  let input ← markEnd complete input data.length
  let start ← subtract paddedLength blockSize
  let tail ← sliceFrom input start
  copyInto input start paddedLength (xorInPlace tail lastSubkey)

/-- The block that a turn of the loop of `cmac_with` encrypts. -/
def cmacBlock (blockSize : ℕ) (data lastSubkey : ByteString) (complete : Bool) (blockCount : ℕ)
    (state : ByteString) (blockIndex : ℕ) : Option ByteString := do
  let start := blockIndex * blockSize
  let available := min (data.length - start) blockSize
  let content ← sliceRange data start (start + available)
  let block ← copyInto (List.replicate blockSize 0) 0 available content
  let block ← (if blockIndex + 1 = blockCount then
      (markEnd complete block available).map fun block ↦ xorInPlace block lastSubkey
    else some block)
  some (xorInPlace block state)

/-- `SoftwareSymmetricError`. -/
inductive SoftwareSymmetricError
  | invalidKeyLength
  | invalidDataLength
  | invalidIvLength
  | authenticationFailed
  deriving DecidableEq, Repr

/-- The CMAC of the library, over AES with the key sizes that it has: a block for every key and
input. -/
abbrev AesCmac := ByteString → ByteString → List.Vector UInt8 aesBlockSize

/-- `aes_cmac`. -/
def aesCmac (cmac : AesCmac) (key data : ByteString) :
    Except SoftwareSymmetricError (List.Vector UInt8 aesBlockSize) :=
  if key.length = 16 ∨ key.length = 24 ∨ key.length = 32 then .ok (cmac key data)
  else .error .invalidKeyLength

section Constructions

variable {m : Type → Type} [Monad m] [CanPanic m] {ε : Type}

/-- `cmac_last_subkey`: the subkey for the last block, and whether the message is made of whole
blocks. -/
def cmacLastSubkey (blockSize : ℕ) (data : ByteString)
    (encryptBlocks : ByteString → m (Except ε ByteString)) :
    ExceptT (BlockCipherModeError ε) m (ByteString × Bool) :=
  if ¬ (blockSize = 8 ∨ blockSize = 16) then throw .invalidBlockSize
  else do
    let encryptedZero ← checkedCall .blockOperation .invalidBlockOutput blockSize
      (encryptBlocks (List.replicate blockSize 0))
    let subkey ← orPanic (cmacDouble encryptedZero)
    let complete : Bool := data ≠ [] ∧ blockSize ∣ data.length
    let lastSubkey ← orPanic (if complete then some subkey else cmacDouble subkey)
    pure (lastSubkey, complete)

/-- `cmac_with_cbc`. -/
def cmacWithCbc (blockSize : ℕ) (data : ByteString)
    (encryptBlock encryptCbc : ByteString → m (Except ε ByteString)) :
    ExceptT (BlockCipherModeError ε) m ByteString := do
  let (lastSubkey, complete) ← cmacLastSubkey blockSize data encryptBlock
  let padding ← orPanic
    (if complete then some 0 else subtract blockSize (data.length % blockSize))
  match checkedAdd data.length padding with
  | none => throw .inputTooLong
  | some paddedLength => do
    let input ← orPanic (cmacInput blockSize data lastSubkey complete paddedLength)
    let ciphertext ← checkedCall .blockOperation .invalidBlockOutput paddedLength
      (encryptCbc input)
    orPanic do
      let start ← subtract paddedLength blockSize
      sliceFrom ciphertext start

/-- `cmac_with`. -/
def cmacWith (blockSize : ℕ) (data : ByteString)
    (encryptBlocks : ByteString → m (Except ε ByteString)) :
    ExceptT (BlockCipherModeError ε) m ByteString := do
  let (lastSubkey, complete) ← cmacLastSubkey blockSize data encryptBlocks
  let blockCount := max 1 (data.length ⌈/⌉ blockSize)
  (List.range blockCount).foldlM (fun state blockIndex ↦ do
    let block ← orPanic
      (cmacBlock blockSize data lastSubkey complete blockCount state blockIndex)
    checkedCall .blockOperation .invalidBlockOutput blockSize (encryptBlocks block))
    (List.replicate blockSize 0)

end Constructions

/-! ### The subkeys -/

theorem exists_cmacShift {block : ByteString} {index : ℕ} (hindex : index + 1 < block.length) :
    ∃ shifted, cmacShift block index = some shifted ∧ shifted.length = block.length := by
  have hbyte : index < block.length := by omega
  refine ⟨block.set index ((block[index] <<< 1) ||| (block[index + 1] >>> 7)), ?_, ?_⟩
  · rw [cmacShift, List.getElem?_eq_getElem hbyte, List.getElem?_eq_getElem hindex,
      Option.bind_eq_bind, Option.bind_some, Option.bind_some, setByte_eq_some hbyte]
  · rw [List.length_set]

/-- What a shift of the bits of a block keeps, after any number of steps. -/
def ShiftState (length _count : ℕ) (state : ByteString) : Prop :=
  state.length = length

/-- A block is doubled without a panic. -/
theorem exists_cmacDouble {block : ByteString} (hne : block ≠ []) :
    ∃ doubled, cmacDouble block = some doubled ∧ doubled.length = block.length := by
  have hpositive := List.length_pos_iff.mpr hne
  have hstep : ∀ index ∈ List.range (block.length - 1), ∀ count state,
      ShiftState block.length count state →
        ∃ next, cmacShift state index = some next ∧ ShiftState block.length (count + 1) next := by
    intro index hindex count state hstate
    rw [List.mem_range] at hindex
    rw [ShiftState] at hstate
    have hbound : index + 1 < state.length := by omega
    obtain ⟨next, hnext, hlength⟩ := exists_cmacShift hbound
    exact ⟨next, hnext, hlength.trans hstate⟩
  have hinitial : ShiftState block.length 0 block := rfl
  obtain ⟨shifted, hshifted, hlength⟩ :=
    exists_foldlM_eq_some (ShiftState block.length) hstep hinitial
  rw [ShiftState] at hlength
  have hlast : block.length - 1 < shifted.length := by omega
  unfold cmacDouble
  rw [List.getElem?_eq_getElem hpositive, Option.bind_eq_bind, Option.bind_some]
  dsimp only
  rw [subtract_eq_some (Nat.one_le_of_lt hpositive), Option.bind_eq_bind, Option.bind_some,
    hshifted, Option.bind_eq_bind, Option.bind_some, modifyByte_eq_some hlast, Option.bind_some,
    modifyByte_eq_some (by rw [List.length_modify]; exact hlast)]
  refine ⟨_, rfl, ?_⟩
  rw [List.length_modify, List.length_modify, hlength]

/-! ### The padded message -/

variable {blockSize blockCount : ℕ} {data lastSubkey state : ByteString} {complete : Bool}

/-- The message, with padding unless it is made of whole blocks. -/
def paddedData (blockSize : ℕ) (data : ByteString) (complete : Bool) : ByteString :=
  if complete then data
  else data ++ 0x80 :: List.replicate (blockSize - data.length % blockSize - 1) 0

/-- How the message of a CMAC is cut: it is covered by its blocks, the last of which is not
empty unless the message is, and it is made of whole blocks exactly when it is as long as they
are. -/
structure IsCut (blockSize : ℕ) (data : ByteString) (complete : Bool) (blockCount : ℕ) : Prop where
  blockSize_pos : 0 < blockSize
  blockCount_pos : 0 < blockCount
  start_le : (blockCount - 1) * blockSize ≤ data.length
  length_le : data.length ≤ blockCount * blockSize
  complete_iff : complete = true ↔ data.length = blockCount * blockSize

/-- The blocks that `cmac_with` counts cut the message. -/
theorem isCut_ceilDiv (hsize : 0 < blockSize) (data : ByteString) :
    IsCut blockSize data (decide (data ≠ [] ∧ blockSize ∣ data.length))
      (max 1 (data.length ⌈/⌉ blockSize)) := by
  by_cases hempty : data = []
  · rw [hempty, List.length_nil, zero_ceilDiv, max_eq_left (Nat.zero_le 1)]
    refine ⟨hsize, Nat.one_pos, by simp, Nat.zero_le _, ?_⟩
    rw [decide_eq_true_iff, one_mul]
    exact iff_of_false (fun h ↦ h.1 rfl) hsize.ne
  · have hpositive := List.length_pos_iff.mpr hempty
    have hcover := le_ceilDiv_mul hsize data.length
    have hcount : 0 < data.length ⌈/⌉ blockSize := by
      rw [Nat.pos_iff_ne_zero]
      intro hzero
      rw [hzero, zero_mul] at hcover
      omega
    have hquotient : data.length ⌈/⌉ blockSize * blockSize ≤ data.length + blockSize - 1 := by
      rw [Nat.ceilDiv_eq_add_pred_div]
      exact Nat.div_mul_le_self _ _
    rw [max_eq_right hcount]
    refine ⟨hsize, hcount, ?_, hcover, ?_⟩
    · rw [Nat.sub_one_mul]
      omega
    · rw [decide_eq_true_iff, and_iff_right hempty]
      constructor
      · intro hdvd
        obtain ⟨count, hlength⟩ := hdvd
        rw [hlength, mul_comm, mul_ceilDiv hsize]
      · intro hlength
        rw [hlength]
        exact Nat.dvd_mul_left _ _

/-- In a message that is not made of whole blocks, the last block is the remainder. -/
theorem IsCut.mod_eq (hcut : IsCut blockSize data false blockCount) :
    data.length % blockSize = data.length - (blockCount - 1) * blockSize ∧
      data.length - (blockCount - 1) * blockSize < blockSize := by
  have hstart := hcut.start_le
  have hlength := hcut.length_le
  have hincomplete : data.length ≠ blockCount * blockSize := by
    intro h
    exact Bool.false_ne_true (hcut.complete_iff.mpr h)
  obtain ⟨count, rfl⟩ := Nat.exists_eq_succ_of_ne_zero hcut.blockCount_pos.ne'
  rw [Nat.succ_sub_one] at hstart ⊢
  rw [Nat.succ_mul] at hlength hincomplete
  have hlt : data.length - count * blockSize < blockSize := by omega
  refine ⟨?_, hlt⟩
  have hsplit : data.length = data.length - count * blockSize + count * blockSize := by omega
  conv_lhs => rw [hsplit]
  rw [Nat.add_mul_mod_self_right, Nat.mod_eq_of_lt hlt]

/-- The padding that `cmac_with_cbc` computes fills the last block. -/
theorem IsCut.length_add_padding (hcut : IsCut blockSize data complete blockCount) :
    data.length + (if complete then 0 else blockSize - data.length % blockSize) =
      blockCount * blockSize := by
  cases complete with
  | true => exact hcut.complete_iff.mp rfl
  | false =>
    obtain ⟨hmod, hlt⟩ := hcut.mod_eq
    have hstart := hcut.start_le
    obtain ⟨count, rfl⟩ := Nat.exists_eq_succ_of_ne_zero hcut.blockCount_pos.ne'
    rw [if_neg Bool.false_ne_true, hmod, Nat.succ_mul]
    rw [Nat.succ_sub_one] at hlt hstart ⊢
    omega

/-- The padding is computed within bounds. -/
theorem padding_eq_some (hsize : 0 < blockSize) (complete : Bool) (data : ByteString) :
    (if complete then some 0 else subtract blockSize (data.length % blockSize)) =
      some (if complete then 0 else blockSize - data.length % blockSize) := by
  rw [subtract_eq_some (Nat.mod_lt _ hsize).le, apply_ite some]

/-- The padded message is made of whole blocks. -/
theorem IsCut.length_paddedData (hcut : IsCut blockSize data complete blockCount) :
    (paddedData blockSize data complete).length = blockCount * blockSize := by
  rw [← hcut.length_add_padding, paddedData]
  cases complete with
  | true => rfl
  | false =>
    have hremainder := Nat.mod_lt data.length hcut.blockSize_pos
    rw [if_neg Bool.false_ne_true, if_neg Bool.false_ne_true, List.length_append,
      List.length_cons, List.length_replicate]
    omega

/-- The prepared message: the padded message with the subkey in its last block. -/
def preparedData (blockSize : ℕ) (data lastSubkey : ByteString) (complete : Bool)
    (blockCount : ℕ) : ByteString :=
  let padded := paddedData blockSize data complete
  padded.take ((blockCount - 1) * blockSize) ++
    xorBytes (padded.drop ((blockCount - 1) * blockSize)) lastSubkey

theorem length_preparedData (hcut : IsCut blockSize data complete blockCount)
    (hsubkey : lastSubkey.length = blockSize) :
    (preparedData blockSize data lastSubkey complete blockCount).length =
      blockCount * blockSize := by
  have hpadded := hcut.length_paddedData
  have hstart : (blockCount - 1) * blockSize + blockSize = blockCount * blockSize := by
    rw [← Nat.succ_mul, Nat.succ_eq_add_one, Nat.sub_add_cancel hcut.blockCount_pos]
  rw [preparedData, List.length_append, List.length_take, length_xorBytes, List.length_drop,
    hpadded, hsubkey]
  omega

/-- The padding of a message that is not made of whole blocks. -/
theorem setByte_padding (data : ByteString) {count : ℕ} (hcount : 0 < count) :
    setByte (data ++ List.replicate count 0) data.length 0x80 =
      some (data ++ 0x80 :: List.replicate (count - 1) 0) := by
  obtain ⟨rest, rfl⟩ := Nat.exists_eq_succ_of_ne_zero hcount.ne'
  have hindex : data.length < (data ++ List.replicate (rest + 1) (0 : UInt8)).length := by
    rw [List.length_append, List.length_replicate]
    omega
  rw [setByte_eq_some hindex, List.set_append_right _ _ le_rfl, Nat.sub_self,
    List.replicate_succ, List.set_cons_zero, Nat.succ_sub_one]

/-- What `cmac_with_cbc` hands to the CBC operation is the prepared message. -/
theorem cmacInput_eq_some (hcut : IsCut blockSize data complete blockCount)
    (hsubkey : lastSubkey.length = blockSize) :
    cmacInput blockSize data lastSubkey complete (blockCount * blockSize) =
      some (preparedData blockSize data lastSubkey complete blockCount) := by
  have hlength := hcut.length_paddedData
  have hstart : (blockCount - 1) * blockSize = blockCount * blockSize - blockSize := by
    rw [Nat.sub_one_mul]
  have hsize : blockSize ≤ blockCount * blockSize := Nat.le_mul_of_pos_left _ hcut.blockCount_pos
  have hcopied : copyInto (List.replicate (blockCount * blockSize) 0) 0 data.length data =
      some (data ++ List.replicate (blockCount * blockSize - data.length) 0) := by
    rw [copyInto_zero (by rw [List.length_replicate]; exact hcut.length_le) rfl,
      List.drop_replicate]
  have hpadded : markEnd complete (data ++ List.replicate (blockCount * blockSize -
      data.length) 0) data.length = some (paddedData blockSize data complete) := by
    have hpadding := hcut.length_add_padding
    cases complete with
    | true =>
      rw [if_pos rfl, Nat.add_zero] at hpadding
      rw [markEnd, if_pos rfl, hpadding, Nat.sub_self, List.replicate_zero, List.append_nil]
      rfl
    | false =>
      have hremainder := Nat.mod_lt data.length hcut.blockSize_pos
      rw [if_neg Bool.false_ne_true] at hpadding
      rw [markEnd, if_neg Bool.false_ne_true, ← hpadding, Nat.add_sub_cancel_left,
        setByte_padding data (Nat.sub_pos_of_lt hremainder)]
      rfl
  have htail : ((paddedData blockSize data complete).drop
      ((blockCount - 1) * blockSize)).length = blockSize := by
    rw [List.length_drop, hlength, hstart]
    omega
  have hmasked : (xorBytes ((paddedData blockSize data complete).drop
      ((blockCount - 1) * blockSize)) lastSubkey).length = blockSize := by
    rw [length_xorBytes, htail, hsubkey, min_self]
  unfold cmacInput
  rw [hcopied, Option.bind_eq_bind, Option.bind_some, hpadded, Option.bind_some,
    subtract_eq_some hsize, ← hstart, Option.bind_eq_bind, Option.bind_some,
    sliceFrom_eq_some (by omega), Option.bind_some, xorInPlace_eq (hsubkey.trans htail.symm),
    ← hlength, copyInto_length (by omega) (by omega), preparedData]

/-! ### The blocks of the prepared message -/

/-- The start of the padded message is the start of the message. -/
theorem take_paddedData {stop : ℕ} (hstop : stop ≤ data.length) :
    (paddedData blockSize data complete).take stop = data.take stop := by
  cases complete with
  | true => rfl
  | false => rw [paddedData, if_neg Bool.false_ne_true, List.take_append_of_le_length hstop]

/-- A block of the prepared message, before the last one. -/
theorem slice_preparedData_of_lt (hcut : IsCut blockSize data complete blockCount) {blockIndex : ℕ}
    (hindex : blockIndex + 1 < blockCount) :
    slice (preparedData blockSize data lastSubkey complete blockCount) (blockIndex * blockSize)
        blockSize = slice data (blockIndex * blockSize) blockSize := by
  have hstart := hcut.start_le
  have hstop : blockIndex * blockSize + blockSize ≤ (blockCount - 1) * blockSize := by
    rw [← Nat.succ_mul]
    exact Nat.mul_le_mul_right _ (by omega)
  have hlength : (data.take ((blockCount - 1) * blockSize)).length =
      (blockCount - 1) * blockSize := List.length_take_of_le hstart
  rw [preparedData, take_paddedData hstart, slice_append_of_le (by omega), slice_take hstop]

/-- The last block of the prepared message. -/
theorem slice_preparedData_last (hcut : IsCut blockSize data complete blockCount)
    (hsubkey : lastSubkey.length = blockSize) :
    slice (preparedData blockSize data lastSubkey complete blockCount)
        ((blockCount - 1) * blockSize) blockSize =
      xorBytes ((paddedData blockSize data complete).drop ((blockCount - 1) * blockSize))
        lastSubkey := by
  have hstart := hcut.start_le
  have hlength : ((paddedData blockSize data complete).take
      ((blockCount - 1) * blockSize)).length = (blockCount - 1) * blockSize := by
    rw [take_paddedData hstart, List.length_take_of_le hstart]
  rw [preparedData, slice, List.drop_left' hlength]
  apply List.take_of_length_le
  rw [length_xorBytes, hsubkey]
  exact min_le_right _ _

/-- The last part of the message, padded, is the last block of the padded message. -/
theorem markEnd_drop (hcut : IsCut blockSize data complete blockCount) :
    markEnd complete (data.drop ((blockCount - 1) * blockSize) ++
        List.replicate (blockSize - (data.length - (blockCount - 1) * blockSize)) 0)
        (data.length - (blockCount - 1) * blockSize) =
      some ((paddedData blockSize data complete).drop ((blockCount - 1) * blockSize)) := by
  cases complete with
  | true =>
    have hlength := hcut.complete_iff.mp rfl
    have hlast : data.length - (blockCount - 1) * blockSize = blockSize := by
      rw [hlength, Nat.sub_one_mul, Nat.sub_sub_self]
      exact Nat.le_mul_of_pos_left _ hcut.blockCount_pos
    rw [hlast, Nat.sub_self, List.replicate_zero, List.append_nil]
    rfl
  | false =>
    obtain ⟨hmod, hlt⟩ := hcut.mod_eq
    have hmark := setByte_padding (data.drop ((blockCount - 1) * blockSize))
      (Nat.sub_pos_of_lt hlt)
    rw [List.length_drop] at hmark
    rw [markEnd, if_neg Bool.false_ne_true, hmark, paddedData, if_neg Bool.false_ne_true, hmod,
      List.drop_append_of_le_length hcut.start_le]

/-- The block that a turn of the loop of `cmac_with` encrypts is the block of the prepared
message, masked with the state. -/
theorem cmacBlock_eq_some (hcut : IsCut blockSize data complete blockCount)
    (hsubkey : lastSubkey.length = blockSize) (hstate : state.length = blockSize) {blockIndex : ℕ}
    (hindex : blockIndex < blockCount) :
    cmacBlock blockSize data lastSubkey complete blockCount state blockIndex =
      some (xorBytes (slice (preparedData blockSize data lastSubkey complete blockCount)
        (blockIndex * blockSize) blockSize) state) := by
  have hstart := hcut.start_le
  have hzeros : (List.replicate blockSize (0 : UInt8)).length = blockSize := List.length_replicate
  by_cases hlast : blockIndex + 1 = blockCount
  · obtain rfl : blockIndex = blockCount - 1 := by omega
    have hlength := hcut.length_le
    have havailable : min (data.length - (blockCount - 1) * blockSize) blockSize =
        data.length - (blockCount - 1) * blockSize := by
      rw [Nat.sub_one_mul]
      omega
    have hcontent : slice data ((blockCount - 1) * blockSize)
        (data.length - (blockCount - 1) * blockSize) =
          data.drop ((blockCount - 1) * blockSize) := by
      rw [slice, List.take_of_length_le (by rw [List.length_drop])]
    have hdrop : ((paddedData blockSize data complete).drop
        ((blockCount - 1) * blockSize)).length = blockSize := by
      rw [List.length_drop, hcut.length_paddedData, Nat.sub_one_mul, Nat.sub_sub_self]
      exact Nat.le_mul_of_pos_left _ hcut.blockCount_pos
    have hblock : (xorBytes ((paddedData blockSize data complete).drop
        ((blockCount - 1) * blockSize)) lastSubkey).length = blockSize := by
      rw [length_xorBytes, hdrop, hsubkey, min_self]
    unfold cmacBlock
    dsimp only
    rw [havailable, sliceRange_eq_some (Nat.le_add_right _ _) (by omega), Nat.add_sub_cancel_left,
      hcontent, Option.bind_eq_bind, Option.bind_some,
      copyInto_zero (by omega) (List.length_drop ..), List.drop_replicate, Option.bind_some,
      if_pos hlast, markEnd_drop hcut, Option.map_some, Option.bind_some,
      slice_preparedData_last hcut hsubkey, xorInPlace_eq (hsubkey.trans hdrop.symm),
      xorInPlace_eq (hstate.trans hblock.symm)]
  · have hstop : blockIndex * blockSize + blockSize ≤ (blockCount - 1) * blockSize := by
      rw [← Nat.succ_mul]
      exact Nat.mul_le_mul_right _ (by omega)
    have havailable : min (data.length - blockIndex * blockSize) blockSize = blockSize := by
      omega
    have hcontent : (slice data (blockIndex * blockSize) blockSize).length = blockSize := by
      rw [length_slice]
      omega
    unfold cmacBlock
    dsimp only
    rw [havailable, sliceRange_eq_some (Nat.le_add_right _ _) (by omega), Nat.add_sub_cancel_left,
      Option.bind_eq_bind, Option.bind_some, copyInto_zero hzeros.ge hcontent,
      List.drop_eq_nil_of_le hzeros.le, List.append_nil, Option.bind_some, if_neg hlast,
      Option.bind_some, slice_preparedData_of_lt hcut (by omega), xorInPlace_eq (by omega)]

/-- The block that a turn of the loop of `cmac_with` encrypts has the block size. -/
theorem length_preparedBlock (hcut : IsCut blockSize data complete blockCount)
    (hsubkey : lastSubkey.length = blockSize) (hstate : state.length = blockSize) {blockIndex : ℕ}
    (hindex : blockIndex < blockCount) :
    (xorBytes (slice (preparedData blockSize data lastSubkey complete blockCount)
      (blockIndex * blockSize) blockSize) state).length = blockSize := by
  have hstop : blockIndex * blockSize + blockSize ≤ blockCount * blockSize := by
    rw [← Nat.succ_mul]
    exact Nat.mul_le_mul_right _ hindex
  rw [length_xorBytes, length_slice, length_preparedData hcut hsubkey, hstate]
  omega

/-- The blocks that `cmac_with` encrypts are the parts of what `cmac_with_cbc` hands to the CBC
operation. -/
theorem chunksExact_preparedData (hcut : IsCut blockSize data complete blockCount)
    (hsubkey : lastSubkey.length = blockSize) :
    chunksExact blockSize (preparedData blockSize data lastSubkey complete blockCount) =
      (List.range blockCount).map fun blockIndex ↦
        slice (preparedData blockSize data lastSubkey complete blockCount)
          (blockIndex * blockSize) blockSize := by
  rw [chunksExact, length_preparedData hcut hsubkey, Nat.mul_div_cancel _ hcut.blockSize_pos]

/-! ### The two constructions agree -/

section

variable {ε : Type} {encrypt encryptCbc : ByteString → Except ε ByteString}

/-- A callback that is CBC over a block function, with an initialization vector of zeros. -/
def IsZeroIvCbc (blockSize : ℕ) (encrypt encryptCbc : ByteString → Except ε ByteString) : Prop :=
  ∀ input : ByteString, blockSize ∣ input.length →
    encryptCbc input = (cbcBlocks encrypt (List.replicate blockSize 0)
      (chunksExact blockSize input)).map List.flatten

/-- A callback that answers what `cbc_with` computes over a block function is such a callback. -/
theorem isZeroIvCbc_of_cbcWith (hsize : 0 < blockSize)
    (hencrypt : ∀ block output, block.length = blockSize → encrypt block = .ok output →
      output.length = blockSize)
    (hcbc : ∀ input : ByteString, blockSize ∣ input.length →
      answer (cbcWith blockSize (List.replicate blockSize 0) input true
        fun block _ ↦ answering encrypt block) =
          some ((encryptCbc input).mapError .blockOperation)) :
    IsZeroIvCbc blockSize encrypt encryptCbc := by
  intro input hinput
  have hresult := hcbc input hinput
  rw [answer_cbcWith_true hsize hencrypt List.length_replicate hinput, Option.some.injEq] at hresult
  have hinjective : ∀ left right : Except ε ByteString,
      left.mapError BlockCipherModeError.blockOperation = right.mapError .blockOperation →
        left = right := by
    intro left right hequal
    cases left <;> cases right <;> simp_all [Except.mapError]
  exact (hinjective _ _ hresult).symm

/-- The subkey is the double of the image of zero for whole blocks, and the double of that
otherwise. -/
theorem answer_cmacLastSubkey_of_ok (hsize : blockSize = 8 ∨ blockSize = 16) (data : ByteString)
    {encryptedZero subkey doubled : ByteString}
    (hzero : encrypt (List.replicate blockSize 0) = .ok encryptedZero)
    (hlength : encryptedZero.length = blockSize) (hsubkey : cmacDouble encryptedZero = some subkey)
    (hdoubled : cmacDouble subkey = some doubled) :
    answer (cmacLastSubkey blockSize data (answering encrypt)) =
      some (.ok (if data ≠ [] ∧ blockSize ∣ data.length then subkey else doubled,
        decide (data ≠ [] ∧ blockSize ∣ data.length))) := by
  have hcall : answer (checkedCall BlockCipherModeError.blockOperation .invalidBlockOutput blockSize
      (answering encrypt (List.replicate blockSize 0))) = some (.ok encryptedZero) :=
    answer_checkedCall_eq_ok_iff.mpr ⟨hzero, hlength⟩
  unfold cmacLastSubkey
  rw [if_neg (not_not.mpr hsize), answer_bind_of_ok hcall, hsubkey, orPanic_some_bind, hdoubled]
  dsimp only
  by_cases hcomplete : data ≠ [] ∧ blockSize ∣ data.length
  · rw [decide_eq_true hcomplete, if_pos rfl, orPanic_some_bind, answer_pure, if_pos hcomplete]
  · rw [decide_eq_false hcomplete, if_neg Bool.false_ne_true, orPanic_some_bind, answer_pure,
      if_neg hcomplete]

/-- The subkey is computed without a panic, has the block size, and comes with whether the
message is made of whole blocks. -/
theorem answer_cmacLastSubkey
    (hencrypt : ∀ block output, block.length = blockSize → encrypt block = .ok output →
      output.length = blockSize) (data : ByteString) :
    (∃ error, answer (cmacLastSubkey blockSize data (answering encrypt)) = some (.error error)) ∨
      ∃ lastSubkey, (blockSize = 8 ∨ blockSize = 16) ∧ lastSubkey.length = blockSize ∧
        answer (cmacLastSubkey blockSize data (answering encrypt)) =
          some (.ok (lastSubkey, decide (data ≠ [] ∧ blockSize ∣ data.length))) := by
  by_cases hsize : blockSize = 8 ∨ blockSize = 16
  · have hzeros : (List.replicate blockSize (0 : UInt8)).length = blockSize :=
      List.length_replicate
    cases hzero : encrypt (List.replicate blockSize 0) with
    | error error =>
      have hcall := answer_checkedCall_of_length BlockCipherModeError.blockOperation
        .invalidBlockOutput (fun output ↦ hencrypt _ output hzeros)
      rw [hzero] at hcall
      unfold cmacLastSubkey
      rw [if_neg (not_not.mpr hsize)]
      exact .inl ⟨_, answer_bind_of_error hcall⟩
    | ok encryptedZero =>
      have hlength := hencrypt _ _ hzeros hzero
      have hne : encryptedZero ≠ [] := by
        rw [← List.length_pos_iff]
        omega
      obtain ⟨subkey, hsubkey, hsubkeyLength⟩ := exists_cmacDouble hne
      have hsubkeyNe : subkey ≠ [] := by
        rw [← List.length_pos_iff]
        omega
      obtain ⟨doubled, hdoubled, hdoubledLength⟩ := exists_cmacDouble hsubkeyNe
      refine .inr ⟨_, hsize, ?_, answer_cmacLastSubkey_of_ok hsize data hzero hlength hsubkey
        hdoubled⟩
      split_ifs <;> omega
  · left
    unfold cmacLastSubkey
    rw [if_pos hsize]
    exact ⟨_, rfl⟩

/-- `cmac_with` chains the block function over the blocks of the prepared message. -/
theorem answer_cmacWith_loop
    (hencrypt : ∀ block output, block.length = blockSize → encrypt block = .ok output →
      output.length = blockSize) (hcut : IsCut blockSize data complete blockCount)
    (hsubkey : lastSubkey.length = blockSize) :
    answer ((List.range blockCount).foldlM (fun state blockIndex ↦ do
        let block ← orPanic
          (cmacBlock blockSize data lastSubkey complete blockCount state blockIndex)
        checkedCall BlockCipherModeError.blockOperation .invalidBlockOutput blockSize
          (answering encrypt block)) (List.replicate blockSize 0)) =
      some (((cbcBlocks encrypt (List.replicate blockSize 0) (chunksExact blockSize
        (preparedData blockSize data lastSubkey complete blockCount))).map fun outputs ↦
          outputs.getLastD (List.replicate blockSize 0)).mapError .blockOperation) := by
  have hzeros : (List.replicate blockSize (0 : UInt8)).length = blockSize := List.length_replicate
  rw [← foldlM_eq_cbcBlocks, chunksExact_preparedData hcut hsubkey, List.foldlM_map]
  refine (answer_foldlM BlockCipherModeError.blockOperation
    (fun state ↦ state.length = blockSize) ?_ hzeros).1
  intro blockIndex hindex state hstate
  rw [List.mem_range] at hindex
  have hblock := length_preparedBlock hcut hsubkey hstate hindex
  have houtput := fun output ↦ hencrypt _ output hblock
  rw [cmacBlock_eq_some hcut hsubkey hstate hindex, orPanic_some_bind]
  exact ⟨answer_checkedCall_of_length _ _ houtput, houtput⟩

/-- The last block of whole parts put together. -/
theorem drop_flatten_of_forall {outputs : List ByteString} (hne : outputs ≠ [])
    (houtputs : ∀ output ∈ outputs, output.length = blockSize) (previous : ByteString) :
    outputs.flatten.drop (outputs.length * blockSize - blockSize) = outputs.getLastD previous := by
  rcases List.eq_nil_or_concat outputs with hnil | ⟨init, last, rfl⟩
  · exact absurd hnil hne
  · rw [List.concat_eq_append] at houtputs ⊢
    have hinit : init.flatten.length = init.length * blockSize :=
      length_flatten_of_forall fun output hmem ↦ houtputs output (List.mem_append_left _ hmem)
    rw [List.getLastD_concat, List.flatten_append, List.flatten_singleton, List.length_append,
      List.length_singleton, Nat.succ_mul, Nat.add_sub_cancel, List.drop_left' hinit]

/-- `cmac_with_cbc` takes the last block of the ciphertext of the prepared message. -/
theorem answer_cmacWithCbc_tail
    (hencrypt : ∀ block output, block.length = blockSize → encrypt block = .ok output →
      output.length = blockSize) (hcbc : IsZeroIvCbc blockSize encrypt encryptCbc)
    (hcut : IsCut blockSize data complete blockCount) (hsubkey : lastSubkey.length = blockSize) :
    answer (do
        let input ← orPanic (cmacInput blockSize data lastSubkey complete (blockCount * blockSize))
        let ciphertext ← checkedCall BlockCipherModeError.blockOperation .invalidBlockOutput
          (blockCount * blockSize) (answering encryptCbc input)
        orPanic do
          let start ← subtract (blockCount * blockSize) blockSize
          sliceFrom ciphertext start) =
      some (((cbcBlocks encrypt (List.replicate blockSize 0) (chunksExact blockSize
        (preparedData blockSize data lastSubkey complete blockCount))).map fun outputs ↦
          outputs.getLastD (List.replicate blockSize 0)).mapError .blockOperation) := by
  have hzeros : (List.replicate blockSize (0 : UInt8)).length = blockSize := List.length_replicate
  have hlength := length_preparedData hcut hsubkey
  have hciphertext := hcbc (preparedData blockSize data lastSubkey complete blockCount)
    (by rw [hlength]; exact Nat.dvd_mul_left _ _)
  have hparts : (chunksExact blockSize
      (preparedData blockSize data lastSubkey complete blockCount)).length = blockCount := by
    rw [chunksExact_preparedData hcut hsubkey, List.length_map, List.length_range]
  have hblocks : ∀ {outputs}, cbcBlocks encrypt (List.replicate blockSize 0) (chunksExact blockSize
      (preparedData blockSize data lastSubkey complete blockCount)) = .ok outputs →
        outputs.length = blockCount ∧ ∀ output ∈ outputs, output.length = blockSize := by
    intro outputs houtputs
    rw [← hparts]
    exact length_cbcBlocks hencrypt (fun block hmem ↦ length_of_mem_chunksExact hmem) hzeros
      houtputs
  have hwhole : ∀ ciphertext, encryptCbc (preparedData blockSize data lastSubkey complete
      blockCount) = .ok ciphertext → ciphertext.length = blockCount * blockSize := by
    intro ciphertext hresult
    rw [hciphertext, FallibleResult.map_eq_ok_iff] at hresult
    obtain ⟨outputs, houtputs, rfl⟩ := hresult
    obtain ⟨hcount, hall⟩ := hblocks houtputs
    rw [length_flatten_of_forall hall, hcount]
  have hcall := answer_checkedCall_of_length BlockCipherModeError.blockOperation
    .invalidBlockOutput hwhole
  rw [cmacInput_eq_some hcut hsubkey, orPanic_some_bind]
  cases houtputs : cbcBlocks encrypt (List.replicate blockSize 0) (chunksExact blockSize
      (preparedData blockSize data lastSubkey complete blockCount)) with
  | error error =>
    rw [hciphertext, houtputs] at hcall
    exact answer_bind_of_error hcall
  | ok outputs =>
    obtain ⟨hcount, hall⟩ := hblocks houtputs
    have hne : outputs ≠ [] := by
      rw [← List.length_pos_iff, hcount]
      exact hcut.blockCount_pos
    have hflatten : outputs.flatten.length = blockCount * blockSize := by
      rw [length_flatten_of_forall hall, hcount]
    have hlast := drop_flatten_of_forall hne hall (List.replicate blockSize 0)
    rw [hciphertext, houtputs] at hcall
    rw [hcount] at hlast
    rw [answer_bind_of_ok hcall,
      subtract_eq_some (Nat.le_mul_of_pos_left _ hcut.blockCount_pos), Option.bind_eq_bind,
      Option.bind_some, sliceFrom_eq_some (by omega), hlast]
    rfl

/-- The two-call CMAC is the CMAC over the block operation: for every block size, every message
(a slice has fewer than `2 ^ 63` bytes) and every block function, which may fail, the two
constructions have the same result, and none of them panics.

Assumes that an answer of the block function has the length of a block, and that the second
operation is CBC encryption with it under a zero initialization vector (`IsZeroIvCbc`). -/
theorem cmacWithCbc_eq_cmacWith (hdata : data.length < 2 ^ 63)
    (hencrypt : ∀ block output, block.length = blockSize → encrypt block = .ok output →
      output.length = blockSize) (hcbc : IsZeroIvCbc blockSize encrypt encryptCbc) :
    ∃ result,
      answer (cmacWithCbc blockSize data (answering encrypt) (answering encryptCbc)) =
          some result ∧
        answer (cmacWith blockSize data (answering encrypt)) = some result := by
  unfold cmacWithCbc cmacWith
  obtain ⟨error, hsubkey⟩ | ⟨lastSubkey, hsize, hlength, hsubkey⟩ :=
    answer_cmacLastSubkey hencrypt data
  · exact ⟨.error error, answer_bind_of_error hsubkey, answer_bind_of_error hsubkey⟩
  · have hpositive : 0 < blockSize := by omega
    have hcut := isCut_ceilDiv hpositive data
    have hpadding := hcut.length_add_padding
    have hle : (if decide (data ≠ [] ∧ blockSize ∣ data.length) then 0
        else blockSize - data.length % blockSize) ≤ blockSize := by
      split_ifs
      · exact Nat.zero_le _
      · exact Nat.sub_le _ _
    have hsum := checkedAdd_eq_some_iff.mpr ⟨by omega, hpadding⟩
    rw [answer_bind_of_ok hsubkey, answer_bind_of_ok hsubkey]
    dsimp only
    rw [padding_eq_some hpositive, orPanic_some_bind, hsum]
    exact ⟨_, answer_cmacWithCbc_tail hencrypt hcbc hcut hlength,
      answer_cmacWith_loop hencrypt hcut hlength⟩

/-- The two-call CMAC of a message of one byte, over the block function that swaps the halves of
a block. -/
theorem cmacWithCbc_eq_cmacWith_swap :
    ∃ result,
      answer (cmacWithCbc 8 [0x61]
          (answering fun block ↦ (.ok (block.drop 4 ++ block.take 4) : Except Unit ByteString))
          (answering fun input ↦
            (cbcBlocks (fun block ↦ .ok (block.drop 4 ++ block.take 4)) (List.replicate 8 0)
              (chunksExact 8 input)).map List.flatten)) = some result ∧
        answer (cmacWith 8 [0x61]
          (answering fun block ↦ (.ok (block.drop 4 ++ block.take 4) : Except Unit ByteString))) =
            some result := by
  refine cmacWithCbc_eq_cmacWith (by decide) ?_ fun input _ ↦ rfl
  intro block output hblock houtput
  rw [← Except.ok.inj houtput, List.length_append, List.length_drop, List.length_take]
  omega

end

end SoftwareKeyCore.Cmac
