import SoftwareKeyCore.Foundation.BlockFunction
import SoftwareKeyCore.SoftwareSymmetric.BlockCipherModes

/-!
# CTR and CBC over block functions

`ctr_with` and `cbc_with` of `software_symmetric.rs` when the callback applies a block function to
every block of its input (`blockwise`).

CTR masks its input with the images of the counter blocks (`answer_ctrWith`), and the counter block
of an offset is the first one with its counter bits advanced (`ctrBlock_eq_advancedCounter`). An
input can therefore be cut after any block, where the second part starts from the advanced counter
block (`ctrWith_append_and_cancel`).

CBC calls the callback for every block when it encrypts and once for all blocks when it decrypts.
`answer_cbcWith_encrypt` and `answer_cbcWith_decrypt` say that the two loops compute the chaining
of the blocks and its inverse, over a pair of inverse block functions.
-/

set_option autoImplicit false
set_option relaxedAutoImplicit false

namespace SoftwareKeyCore.SoftwareSymmetric

open ByteString CallbackSession CheckedSlice Panicking

variable {ε : Type}

/-- A callback that always answers. -/
def blockwise (function : ByteString → ByteString) (input : ByteString) :
    Option (Except ε ByteString) :=
  answering (fun input ↦ .ok (function input)) input

/-! ### The advanced counter -/

section Ctr

variable {size counterBits : ℕ} {counterBlock : ByteString}

/-- The counter block with its low bits advanced modulo their number of values; the other bits
stay. -/
def advancedCounter (counterBits : ℕ) (counterBlock : ByteString) (count : ℕ) : ByteString :=
  toBeBytes counterBlock.length
    (fromBeBytes counterBlock / 2 ^ counterBits * 2 ^ counterBits +
      (fromBeBytes counterBlock + count) % 2 ^ counterBits)

@[simp] theorem length_advancedCounter (count : ℕ) :
    (advancedCounter counterBits counterBlock count).length = counterBlock.length :=
  length_toBeBytes _ _

theorem fromBeBytes_advancedCounter (hbits : counterBits ≤ 8 * counterBlock.length) (count : ℕ) :
    fromBeBytes (advancedCounter counterBits counterBlock count) =
      fromBeBytes counterBlock / 2 ^ counterBits * 2 ^ counterBits +
        (fromBeBytes counterBlock + count) % 2 ^ counterBits := by
  have hpositive : 0 < 2 ^ counterBits := by positivity
  obtain ⟨high, hhigh⟩ : 2 ^ counterBits ∣ 256 ^ counterBlock.length := by
    rw [show (256 : ℕ) = 2 ^ 8 by rfl, ← pow_mul]
    exact Nat.pow_dvd_pow 2 hbits
  have hquotient : fromBeBytes counterBlock / 2 ^ counterBits + 1 ≤ high := by
    rw [Nat.succ_le_iff, Nat.div_lt_iff_lt_mul hpositive, mul_comm, ← hhigh]
    exact fromBeBytes_lt counterBlock
  apply fromBeBytes_toBeBytes_of_lt
  calc fromBeBytes counterBlock / 2 ^ counterBits * 2 ^ counterBits +
        (fromBeBytes counterBlock + count) % 2 ^ counterBits
      < fromBeBytes counterBlock / 2 ^ counterBits * 2 ^ counterBits + 2 ^ counterBits :=
        Nat.add_lt_add_left (Nat.mod_lt _ hpositive) _
    _ = (fromBeBytes counterBlock / 2 ^ counterBits + 1) * 2 ^ counterBits :=
        (Nat.succ_mul _ _).symm
    _ ≤ high * 2 ^ counterBits := Nat.mul_le_mul_right _ hquotient
    _ = 256 ^ counterBlock.length := by rw [hhigh, mul_comm]

/-- Two advances are one. -/
theorem advancedCounter_advancedCounter (hbits : counterBits ≤ 8 * counterBlock.length)
    (count count' : ℕ) :
    advancedCounter counterBits (advancedCounter counterBits counterBlock count) count' =
      advancedCounter counterBits counterBlock (count + count') := by
  have hpositive : 0 < 2 ^ counterBits := by positivity
  have hhigh : (fromBeBytes counterBlock / 2 ^ counterBits * 2 ^ counterBits +
      (fromBeBytes counterBlock + count) % 2 ^ counterBits) / 2 ^ counterBits =
        fromBeBytes counterBlock / 2 ^ counterBits := by
    rw [mul_comm, Nat.mul_add_div hpositive, Nat.div_eq_of_lt (Nat.mod_lt _ hpositive), add_zero]
  have hlow : (fromBeBytes counterBlock / 2 ^ counterBits * 2 ^ counterBits +
      (fromBeBytes counterBlock + count) % 2 ^ counterBits + count') % 2 ^ counterBits =
        (fromBeBytes counterBlock + (count + count')) % 2 ^ counterBits := by
    rw [add_assoc, Nat.mul_add_mod_self_right, Nat.mod_add_mod, add_assoc]
  rw [advancedCounter, fromBeBytes_advancedCounter hbits, length_advancedCounter, hhigh, hlow,
    advancedCounter]

/-- The counter block of an offset is the advanced counter block. -/
theorem ctrBlock_eq_advancedCounter (hlength : counterBlock.length ≤ 16)
    (hbits : counterBits ≤ 8 * counterBlock.length) (offset : ℕ) :
    ctrBlock counterBits counterBlock offset = advancedCounter counterBits counterBlock offset := by
  have hword : fromBeBytes counterBlock < 2 ^ 128 := by
    calc fromBeBytes counterBlock < 256 ^ counterBlock.length := fromBeBytes_lt counterBlock
      _ ≤ 256 ^ 16 := Nat.pow_le_pow_right (by decide) hlength
      _ = 2 ^ 128 := by norm_num
  rw [ctrBlock, toNat_ctrCounter (by omega), BitVec.toNat_ofNat, Nat.mod_eq_of_lt hword,
    advancedCounter]

/-- The counter blocks after the first ones are those of the advanced counter block. -/
theorem ctrBlocks_add (hlength : counterBlock.length ≤ 16)
    (hbits : counterBits ≤ 8 * counterBlock.length) (count count' : ℕ) :
    ctrBlocks counterBits counterBlock (count + count') =
      ctrBlocks counterBits counterBlock count ++
        ctrBlocks counterBits (advancedCounter counterBits counterBlock count) count' := by
  rw [ctrBlocks, ctrBlocks, ctrBlocks, List.range_add, List.map_append, List.map_map]
  congr 1
  apply List.map_congr_left
  intro offset _
  rw [Function.comp_apply, ctrBlock_eq_advancedCounter hlength hbits,
    ctrBlock_eq_advancedCounter (by rwa [length_advancedCounter])
      (by rwa [length_advancedCounter]), advancedCounter_advancedCounter hbits]

/-! ### CTR -/

/-- An input of the length of a byte slice is accepted. -/
theorem ctrAccepts_of_lt (hsize : 1 ≤ size ∧ size ≤ 16) (hcounter : counterBlock.length = size)
    (hbits : 1 ≤ counterBits ∧ counterBits ≤ 8 * size) {input : ByteString}
    (hinput : input.length < 2 ^ 63) : CtrAccepts counterBits counterBlock input := by
  refine ⟨List.length_pos_iff.mp (by omega), by omega, hbits.1, by omega, ?_⟩
  rw [hcounter, Nat.ceilDiv_eq_add_pred_div]
  have hcover := Nat.div_mul_le_self (input.length + size - 1) size
  omega

/-- CTR masks its input with the images of the counter blocks. -/
theorem answer_ctrWith (function : BlockFunction size) (hcounter : counterBlock.length = size)
    {input : ByteString} (haccepts : CtrAccepts counterBits counterBlock input) :
    answer (ctrWith counterBits counterBlock input (blockwise (ε := ε) function.blocks)) =
      some (.ok (xorBytes input ((ctrBlocks counterBits counterBlock
        (input.length ⌈/⌉ size)).flatMap function.apply))) := by
  have hsize : 0 < size := hcounter ▸ List.length_pos_iff.mpr haccepts.counterBlock_ne_nil
  have hblocks : ∀ block ∈ ctrBlocks counterBits counterBlock (input.length ⌈/⌉ size),
      block.length = size := hcounter ▸ length_ctrBlocks _
  have hcall : answer (checkedCall BlockCipherModeError.blockOperation .invalidBlockOutput
      (ctrBlocks counterBits counterBlock (input.length ⌈/⌉ size)).flatten.length
      (blockwise (ε := ε) function.blocks
        (ctrBlocks counterBits counterBlock (input.length ⌈/⌉ size)).flatten)) =
      some (.ok ((ctrBlocks counterBits counterBlock
        (input.length ⌈/⌉ size)).flatMap function.apply)) := by
    refine answer_checkedCall_eq_ok_iff.mpr ⟨?_, ?_⟩
    · rw [function.blocks_flatten hsize hblocks]
    · rw [function.length_flatMap hblocks, length_flatten_of_forall hblocks]
  rw [ctrWith_of_accepts haccepts, hcounter]
  exact answer_bind_of_ok hcall

/-- The key stream covers the input. -/
theorem length_le_ctrKeyStream (function : BlockFunction size) (hsize : 1 ≤ size)
    (counterBits : ℕ) (hcounter : counterBlock.length = size) (input : ByteString) :
    input.length ≤ ((ctrBlocks counterBits counterBlock
      (input.length ⌈/⌉ size)).flatMap function.apply).length := by
  rw [function.length_flatMap (hcounter ▸ length_ctrBlocks _), ctrBlocks, List.length_map,
    List.length_range]
  exact le_ceilDiv_mul hsize input.length

/-- CTR can be cut after any block, and undoes itself. For every block function of a size from 1
to 16 and every width of the counter in the block: the result for `x ++ y`, where `x` is `k`
blocks, is the result for `x` and that for `y` from the counter block advanced by `k`; and the
result for a result is the input. -/
theorem ctrWith_append_and_cancel {ε : Type} {size counterBits k : ℕ}
    (function : BlockFunction size) (hsize : 1 ≤ size ∧ size ≤ 16)
    (hbits : 1 ≤ counterBits ∧ counterBits ≤ 8 * size) {counterBlock x y : ByteString}
    (hcounter : counterBlock.length = size) (hx : x.length = k * size)
    (hslice : (x ++ y).length < 2 ^ 63) :
    (∃ first second,
      answer (ctrWith counterBits counterBlock x (blockwise (ε := ε) function.blocks)) =
          some (.ok first) ∧
        answer (ctrWith counterBits (advancedCounter counterBits counterBlock k) y
          (blockwise (ε := ε) function.blocks)) = some (.ok second) ∧
        answer (ctrWith counterBits counterBlock (x ++ y)
          (blockwise (ε := ε) function.blocks)) = some (.ok (first ++ second))) ∧
      ∀ input : ByteString, input.length < 2 ^ 63 → ∃ output,
        answer (ctrWith counterBits counterBlock input (blockwise (ε := ε) function.blocks)) =
            some (.ok output) ∧
          answer (ctrWith counterBits counterBlock output
            (blockwise (ε := ε) function.blocks)) = some (.ok input) := by
  constructor
  · have hadvanced : (advancedCounter counterBits counterBlock k).length = size := by
      rw [length_advancedCounter, hcounter]
    have hcount : (x ++ y).length ⌈/⌉ size = k + y.length ⌈/⌉ size := by
      rw [List.length_append, hx, Nat.ceilDiv_eq_add_pred_div, Nat.ceilDiv_eq_add_pred_div,
        Nat.add_assoc, Nat.add_sub_assoc (by omega), Nat.add_comm,
        Nat.add_mul_div_right _ _ hsize.1, Nat.add_comm]
    have hstream : x.length =
        ((ctrBlocks counterBits counterBlock k).flatMap function.apply).length := by
      rw [function.length_flatMap (hcounter ▸ length_ctrBlocks _), ctrBlocks, List.length_map,
        List.length_range, hx]
    rw [List.length_append] at hslice
    refine ⟨_, _,
      answer_ctrWith function hcounter (ctrAccepts_of_lt hsize hcounter hbits (by omega)),
      answer_ctrWith function hadvanced (ctrAccepts_of_lt hsize hadvanced hbits (by omega)), ?_⟩
    rw [answer_ctrWith function hcounter (ctrAccepts_of_lt hsize hcounter hbits
        (by rw [List.length_append]; exact hslice)), hcount,
      ctrBlocks_add (by omega) (by omega), List.flatMap_append, xorBytes_append hstream, hx,
      mul_ceilDiv hsize.1]
  · intro input hinput
    have hcover := length_le_ctrKeyStream function hsize.1 counterBits hcounter input
    have houtput : (xorBytes input ((ctrBlocks counterBits counterBlock
        (input.length ⌈/⌉ size)).flatMap function.apply)).length = input.length := by
      rw [length_xorBytes, min_eq_left hcover]
    refine ⟨_, answer_ctrWith function hcounter (ctrAccepts_of_lt hsize hcounter hbits hinput), ?_⟩
    rw [answer_ctrWith function hcounter (ctrAccepts_of_lt hsize hcounter hbits
      (by rwa [houtput])), houtput, xorBytes_cancel_right hcover]

/-- The counter byte of this block wraps within the first part. -/
theorem ctrWith_append_and_cancel_complement :
    (∃ first second,
      answer (ctrWith 8 [0x01, 0xff] [0x61, 0x62, 0x63, 0x64]
          (blockwise (ε := Unit) (BlockPermutation.complement 2).encrypt.blocks)) =
        some (.ok first) ∧
      answer (ctrWith 8 (advancedCounter 8 [0x01, 0xff] 2) [0x65]
          (blockwise (ε := Unit) (BlockPermutation.complement 2).encrypt.blocks)) =
        some (.ok second) ∧
      answer (ctrWith 8 [0x01, 0xff] ([0x61, 0x62, 0x63, 0x64] ++ [0x65])
          (blockwise (ε := Unit) (BlockPermutation.complement 2).encrypt.blocks)) =
        some (.ok (first ++ second))) ∧
      ∀ input : ByteString, input.length < 2 ^ 63 → ∃ output,
        answer (ctrWith 8 [0x01, 0xff] input
            (blockwise (ε := Unit) (BlockPermutation.complement 2).encrypt.blocks)) =
          some (.ok output) ∧
        answer (ctrWith 8 [0x01, 0xff] output
            (blockwise (ε := Unit) (BlockPermutation.complement 2).encrypt.blocks)) =
          some (.ok input) :=
  ctrWith_append_and_cancel (BlockPermutation.complement 2).encrypt (by decide) (by decide) rfl rfl
    (by decide)

end Ctr

/-! ### CBC -/

section Cbc

variable {size : ℕ} {iv : ByteString}

/-- The ciphertext blocks over a block function are its chaining. -/
theorem cbcBlocks_eq_chainEncrypt (function : BlockFunction size) (hsize : 0 < size)
    {previous : ByteString} (hprevious : previous.length = size) {blocks : List ByteString}
    (hblocks : ∀ block ∈ blocks, block.length = size) :
    cbcBlocks (fun block ↦ (.ok (function.blocks block) : Except ε ByteString)) previous blocks =
      .ok (chainEncrypt function.apply previous blocks) := by
  induction blocks generalizing previous with
  | nil => rfl
  | cons block blocks ih =>
    rw [List.forall_mem_cons] at hblocks
    have hmixed : (xorBytes block previous).length = size := by
      rw [length_xorBytes, hblocks.1, hprevious, min_self]
    rw [cbcBlocks, FallibleResult.ok_bind, function.blocks_block hsize hmixed,
      ih (function.length_apply hmixed) hblocks.2, FallibleResult.ok_bind, chainEncrypt]

variable (permutation : BlockPermutation size)

/-- `cbc_with` over a pair of inverse block functions. -/
def cbcBlockwise (ε : Type) (iv input : ByteString) (encrypting : Bool) :
    Option (Except (BlockCipherModeError ε) ByteString) :=
  answer (cbcWith size iv input encrypting fun blocks encrypting ↦
    blockwise (permutation.transform encrypting) blocks)

/-- Encryption chains the blocks of its input. -/
theorem answer_cbcWith_encrypt (hsize : 0 < size) (hiv : iv.length = size) {input : ByteString}
    (hinput : size ∣ input.length) :
    cbcBlockwise permutation ε iv input true =
      some (.ok (chainEncrypt permutation.encrypt.apply iv (chunksExact size input)).flatten) := by
  have hencrypt : ∀ block output : ByteString, block.length = size →
      (.ok (permutation.encrypt.blocks block) : Except ε ByteString) = .ok output →
        output.length = size := by
    intro block output hblock houtput
    rw [← Except.ok.inj houtput, permutation.encrypt.length_blocks hblock.symm.dvd, hblock]
  have hanswer := answer_cbcWith_true hsize hencrypt hiv hinput
  rw [cbcBlocks_eq_chainEncrypt permutation.encrypt hsize hiv fun block hblock ↦
    length_of_mem_chunksExact hblock] at hanswer
  exact hanswer

/-- The decrypting loop of `cbc_with` computes the inverse of the chaining. -/
theorem foldlM_cbcDecryptStep (function : BlockFunction size) {blocks : List ByteString}
    (hblocks : ∀ block ∈ blocks, block.length = size) {previous : ByteString}
    (hprevious : previous.length = size) (before : ByteString) :
    (blocks.zip (blocks.map function.apply)).foldlM cbcDecryptStep (previous, before) =
      some (blocks.getLastD previous,
        before ++ (chainDecrypt function.apply previous blocks).flatten) := by
  induction blocks generalizing previous before with
  | nil =>
    change some (previous, before) = some (previous, before ++ [])
    rw [List.append_nil]
  | cons block blocks ih =>
    rw [List.forall_mem_cons] at hblocks
    have hstep : cbcDecryptStep (previous, before) (block, function.apply block) =
        some (block, before ++ xorBytes (function.apply block) previous) := by
      unfold cbcDecryptStep
      dsimp only
      rw [copyInto_all (hblocks.1.trans hprevious.symm)]
      rfl
    rw [List.map_cons, List.zip_cons_cons, List.foldlM_cons, hstep, Option.bind_eq_bind,
      Option.bind_some, ih hblocks.2 hblocks.1, chainDecrypt, List.getLastD_cons,
      List.flatten_cons, List.append_assoc]

/-- Decryption computes the inverse of the chaining of the blocks of its input. -/
theorem answer_cbcWith_decrypt (hsize : 0 < size) (hiv : iv.length = size) {input : ByteString}
    (hinput : size ∣ input.length) :
    cbcBlockwise permutation ε iv input false =
      some (.ok (chainDecrypt permutation.decrypt.apply iv (chunksExact size input)).flatten) := by
  have hblocks : ∀ block ∈ chunksExact size input, block.length = size :=
    fun block hblock ↦ length_of_mem_chunksExact hblock
  have hcall : answer (checkedCall BlockCipherModeError.blockOperation .invalidBlockOutput
      input.length (blockwise (ε := ε) (permutation.transform false) input)) =
      some (.ok (permutation.decrypt.blocks input)) :=
    answer_checkedCall_eq_ok_iff.mpr ⟨rfl, permutation.decrypt.length_blocks hinput⟩
  have htransformed : chunksExact size (permutation.decrypt.blocks input) =
      (chunksExact size input).map permutation.decrypt.apply := by
    rw [BlockFunction.blocks, List.flatMap_def,
      chunksExact_flatten hsize (permutation.decrypt.length_of_mem_map hblocks)]
  unfold cbcBlockwise cbcWith
  rw [if_neg hsize.ne', if_neg (not_not.mpr hiv), if_neg (not_not.mpr hinput),
    if_neg Bool.false_ne_true, answer_bind_of_ok hcall, htransformed,
    foldlM_cbcDecryptStep permutation.decrypt hblocks hiv, orPanic_some_bind]
  rfl

/-- An accepted input is whole blocks. -/
theorem dvd_of_cbcBlockwise_eq_ok {input output : ByteString} {encrypting : Bool}
    (haccepts : cbcBlockwise permutation ε iv input encrypting = some (.ok output)) :
    size ∣ input.length := by
  unfold cbcBlockwise cbcWith at haccepts
  simp only [answer_ite_throw_eq_ok_iff, not_not] at haccepts
  exact haccepts.2.2.1

variable {permutation}

/-- What decrypts to a plaintext is what the plaintext encrypts to. -/
theorem cbcBlockwise_true_of_false (hsize : 0 < size) (hiv : iv.length = size) {c p : ByteString}
    (hdecrypt : cbcBlockwise permutation ε iv c false = some (.ok p)) :
    cbcBlockwise permutation ε iv p true = some (.ok c) := by
  have hblocks : ∀ block ∈ chunksExact size c, block.length = size :=
    fun block hblock ↦ length_of_mem_chunksExact hblock
  have hplain := length_of_mem_chainDecrypt permutation.decrypt hiv hblocks
  have hc := dvd_of_cbcBlockwise_eq_ok permutation hdecrypt
  rw [answer_cbcWith_decrypt permutation hsize hiv hc, Option.some.injEq,
    Except.ok.injEq] at hdecrypt
  have hp : size ∣ p.length := by
    rw [← hdecrypt, length_flatten_of_forall hplain]
    exact Nat.dvd_mul_left _ _
  rw [answer_cbcWith_encrypt permutation hsize hiv hp, ← hdecrypt, chunksExact_flatten hsize hplain,
    chainEncrypt_chainDecrypt permutation hiv hblocks, flatten_chunksExact hsize hc]

/-- What a plaintext encrypts to decrypts to it. -/
theorem cbcBlockwise_false_of_true (hsize : 0 < size) (hiv : iv.length = size) {c p : ByteString}
    (hencrypt : cbcBlockwise permutation ε iv p true = some (.ok c)) :
    cbcBlockwise permutation ε iv c false = some (.ok p) := by
  have hblocks : ∀ block ∈ chunksExact size p, block.length = size :=
    fun block hblock ↦ length_of_mem_chunksExact hblock
  have hcipher := length_of_mem_chainEncrypt permutation.encrypt hiv hblocks
  have hp := dvd_of_cbcBlockwise_eq_ok permutation hencrypt
  rw [answer_cbcWith_encrypt permutation hsize hiv hp, Option.some.injEq,
    Except.ok.injEq] at hencrypt
  have hc : size ∣ c.length := by
    rw [← hencrypt, length_flatten_of_forall hcipher]
    exact Nat.dvd_mul_left _ _
  rw [answer_cbcWith_decrypt permutation hsize hiv hc, ← hencrypt,
    chunksExact_flatten hsize hcipher, chainDecrypt_chainEncrypt permutation hiv hblocks,
    flatten_chunksExact hsize hp]

section Append

variable {x y : ByteString}

variable (permutation) in
/-- The ciphertext of whole blocks is as long as they are, and its last bytes are the last block
of the chain. -/
theorem getLastD_chainEncrypt (hsize : 0 < size) (hiv : iv.length = size) (hne : x ≠ [])
    (hx : size ∣ x.length) :
    (chainEncrypt permutation.encrypt.apply iv (chunksExact size x)).getLastD iv =
      (chainEncrypt permutation.encrypt.apply iv (chunksExact size x)).flatten.drop
        ((chainEncrypt permutation.encrypt.apply iv (chunksExact size x)).flatten.length -
          size) := by
  have hcipher := length_of_mem_chainEncrypt permutation.encrypt hiv
    fun block (hblock : block ∈ chunksExact size x) ↦ length_of_mem_chunksExact hblock
  have hlength : (chainEncrypt permutation.encrypt.apply iv
      (chunksExact size x)).flatten.length = x.length := by
    rw [length_flatten_of_forall hcipher, length_chainEncrypt, chunksExact, List.length_map,
      List.length_range, Nat.div_mul_cancel hx]
  have hnonempty : (chainEncrypt permutation.encrypt.apply iv (chunksExact size x)).flatten ≠
      [] := by
    rw [← List.length_pos_iff, hlength]
    exact List.length_pos_iff.mpr hne
  rw [← getLastD_chunksExact hsize hnonempty (hlength ▸ hx) iv, chunksExact_flatten hsize hcipher]

/-- An encryption that is cut goes on from the last block of its first result. -/
theorem exists_cbcBlockwise_append_true (hsize : 0 < size) (hiv : iv.length = size) (hne : x ≠ [])
    (hx : size ∣ x.length) (hy : size ∣ y.length) :
    ∃ first second, cbcBlockwise permutation ε iv x true = some (.ok first) ∧
      cbcBlockwise permutation ε (first.drop (first.length - size)) y true = some (.ok second) ∧
      cbcBlockwise permutation ε iv (x ++ y) true = some (.ok (first ++ second)) := by
  have hcipher := length_of_mem_chainEncrypt permutation.encrypt hiv
    fun block (hblock : block ∈ chunksExact size x) ↦ length_of_mem_chunksExact hblock
  have hlast := getLastD_chainEncrypt permutation hsize hiv hne hx
  have hnext : ((chainEncrypt permutation.encrypt.apply iv (chunksExact size x)).getLastD
      iv).length = size := by
    have hmem := List.getLastD_mem_cons
      (l := chainEncrypt permutation.encrypt.apply iv (chunksExact size x)) (a := iv)
    rcases List.mem_cons.mp hmem with hinitial | hblock
    · rw [hinitial, hiv]
    · exact hcipher _ hblock
  have hxy : size ∣ (x ++ y).length := by
    rw [List.length_append]
    exact Nat.dvd_add hx hy
  refine ⟨_, _, answer_cbcWith_encrypt permutation hsize hiv hx,
    answer_cbcWith_encrypt permutation hsize (hlast ▸ hnext) hy, ?_⟩
  rw [answer_cbcWith_encrypt permutation hsize hiv hxy, chunksExact_append hsize hx hy,
    chainEncrypt_append, List.flatten_append, hlast]

/-- A decryption that is cut goes on from the last block of its first input. -/
theorem exists_cbcBlockwise_append_false (hsize : 0 < size) (hiv : iv.length = size) (hne : x ≠ [])
    (hx : size ∣ x.length) (hy : size ∣ y.length) :
    ∃ first second, cbcBlockwise permutation ε iv x false = some (.ok first) ∧
      cbcBlockwise permutation ε (x.drop (x.length - size)) y false = some (.ok second) ∧
      cbcBlockwise permutation ε iv (x ++ y) false = some (.ok (first ++ second)) := by
  have hle := Nat.le_of_dvd (List.length_pos_iff.mpr hne) hx
  have hnext : (x.drop (x.length - size)).length = size := by
    rw [List.length_drop]
    omega
  have hxy : size ∣ (x ++ y).length := by
    rw [List.length_append]
    exact Nat.dvd_add hx hy
  refine ⟨_, _, answer_cbcWith_decrypt permutation hsize hiv hx,
    answer_cbcWith_decrypt permutation hsize hnext hy, ?_⟩
  rw [answer_cbcWith_decrypt permutation hsize hiv hxy, chunksExact_append hsize hx hy,
    chainDecrypt_append, List.flatten_append, getLastD_chunksExact hsize hne hx]

end Append

/-- CBC decrypts what it encrypts, and chains across calls. For every pair of inverse functions on
the blocks of a size and every initialization vector of the size: decrypting `c` returns `p`
exactly when encrypting `p` returns `c`. For `x` of at least one block, the result for `x ++ y` is
that for `x` and that for `y` from the last ciphertext block of `x`, in both directions. -/
theorem cbcWith_decrypt_iff_encrypt_and_append {ε : Type} {size : ℕ}
    (permutation : BlockPermutation size) (hsize : 1 ≤ size) {iv : ByteString}
    (hiv : iv.length = size) :
    (∀ c p, cbcBlockwise permutation ε iv c false = some (.ok p) ↔
      cbcBlockwise permutation ε iv p true = some (.ok c)) ∧
    ∀ x y : ByteString, x ≠ [] → size ∣ x.length → size ∣ y.length →
      (∃ first second, cbcBlockwise permutation ε iv x true = some (.ok first) ∧
        cbcBlockwise permutation ε (first.drop (first.length - size)) y true =
          some (.ok second) ∧
        cbcBlockwise permutation ε iv (x ++ y) true = some (.ok (first ++ second))) ∧
      ∃ first second, cbcBlockwise permutation ε iv x false = some (.ok first) ∧
        cbcBlockwise permutation ε (x.drop (x.length - size)) y false = some (.ok second) ∧
        cbcBlockwise permutation ε iv (x ++ y) false = some (.ok (first ++ second)) :=
  ⟨fun _ _ ↦ ⟨cbcBlockwise_true_of_false hsize hiv, cbcBlockwise_false_of_true hsize hiv⟩,
    fun _ _ hne hx hy ↦ ⟨exists_cbcBlockwise_append_true hsize hiv hne hx hy,
      exists_cbcBlockwise_append_false hsize hiv hne hx hy⟩⟩

/-- Two blocks of two bytes under a vector of two bytes. -/
theorem cbcWith_decrypt_iff_encrypt_and_append_complement :
    (∀ c p, cbcBlockwise (BlockPermutation.complement 2) Unit [0x01, 0x02] c false =
        some (.ok p) ↔
      cbcBlockwise (BlockPermutation.complement 2) Unit [0x01, 0x02] p true = some (.ok c)) ∧
    ∀ x y : ByteString, x ≠ [] → 2 ∣ x.length → 2 ∣ y.length →
      (∃ first second,
        cbcBlockwise (BlockPermutation.complement 2) Unit [0x01, 0x02] x true =
            some (.ok first) ∧
          cbcBlockwise (BlockPermutation.complement 2) Unit (first.drop (first.length - 2)) y
            true = some (.ok second) ∧
          cbcBlockwise (BlockPermutation.complement 2) Unit [0x01, 0x02] (x ++ y) true =
            some (.ok (first ++ second))) ∧
      ∃ first second,
        cbcBlockwise (BlockPermutation.complement 2) Unit [0x01, 0x02] x false =
            some (.ok first) ∧
          cbcBlockwise (BlockPermutation.complement 2) Unit (x.drop (x.length - 2)) y false =
            some (.ok second) ∧
          cbcBlockwise (BlockPermutation.complement 2) Unit [0x01, 0x02] (x ++ y) false =
            some (.ok (first ++ second)) :=
  cbcWith_decrypt_iff_encrypt_and_append (BlockPermutation.complement 2) (by decide) rfl

end Cbc

end SoftwareKeyCore.SoftwareSymmetric
