import SoftwareKeyCore.Foundation.BinaryPolynomial
import SoftwareKeyCore.SoftwareSymmetric.BlockwiseModes
import SoftwareKeyCore.SoftwareSymmetric.Cmac

/-!
# CMAC as it is specified

`cmac_with` of `software_symmetric.rs` against the definition of CMAC: the chaining of the message
blocks (`cbcMac`), the last of which is padded unless it is complete and masked with one of two
subkeys (`lastBlock`). A subkey is the image of the zero block, as a polynomial over the field of
two elements, times a power of `X` modulo a fixed polynomial for each block size (`IsSubkey`).

`cmacDouble_eq_some` is that `cmac_double`, which shifts byte by byte, doubles the number of a
block modulo that polynomial. `cmacWith_eq_cmac` is that `cmac_with` computes CMAC.
-/

set_option autoImplicit false
set_option relaxedAutoImplicit false

namespace SoftwareKeyCore.Cmac

open ByteString CallbackSession CheckedSlice Panicking Polynomial SoftwareSymmetric

/-! ### Doubling -/

/-- The last byte changed. -/
theorem modifyByte_concat (bytes : ByteString) (byte : UInt8) (change : UInt8 → UInt8) :
    modifyByte (bytes ++ [byte]) bytes.length change = some (bytes ++ [change byte]) := by
  have hlast : bytes.length < (bytes ++ [byte]).length := by simp
  rw [modifyByte_eq_some hlast]
  congr 1
  induction bytes with
  | nil => rfl
  | cons head bytes ih =>
    rw [List.cons_append, List.length_cons, List.modify_succ_cons, ih (by simp), List.cons_append]

/-- A turn of the loop of `cmac_double`. -/
theorem cmacShift_append (front bytes : ByteString) (byte next : UInt8) :
    cmacShift (front ++ byte :: next :: bytes) front.length =
      some (front ++ [(byte <<< 1) ||| (next >>> 7)] ++ next :: bytes) := by
  have hindex : front.length < (front ++ byte :: next :: bytes).length := by simp
  have hbyte : (front ++ byte :: next :: bytes)[front.length]? = some byte := by simp
  have hnext : (front ++ byte :: next :: bytes)[front.length + 1]? = some next := by
    rw [List.getElem?_append_right (Nat.le_add_right _ _), Nat.add_sub_cancel_left]
    rfl
  rw [cmacShift, hbyte, hnext, Option.bind_eq_bind, Option.bind_some, Option.bind_some,
    setByte_eq_some hindex, List.set_append_right _ _ le_rfl, Nat.sub_self, List.set_cons_zero,
    List.append_assoc, List.singleton_append]

/-- The loop of `cmac_double`, with the shift of the last byte after it. -/
theorem foldlM_cmacShift (front : ByteString) {block : ByteString} (hne : block ≠ []) :
    ((List.range' front.length (block.length - 1)).foldlM cmacShift (front ++ block)).bind
        (fun shifted ↦ modifyByte shifted (front.length + (block.length - 1)) (· <<< 1)) =
      some (front ++ shiftLeft block) := by
  fun_induction shiftLeft block generalizing front with
  | case1 => exact absurd rfl hne
  | case2 byte => exact modifyByte_concat front byte _
  | case3 byte next bytes ih =>
    have hrest := ih (front ++ [(byte <<< 1) ||| (next >>> 7)]) (List.cons_ne_nil _ _)
    rw [List.length_append, List.length_singleton, List.length_cons, Nat.add_sub_cancel,
      List.append_assoc, List.append_assoc, List.singleton_append, List.singleton_append] at hrest
    have hlast : front.length + (bytes.length + 1) = front.length + 1 + bytes.length := by omega
    rw [List.length_cons, List.length_cons, Nat.add_sub_cancel, List.range'_succ, List.foldlM_cons,
      cmacShift_append, Option.bind_eq_bind, Option.bind_some, hlast, List.append_assoc,
      List.singleton_append]
    exact hrest

/-- The constant of the reduction, for both block sizes. -/
def reductionByte (blockSize : ℕ) : UInt8 :=
  if blockSize = 8 then 0x1b else 0x87

/-- `cmac_double` shifts a block and masks its last byte when a bit is lost. -/
theorem cmacDouble_eq (first : UInt8) (bytes : ByteString) :
    cmacDouble (first :: bytes) = modifyByte (shiftLeft (first :: bytes)) bytes.length
      (· ^^^ (reductionByte (bytes.length + 1) &&& ((0 : UInt8) - (first >>> 7)))) := by
  have hshift := foldlM_cmacShift [] (List.cons_ne_nil first bytes)
  rw [List.length_cons, Nat.add_sub_cancel, List.length_nil, zero_add, List.nil_append,
    ← List.range_eq_range', List.nil_append] at hshift
  obtain ⟨shifted, hloop, hlast⟩ := Option.bind_eq_some_iff.mp hshift
  have hsubtract : subtract (first :: bytes).length 1 = some bytes.length :=
    subtract_eq_some (Nat.le_add_left _ _)
  unfold cmacDouble
  rw [List.getElem?_cons_zero, Option.bind_eq_bind, Option.bind_some, hsubtract,
    Option.bind_eq_bind, Option.bind_some, hloop, Option.bind_eq_bind, Option.bind_some, hlast,
    Option.bind_some, length_shiftLeft, List.length_cons, reductionByte]

/-- The bit that is lost selects the reduction. -/
theorem reduction_and_carry (reduction first : UInt8) :
    (reduction &&& ((0 : UInt8) - (first >>> 7))).toNat =
      if 0 < first.toNat / 128 then reduction.toNat else 0 := by
  have hcarry : (first >>> 7).toNat = first.toNat / 128 := by
    simp [UInt8.toNat_shiftRight, Nat.shiftRight_eq_div_pow]
  have hle : first.toNat / 128 < 2 := Nat.div_lt_of_lt_mul first.toNat_lt
  by_cases hset : 0 < first.toNat / 128
  · have hone : first >>> 7 = 1 := UInt8.toNat_inj.mp (by rw [hcarry]; simp; omega)
    rw [if_pos hset, hone, show (0 - 1 : UInt8) = -1 by rfl, UInt8.and_neg_one]
  · have hzero : first >>> 7 = 0 := UInt8.toNat_inj.mp (by rw [hcarry]; simp; omega)
    rw [if_neg hset, hzero, UInt8.sub_zero, UInt8.and_zero]
    rfl

/-- `cmac_double` doubles the number of a block modulo the polynomial of its size. -/
theorem cmacDouble_eq_some {block : ByteString} (hne : block ≠ []) :
    ∃ doubled, cmacDouble block = some doubled ∧ doubled.length = block.length ∧
      fromBeBytes doubled = doubleModulo (8 * block.length) (reductionByte block.length).toNat
        (fromBeBytes block) := by
  obtain ⟨first, bytes, rfl⟩ := List.exists_cons_of_ne_nil hne
  obtain ⟨front, last, hshifted⟩ : ∃ front last, shiftLeft (first :: bytes) = front ++ [last] := by
    refine (List.eq_nil_or_concat' _).resolve_left fun hnil ↦ ?_
    have hlength := length_shiftLeft (first :: bytes)
    rw [hnil] at hlength
    exact absurd hlength.symm (Nat.succ_ne_zero _)
  have hfront : front.length = bytes.length := by
    have hlength := length_shiftLeft (first :: bytes)
    rw [hshifted, List.length_append] at hlength
    exact Nat.succ_injective hlength
  have hcarry : 2 ^ (8 * (bytes.length + 1)) ≤ 2 * fromBeBytes (first :: bytes) ↔
      0 < first.toNat / 128 := by
    rw [← two_mul_fromBeBytes_div first bytes, Nat.div_pos_iff, pow_mul]
    exact (and_iff_right (by positivity)).symm
  have hdoubled := cmacDouble_eq first bytes
  rw [hshifted, ← hfront, modifyByte_concat] at hdoubled
  refine ⟨_, hdoubled, by simp [hfront], ?_⟩
  rw [fromBeBytes_concat_xor, ← hshifted, fromBeBytes_shiftLeft, reduction_and_carry,
    doubleModulo, List.length_cons, hfront]
  simp only [hcarry]
  rw [pow_mul]
  norm_num

/-! ### The subkeys -/

/-- The polynomial of a block size. -/
noncomputable def cmacModulus (blockSize : ℕ) : (ZMod 2)[X] :=
  if blockSize = 8 then X ^ 64 + X ^ 4 + X ^ 3 + X + 1 else X ^ 128 + X ^ 7 + X ^ 2 + X + 1

theorem reductionPolynomial_eq_cmacModulus {blockSize : ℕ}
    (hsize : blockSize = 8 ∨ blockSize = 16) :
    reductionPolynomial (8 * blockSize) (reductionByte blockSize).toNat =
      cmacModulus blockSize := by
  have hone : binaryPolynomial 1 = 1 := by
    have hbit : binaryPolynomial (2 ^ 0 + 0) = X ^ 0 + binaryPolynomial 0 :=
      binaryPolynomial_two_pow_add Nat.one_pos
    simpa using hbit
  have htwo : binaryPolynomial (2 ^ 1 + 1) = X + 1 := by
    rw [binaryPolynomial_two_pow_add (by decide), hone, pow_one]
  have h64 : binaryPolynomial 0x1b = X ^ 4 + (X ^ 3 + (X + 1)) := by
    rw [show 0x1b = 2 ^ 4 + (2 ^ 3 + (2 ^ 1 + 1)) by rfl, binaryPolynomial_two_pow_add (by decide),
      binaryPolynomial_two_pow_add (by decide), htwo]
  have h128 : binaryPolynomial 0x87 = X ^ 7 + (X ^ 2 + (X + 1)) := by
    rw [show 0x87 = 2 ^ 7 + (2 ^ 2 + (2 ^ 1 + 1)) by rfl, binaryPolynomial_two_pow_add (by decide),
      binaryPolynomial_two_pow_add (by decide), htwo]
  rcases hsize with rfl | rfl
  · have hbyte : (reductionByte 8).toNat = 0x1b := rfl
    rw [reductionPolynomial, cmacModulus, if_pos rfl, hbyte, h64]
    ring
  · have hbyte : (reductionByte 16).toNat = 0x87 := rfl
    rw [reductionPolynomial, cmacModulus, if_neg (by decide), hbyte, h128]
    ring

section

variable {size : ℕ} (function : BlockFunction size)

/-- A subkey: the image of the zero block times a power of `X`. -/
structure IsSubkey (power : ℕ) (subkey : ByteString) : Prop where
  length_eq : subkey.length = size
  polynomial_eq : blockPolynomial subkey =
    (X ^ power * blockPolynomial (function.apply (List.replicate size 0))) %ₘ cmacModulus size

variable {function}

/-- There is one subkey for each power. -/
theorem IsSubkey.unique {power : ℕ} {subkey subkey' : ByteString}
    (hsubkey : IsSubkey function power subkey) (hsubkey' : IsSubkey function power subkey') :
    subkey = subkey' :=
  blockPolynomial_injective (hsubkey.length_eq.trans hsubkey'.length_eq.symm)
    (hsubkey.polynomial_eq.trans hsubkey'.polynomial_eq.symm)

variable (function)

/-- The subkeys that `cmac_last_subkey` computes. -/
theorem exists_cmacDouble_twice (hsize : size = 8 ∨ size = 16) :
    ∃ k1 k2, cmacDouble (function.apply (List.replicate size 0)) = some k1 ∧
      cmacDouble k1 = some k2 ∧ IsSubkey function 1 k1 ∧ IsSubkey function 2 k2 := by
  have hpositive : 0 < size := by omega
  have hzero : (function.apply (List.replicate size 0)).length = size :=
    function.length_apply List.length_replicate
  have hreduction : (reductionByte size).toNat < 2 ^ (8 * size) := by
    rcases hsize with rfl | rfl <;> decide
  have hvalue : fromBeBytes (function.apply (List.replicate size 0)) < 2 ^ (8 * size) := by
    have hlt := fromBeBytes_lt (function.apply (List.replicate size 0))
    rw [hzero] at hlt
    rwa [pow_mul]
  obtain ⟨k1, hk1, hk1Length, hk1Value⟩ :=
    cmacDouble_eq_some (List.length_pos_iff.mp (hzero ▸ hpositive))
  rw [hzero] at hk1Length hk1Value
  obtain ⟨k2, hk2, hk2Length, hk2Value⟩ :=
    cmacDouble_eq_some (List.length_pos_iff.mp (hk1Length ▸ hpositive))
  rw [hk1Length] at hk2Length hk2Value
  refine ⟨k1, k2, hk1, hk2, ⟨hk1Length, ?_⟩, ⟨hk2Length, ?_⟩⟩
  · rw [blockPolynomial, hk1Value, binaryPolynomial_doubleModulo hvalue hreduction,
      reductionPolynomial_eq_cmacModulus hsize, pow_one, blockPolynomial]
  · rw [blockPolynomial, hk2Value, hk1Value, binaryPolynomial_doubleModulo_twice hvalue hreduction,
      reductionPolynomial_eq_cmacModulus hsize, blockPolynomial]

/-! ### CMAC -/

/-- The CBC-MAC of message blocks. -/
def cbcMac (blocks : List ByteString) : ByteString :=
  blocks.foldl (fun state block ↦ function.apply (xorBytes block state)) (List.replicate size 0)

/-- The parts of a message: blocks, the last of which may be shorter. An empty message has one
empty part. -/
def messageParts (size : ℕ) (message : ByteString) : List ByteString :=
  (List.range (max 1 (message.length ⌈/⌉ size))).map fun index ↦ slice message (index * size) size

/-- The last block of CMAC: a complete part masked with the first subkey, or a part that is padded
with a bit and zeros masked with the second one. -/
def lastBlock (size : ℕ) (k1 k2 part : ByteString) : ByteString :=
  if part.length = size then xorBytes part k1
  else xorBytes (part ++ 0x80 :: List.replicate (size - part.length - 1) 0) k2

/-- CMAC. -/
def cmac (k1 k2 message : ByteString) : ByteString :=
  cbcMac function ((messageParts size message).dropLast ++
    [lastBlock size k1 k2 ((messageParts size message).getLastD [])])

/-- The CBC-MAC is the last block of the chaining. -/
theorem getLastD_chainEncrypt (blocks : List ByteString) (previous : ByteString) :
    (chainEncrypt function.apply previous blocks).getLastD previous =
      blocks.foldl (fun state block ↦ function.apply (xorBytes block state)) previous := by
  induction blocks generalizing previous with
  | nil => rfl
  | cons block blocks ih => rw [chainEncrypt, List.getLastD_cons, ih, List.foldl_cons]

variable {function}

/-- The last part of a message is what the other parts leave. -/
theorem getLastD_messageParts {blockSize blockCount : ℕ} {data : ByteString} {complete : Bool}
    (hcut : IsCut blockSize data complete blockCount)
    (hcount : blockCount = max 1 (data.length ⌈/⌉ blockSize)) :
    (messageParts blockSize data).getLastD [] = data.drop ((blockCount - 1) * blockSize) := by
  obtain ⟨count, rfl⟩ := Nat.exists_eq_succ_of_ne_zero hcut.blockCount_pos.ne'
  have hlength := hcut.length_le
  rw [Nat.succ_mul] at hlength
  rw [messageParts, ← hcount, List.range_succ, List.map_append, List.map_singleton,
    List.getLastD_concat, Nat.succ_sub_one, slice]
  apply List.take_of_length_le
  rw [List.length_drop]
  omega

theorem dropLast_messageParts {blockSize blockCount : ℕ} {data : ByteString}
    (hpositive : 0 < blockCount) (hcount : blockCount = max 1 (data.length ⌈/⌉ blockSize)) :
    (messageParts blockSize data).dropLast =
      (List.range (blockCount - 1)).map fun index ↦ slice data (index * blockSize) blockSize := by
  obtain ⟨count, rfl⟩ := Nat.exists_eq_succ_of_ne_zero hpositive.ne'
  rw [messageParts, ← hcount, List.range_succ, List.map_append, List.map_singleton,
    List.dropLast_concat, Nat.succ_sub_one]

/-- The last block of the padded message, masked with the subkey that is chosen for it. -/
theorem xorBytes_drop_paddedData {blockSize blockCount : ℕ} {data k1 k2 : ByteString}
    {complete : Bool} (hcut : IsCut blockSize data complete blockCount) :
    xorBytes ((paddedData blockSize data complete).drop ((blockCount - 1) * blockSize))
        (if complete then k1 else k2) =
      lastBlock blockSize k1 k2 (data.drop ((blockCount - 1) * blockSize)) := by
  have hstart := hcut.start_le
  cases complete with
  | true =>
    have hlength := hcut.complete_iff.mp rfl
    have hlast : (data.drop ((blockCount - 1) * blockSize)).length = blockSize := by
      rw [List.length_drop, hlength, Nat.sub_one_mul, Nat.sub_sub_self]
      exact Nat.le_mul_of_pos_left _ hcut.blockCount_pos
    rw [lastBlock, if_pos hlast, if_pos rfl, paddedData, if_pos rfl]
  | false =>
    obtain ⟨hmod, hlt⟩ := hcut.mod_eq
    have hlast : (data.drop ((blockCount - 1) * blockSize)).length ≠ blockSize := by
      rw [List.length_drop]
      exact hlt.ne
    rw [lastBlock, if_neg hlast, if_neg Bool.false_ne_true, paddedData, if_neg Bool.false_ne_true,
      List.drop_append_of_le_length hstart, hmod, List.length_drop]

/-- The blocks of the prepared message are the blocks of CMAC. -/
theorem chunksExact_preparedData_eq {blockSize blockCount : ℕ} {data k1 k2 : ByteString}
    {complete : Bool} (hcut : IsCut blockSize data complete blockCount)
    (hcount : blockCount = max 1 (data.length ⌈/⌉ blockSize)) (hk1 : k1.length = blockSize)
    (hk2 : k2.length = blockSize) :
    chunksExact blockSize
        (preparedData blockSize data (if complete then k1 else k2) complete blockCount) =
      (messageParts blockSize data).dropLast ++
        [lastBlock blockSize k1 k2 ((messageParts blockSize data).getLastD [])] := by
  have hsubkey : (if complete then k1 else k2).length = blockSize := by
    split_ifs
    · exact hk1
    · exact hk2
  have hrange : List.range blockCount = List.range (blockCount - 1) ++ [blockCount - 1] := by
    rw [← List.range_succ, Nat.succ_eq_add_one, Nat.sub_add_cancel hcut.blockCount_pos]
  rw [chunksExact_preparedData hcut hsubkey, hrange, List.map_append, List.map_singleton,
    slice_preparedData_last hcut hsubkey, xorBytes_drop_paddedData hcut,
    getLastD_messageParts hcut hcount, dropLast_messageParts hcut.blockCount_pos hcount]
  refine congrArg (· ++ _) (List.map_congr_left fun index hindex ↦ ?_)
  exact slice_preparedData_of_lt hcut (by rw [List.mem_range] at hindex; omega)

/-- `cmac_with` is CMAC. For both block sizes and every block function, there are subkeys that are
the image of the zero block times `X` and times `X ^ 2`, with which the result for every message is
the CMAC.

Assumes of the block function only that it is a function from blocks to blocks (`BlockFunction`). -/
theorem cmacWith_eq_cmac {ε : Type} (function : BlockFunction size)
    (hsize : size = 8 ∨ size = 16) :
    ∃ k1 k2, IsSubkey function 1 k1 ∧ IsSubkey function 2 k2 ∧
      ∀ message, answer (cmacWith size message (blockwise (ε := ε) function.blocks)) =
        some (.ok (cmac function k1 k2 message)) := by
  have hpositive : 0 < size := by omega
  have hzeros : (List.replicate size (0 : UInt8)).length = size := List.length_replicate
  obtain ⟨k1, k2, hdouble, hdouble', hk1, hk2⟩ := exists_cmacDouble_twice function hsize
  refine ⟨k1, k2, hk1, hk2, fun message ↦ ?_⟩
  have hencrypt : ∀ block output : ByteString, block.length = size →
      (.ok (function.blocks block) : Except ε ByteString) = .ok output →
        output.length = size := by
    intro block output hblock houtput
    rw [← Except.ok.inj houtput, function.length_blocks hblock.symm.dvd, hblock]
  have hzero : (.ok (function.blocks (List.replicate size 0)) : Except ε ByteString) =
      .ok (function.apply (List.replicate size 0)) :=
    congrArg Except.ok (function.blocks_block hpositive hzeros)
  have hsubkey : answer (cmacLastSubkey size message (blockwise (ε := ε) function.blocks)) =
      some (.ok (if message ≠ [] ∧ size ∣ message.length then k1 else k2,
        decide (message ≠ [] ∧ size ∣ message.length))) :=
    answer_cmacLastSubkey_of_ok hsize message hzero (function.length_apply hzeros) hdouble hdouble'
  have hcut := isCut_ceilDiv hpositive message
  have hlast : (if message ≠ [] ∧ size ∣ message.length then k1 else k2).length = size := by
    split_ifs
    · exact hk1.length_eq
    · exact hk2.length_eq
  have hblocks := chunksExact_preparedData_eq hcut rfl hk1.length_eq hk2.length_eq
  simp only [decide_eq_true_eq] at hblocks
  have hloop := answer_cmacWith_loop hencrypt hcut hlast
  have hsizes : ∀ block ∈ (messageParts size message).dropLast ++
      [lastBlock size k1 k2 ((messageParts size message).getLastD [])], block.length = size := by
    rw [← hblocks]
    exact fun block hblock ↦ length_of_mem_chunksExact hblock
  rw [hblocks, cbcBlocks_eq_chainEncrypt function hpositive hzeros hsizes] at hloop
  unfold cmacWith
  rw [answer_bind_of_ok hsubkey]
  refine hloop.trans ?_
  rw [cmac, cbcMac, ← getLastD_chainEncrypt]
  rfl

/-- A message of one byte, over the block function that complements every byte. -/
theorem cmacWith_eq_cmac_complement :
    ∃ k1 k2, IsSubkey (BlockPermutation.complement 8).encrypt 1 k1 ∧
      IsSubkey (BlockPermutation.complement 8).encrypt 2 k2 ∧
        answer (cmacWith 8 [0x61]
          (blockwise (ε := Unit) (BlockPermutation.complement 8).encrypt.blocks)) =
            some (.ok (cmac (BlockPermutation.complement 8).encrypt k1 k2 [0x61])) := by
  obtain ⟨k1, k2, hk1, hk2, hmac⟩ :=
    cmacWith_eq_cmac (ε := Unit) (BlockPermutation.complement 8).encrypt (.inl rfl)
  exact ⟨k1, k2, hk1, hk2, hmac [0x61]⟩

end

end SoftwareKeyCore.Cmac
