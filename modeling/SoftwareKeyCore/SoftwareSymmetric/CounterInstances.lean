import SoftwareKeyCore.SoftwareSymmetric.BlockwiseModes
import SoftwareKeyCore.SoftwareSymmetric.Ccm
import SoftwareKeyCore.SoftwareSymmetric.Gcm

/-!
# GCM and CCM are instances of CTR

`gcm_with` and `ccm_with` of `software_symmetric.rs` over a block function. Each has a counter
generator of its own: `gcm_with` increments the last four bytes of a block that it keeps, and
`ccm_with` encodes the index of a block into a field of the width that the nonce leaves. Both
generate the counter blocks of `ctr_with` (`gcmCounterBlocks_eq_some`, `counterBlocks_eq`), where
the first block is for the tag. `ciphertexts_eq_ctrWith` is what follows for the ciphertexts.
-/

set_option autoImplicit false
set_option relaxedAutoImplicit false

namespace SoftwareKeyCore.SoftwareSymmetric

open ByteString CallbackSession CheckedSlice FallibleResult Panicking

/-! ### Advancing an encoded counter -/

/-- A block that ends in an encoded counter is advanced by advancing the counter. -/
theorem advancedCounter_append (high : ByteString) (width value count : ℕ) :
    advancedCounter (8 * width) (high ++ toBeBytes width value) count =
      high ++ toBeBytes width (value + count) := by
  have hbits : 8 * width ≤ 8 * (high ++ toBeBytes width value).length := by
    rw [List.length_append, length_toBeBytes]
    omega
  have hpower : 2 ^ (8 * width) = 256 ^ width := by
    rw [pow_mul]
    norm_num
  have hpositive : 0 < 256 ^ width := by positivity
  have hquotient : (fromBeBytes high * 256 ^ width + value % 256 ^ width) / 256 ^ width =
      fromBeBytes high := by
    rw [mul_comm, Nat.mul_add_div hpositive, Nat.div_eq_of_lt (Nat.mod_lt _ hpositive), add_zero]
  have hremainder : (fromBeBytes high * 256 ^ width + value % 256 ^ width + count) % 256 ^ width =
      (value + count) % 256 ^ width := by
    rw [add_assoc, Nat.mul_add_mod_self_right, Nat.mod_add_mod]
  apply fromBeBytes_injective
  · rw [length_advancedCounter, List.length_append, List.length_append, length_toBeBytes,
      length_toBeBytes]
  · rw [fromBeBytes_advancedCounter hbits, fromBeBytes_append, fromBeBytes_append, length_toBeBytes,
      length_toBeBytes, fromBeBytes_toBeBytes, fromBeBytes_toBeBytes, hpower, hquotient, hremainder]

theorem advancedCounter_zero (counterBits : ℕ) (counterBlock : ByteString) :
    advancedCounter counterBits counterBlock 0 = counterBlock := by
  rw [advancedCounter, add_zero, Nat.div_add_mod', toBeBytes_fromBeBytes]

/-- The increment of GCM advances the last 32 bits by one. -/
theorem inc32_eq_advancedCounter {counter : ByteString} (hcounter : counter.length = 16) :
    Gcm.inc32 counter = advancedCounter 32 counter 1 := by
  have hlow : toBeBytes 4 (fromBeBytes (counter.drop 12)) = counter.drop 12 := by
    have hwidth : (counter.drop 12).length = 4 := by
      rw [List.length_drop, hcounter]
    rw [← hwidth, toBeBytes_fromBeBytes]
  have hmod : toBeBytes 4 ((fromBeBytes (counter.drop 12) + 1) % 2 ^ 32) =
      toBeBytes 4 (fromBeBytes (counter.drop 12) + 1) := by
    apply fromBeBytes_injective
    · rw [length_toBeBytes, length_toBeBytes]
    · rw [fromBeBytes_toBeBytes, fromBeBytes_toBeBytes]
      exact Nat.mod_mod _ _
  have hadvanced := advancedCounter_append (counter.take 12) 4 (fromBeBytes (counter.drop 12)) 1
  rw [hlow, List.take_append_drop] at hadvanced
  rw [Gcm.inc32, hmod]
  exact hadvanced.symm

/-! ### GCM -/

section Gcm

open Gcm

variable {hash : ByteString → ByteString → ByteString → Option Block}

/-- The initial counter block of GCM: an initialization vector of twelve bytes with a counter of
one, and the hash of any other. -/
def initialCounterBlock (hash : ByteString → ByteString → ByteString → Option Block)
    (hashSubkey iv : ByteString) : Option ByteString :=
  if iv.length = 12 then some (iv ++ [0, 0, 0, 1])
  else (hash hashSubkey [] iv).map List.Vector.toList

theorem gcmInitialCounter_eq_some
    (hash : ByteString → ByteString → ByteString → Option Block) (hashSubkey iv : ByteString) :
    gcmInitialCounter hash hashSubkey iv = some (initialCounterBlock hash hashSubkey iv) := by
  unfold gcmInitialCounter initialCounterBlock
  split_ifs with hiv
  · have hset : (iv ++ [(0 : UInt8), 0, 0, 0]).set 15 1 = iv ++ [0, 0, 0, 1] := by
      rw [List.set_append_right _ _ (by omega), hiv]
      rfl
    have hzeros : (List.replicate aesBlockSize (0 : UInt8)).drop 12 = [0, 0, 0, 0] := rfl
    have hlength : (iv ++ [(0 : UInt8), 0, 0, 0]).length = 16 := by
      rw [List.length_append, hiv]
      rfl
    rw [copyInto_zero (by decide) hiv, Option.bind_eq_bind, Option.bind_some, hzeros,
      setByte_eq_some (by omega), hset]
    rfl
  · rfl

theorem length_initialCounterBlock {hashSubkey iv initialCounter : ByteString}
    (hinitial : initialCounterBlock hash hashSubkey iv = some initialCounter) :
    initialCounter.length = 16 := by
  obtain ⟨counter, hcounter, hlength⟩ := exists_gcmInitialCounter hash hashSubkey iv
  rw [gcmInitialCounter_eq_some, Option.some.injEq] at hcounter
  exact hlength initialCounter (hcounter ▸ hinitial)

/-- The loop over the counter blocks of GCM generates the counter blocks of CTR, after the initial
counter block. -/
theorem gcmCounterBlocks_eq_some {initialCounter : ByteString}
    (hinitial : initialCounter.length = 16) (blockCount : ℕ) :
    gcmCounterBlocks initialCounter blockCount =
      some (initialCounter ++ (ctrBlocks 32 (inc32 initialCounter) blockCount).flatten) := by
  have hbits : 32 ≤ 8 * initialCounter.length := by omega
  have hloop : (List.range blockCount).foldlM gcmCounterStep (initialCounter, initialCounter) =
      some (advancedCounter 32 initialCounter blockCount,
        initialCounter ++ (ctrBlocks 32 (inc32 initialCounter) blockCount).flatten) := by
    induction blockCount with
    | zero =>
      rw [advancedCounter_zero]
      change some (initialCounter, initialCounter) = some (initialCounter, initialCounter ++ [])
      rw [List.append_nil]
    | succ blockCount ih =>
      have hadvanced : (advancedCounter 32 initialCounter blockCount).length = 16 := by
        rw [length_advancedCounter, hinitial]
      have hnext : inc32 (advancedCounter 32 initialCounter blockCount) =
          advancedCounter 32 initialCounter (blockCount + 1) := by
        rw [inc32_eq_advancedCounter hadvanced, advancedCounter_advancedCounter hbits]
      have hblock : ctrBlock 32 (inc32 initialCounter) blockCount =
          advancedCounter 32 initialCounter (blockCount + 1) := by
        rw [inc32_eq_advancedCounter hinitial, ctrBlock_eq_advancedCounter
          (by rw [length_advancedCounter, hinitial]) (by rwa [length_advancedCounter]),
          advancedCounter_advancedCounter hbits, add_comm]
      have hstep : gcmCounterStep (advancedCounter 32 initialCounter blockCount,
            initialCounter ++ (ctrBlocks 32 (inc32 initialCounter) blockCount).flatten)
          blockCount = some (advancedCounter 32 initialCounter (blockCount + 1),
            initialCounter ++ (ctrBlocks 32 (inc32 initialCounter) blockCount).flatten ++
              advancedCounter 32 initialCounter (blockCount + 1)) := by
        unfold gcmCounterStep
        dsimp only
        rw [incrementGcmCounter_eq_some hadvanced, hnext]
        rfl
      rw [List.range_succ, List.foldlM_append, ih, Option.bind_eq_bind, Option.bind_some,
        List.foldlM_cons, hstep, ctrBlocks, ctrBlocks, List.range_succ, List.map_append,
        List.flatten_append, List.map_singleton, List.flatten_singleton, hblock,
        List.append_assoc]
      rfl
  unfold gcmCounterBlocks
  rw [hloop]
  rfl

/-- The masks of the payload in GCM over a block function: the images of the counter blocks of
CTR. -/
theorem gcmKeyStream_blockwise {ε : Type} (function : BlockFunction 16)
    {iv hashSubkey encryptedCounters : ByteString} {blockCount : ℕ}
    (hstream : answer (gcmKeyStream hash iv blockCount (blockwise (ε := ε) function.blocks)) =
      some (.ok (hashSubkey, encryptedCounters))) :
    ∃ initialCounter,
      initialCounterBlock hash (function.apply (List.replicate 16 0)) iv = some initialCounter ∧
        encryptedCounters.drop 16 =
          (ctrBlocks 32 (inc32 initialCounter) blockCount).flatMap function.apply := by
  obtain ⟨hsubkey, initialCounter, counterBlocks, hcounter, hblocks, hcall, -⟩ :=
    gcmKeyStream_eq_ok hash (fun input ↦ .ok (function.blocks input)) hstream
  have hzeros : (List.replicate aesBlockSize (0 : UInt8)).length = 16 := List.length_replicate
  rw [Except.ok.injEq, function.blocks_block (by decide) hzeros] at hsubkey
  rw [gcmInitialCounter_eq_some, Option.some.injEq, ← hsubkey] at hcounter
  have hlength := length_initialCounterBlock hcounter
  rw [gcmCounterBlocks_eq_some hlength, Option.some.injEq] at hblocks
  have hparts : ∀ block ∈ initialCounter :: ctrBlocks 32 (inc32 initialCounter) blockCount,
      block.length = 16 := by
    rw [List.forall_mem_cons]
    exact ⟨hlength, length_inc32 hlength ▸ length_ctrBlocks blockCount⟩
  rw [Except.ok.injEq, ← hblocks, ← List.flatten_cons, function.blocks_flatten (by decide) hparts,
    List.flatMap_cons] at hcall
  refine ⟨initialCounter, hcounter, ?_⟩
  rw [← hcall, List.drop_left' (function.length_apply hlength)]

/-- The ciphertext of GCM is the CTR encryption from the successor of the initial counter block. -/
theorem gcmWith_eq_ctrWith {ε : Type} (function : BlockFunction 16) {iv aad p result : ByteString}
    {tagBits : ℕ}
    (haccepts : answer (gcmWith hash iv aad tagBits p true (blockwise (ε := ε) function.blocks)) =
      some (.ok result)) :
    ∃ initialCounter,
      initialCounterBlock hash (function.apply (List.replicate 16 0)) iv = some initialCounter ∧
        result.length = p.length + tagBits ⌈/⌉ 8 ∧
        answer (ctrWith 32 (inc32 initialCounter) p (blockwise (ε := ε) function.blocks)) =
          some (.ok (result.take p.length)) := by
  obtain ⟨ciphertext, tag, hsealed, rfl⟩ := gcmWith_true_eq_ok_iff.mp haccepts
  have htag := hsealed.length_tag
  have hcount := hsealed.blockCount_le
  obtain ⟨hashSubkey, encryptedCounters, hstream, hmask, hlength, -⟩ := hsealed.key_stream
  obtain ⟨initialCounter, hinitial, hdrop⟩ := gcmKeyStream_blockwise function hstream
  have hblock := length_inc32 (length_initialCounterBlock hinitial)
  have hctr : CtrAccepts 32 (inc32 initialCounter) p := by
    refine ⟨List.length_pos_iff.mp (by omega), by omega, by decide, by omega, ?_⟩
    rw [hblock, hlength]
    omega
  refine ⟨initialCounter, hinitial, by rw [List.length_append, htag, hlength], ?_⟩
  rw [answer_ctrWith function hblock hctr, hlength, List.take_left, ← hdrop, hmask]

end Gcm

/-! ### CCM -/

section Ccm

open Ccm

variable {nonce : ByteString}

/-- The counter block of CCM for a counter: the flags, the nonce and the counter. -/
def ccmCounterBlock (nonce : ByteString) (counter : ℕ) : ByteString :=
  UInt8.ofNat (14 - nonce.length) :: nonce ++ toBeBytes (15 - nonce.length) counter

theorem length_ccmCounterBlock (hnonce : nonce.length ≤ 15) (counter : ℕ) :
    (ccmCounterBlock nonce counter).length = 16 := by
  rw [ccmCounterBlock, List.length_append, List.length_cons, length_toBeBytes]
  omega

/-- The counter blocks of CCM are those of CTR, after the block of the tag. -/
theorem counterBlockList_eq (hnonce : nonce.length ≤ 15) (blockCount : ℕ) :
    counterBlockList (fieldBytes nonce) nonce blockCount =
      ccmCounterBlock nonce 0 ::
        ctrBlocks (8 * (15 - nonce.length)) (ccmCounterBlock nonce 1) blockCount := by
  have hfirst : 15 - nonce.length - 1 = 14 - nonce.length := by omega
  have hlength := length_ccmCounterBlock hnonce 1
  rw [counterBlockList, List.range_succ_eq_map, List.map_cons, List.map_map, ctrBlocks, hfirst]
  congr 1
  apply List.map_congr_left
  intro counter _
  rw [ctrBlock_eq_advancedCounter (by omega) (by omega), ccmCounterBlock, advancedCounter_append,
    Function.comp_apply, Nat.succ_eq_one_add]

/-- A cipher that encrypts blocks with a block function, with any CBC-MAC. -/
def ccmCipher {ε : Type} (function : BlockFunction 16) (mac : ByteString → Except ε ByteString) :
    CcmOperation → ByteString → Except ε ByteString
  | .encryptBlocks, blocks => .ok (function.blocks blocks)
  | .cbcMac, input => mac input

/-- The ciphertext of CCM is the CTR encryption from the counter block of the counter one. -/
theorem ccmWith_eq_ctrWith {ε : Type} (function : BlockFunction 16)
    {mac : ByteString → Except ε ByteString} {aad p result : ByteString} {tagLength : ℕ}
    (haccepts : answer (ccmWith p.length nonce aad tagLength p true fun operation ↦
      answering (ccmCipher function mac operation)) = some (.ok result)) :
    result.length = p.length + tagLength ∧
      answer (ctrWith (8 * (15 - nonce.length)) (ccmCounterBlock nonce 1) p
        (blockwise (ε := ε) function.blocks)) = some (.ok (result.take p.length)) := by
  obtain ⟨ciphertext, tag, hsealed, rfl⟩ := ccmWith_true_eq_ok_iff.mp haccepts
  have htag := hsealed.length_tag
  have hlength := hsealed.length_ciphertext
  have hnonce := hsealed.nonce_le
  have hcapacity := hsealed.capacity_lt
  obtain ⟨keyStream, -, hstream, -, hmask, -⟩ := hsealed.streams
  have hblock : ∀ counter, (ccmCounterBlock nonce counter).length = 16 :=
    length_ccmCounterBlock (by omega)
  have hparts : ∀ block ∈ ccmCounterBlock nonce 0 :: ctrBlocks (8 * (15 - nonce.length))
      (ccmCounterBlock nonce 1) (p.length ⌈/⌉ 16), block.length = 16 := by
    rw [List.forall_mem_cons]
    exact ⟨hblock 0, hblock 1 ▸ length_ctrBlocks _⟩
  have hkeyStream : function.blocks (counterBlocks nonce p.length) = keyStream :=
    Except.ok.inj hstream
  rw [counterBlocks, counterBlockList_eq (by omega), function.blocks_flatten (by decide) hparts,
    List.flatMap_cons] at hkeyStream
  have hctr : CtrAccepts (8 * (15 - nonce.length)) (ccmCounterBlock nonce 1) p := by
    have hone := hblock 1
    refine ⟨List.length_pos_iff.mp (by omega), by omega, by omega, by omega, ?_⟩
    rw [hone]
    omega
  refine ⟨by rw [List.length_append, htag, hlength], ?_⟩
  rw [answer_ctrWith function (hblock 1) hctr, ← hlength, List.take_left, hlength, hmask,
    ← hkeyStream, List.drop_left' (function.length_apply (hblock 0))]

end Ccm

/-- GCM and CCM encryption are instances of CTR. For every block function and all arguments that
are accepted: the ciphertext of GCM is the CTR encryption with 32 counter bits from the successor
of the initial counter block, which is the initialization vector with a counter of one or the hash
of the initialization vector; and the ciphertext of CCM is the CTR encryption with all counter
bits from the counter block of the counter one. The tags are what comes after. -/
theorem ciphertexts_eq_ctrWith {ε : Type} (function : BlockFunction 16) :
    (∀ universalHash iv aad tagBits p result,
      answer (Gcm.gcmWith (Gcm.ghash universalHash) iv aad tagBits p true
          (blockwise (ε := ε) function.blocks)) = some (.ok result) →
        ∃ j0, initialCounterBlock (Gcm.ghash universalHash)
            (function.apply (List.replicate 16 0)) iv = some j0 ∧
          result.length = p.length + tagBits ⌈/⌉ 8 ∧
          answer (ctrWith 32 (Gcm.inc32 j0) p (blockwise (ε := ε) function.blocks)) =
            some (.ok (result.take p.length))) ∧
    ∀ (mac : ByteString → Except ε ByteString) nonce aad tagLength (p result : ByteString),
      answer (Ccm.ccmWith p.length nonce aad tagLength p true fun operation ↦
          answering (ccmCipher function mac operation)) = some (.ok result) →
        result.length = p.length + tagLength ∧
          answer (ctrWith (8 * (15 - nonce.length)) (ccmCounterBlock nonce 1) p
            (blockwise (ε := ε) function.blocks)) = some (.ok (result.take p.length)) :=
  ⟨fun _ _ _ _ _ _ haccepts ↦ gcmWith_eq_ctrWith function haccepts,
    fun _ _ _ _ _ _ haccepts ↦ ccmWith_eq_ctrWith function haccepts⟩

/-- A hash whose last four bytes wrap when they are incremented. -/
def onesHash (_key _blocks : ByteString) : Gcm.Block :=
  List.Vector.replicate 16 0xff

/-- A CBC-MAC of zeros. -/
def zeroMac (_input : ByteString) : Except Unit ByteString :=
  .ok (List.replicate 16 0)

/-- Two blocks of GCM after a hashed initial counter block that wraps, and one block of CCM. -/
theorem ciphertexts_eq_ctrWith_complement :
    (∃ j0, initialCounterBlock (Gcm.ghash onesHash)
        ((BlockPermutation.complement 16).encrypt.apply (List.replicate 16 0)) [0x01] = some j0 ∧
      answer (ctrWith 32 (Gcm.inc32 j0) (List.replicate 17 0x61)
          (blockwise (ε := Unit) (BlockPermutation.complement 16).encrypt.blocks)) =
        some (.ok (List.replicate 12 0x61 ++ List.replicate 4 0x9e ++ [0x61]))) ∧
      answer (ctrWith (8 * (15 - 7)) (ccmCounterBlock [1, 2, 3, 4, 5, 6, 7] 1) [0x61]
          (blockwise (ε := Unit) (BlockPermutation.complement 16).encrypt.blocks)) =
        some (.ok [0x99]) := by
  obtain ⟨hgcm, hccm⟩ :=
    ciphertexts_eq_ctrWith (ε := Unit) (BlockPermutation.complement 16).encrypt
  obtain ⟨j0, hj0, -, hctr⟩ := hgcm onesHash [0x01] [] 32 (List.replicate 17 0x61)
    (List.replicate 12 0x61 ++ List.replicate 4 0x9e ++ [0x61] ++ List.replicate 4 0xff) rfl
  refine ⟨⟨j0, hj0, hctr⟩, ?_⟩
  exact (hccm zeroMac [1, 2, 3, 4, 5, 6, 7] [] 4 [0x61] [0x99, 0xf8, 0xfe, 0xfd, 0xfc] rfl).2

end SoftwareKeyCore.SoftwareSymmetric
