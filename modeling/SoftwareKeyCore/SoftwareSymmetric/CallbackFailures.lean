import SoftwareKeyCore.SoftwareSymmetric.Ccm
import SoftwareKeyCore.SoftwareSymmetric.Cmac
import SoftwareKeyCore.SoftwareSymmetric.Gcm
import SoftwareKeyCore.SoftwareSymmetric.KeyWrapSlices

/-!
# The symmetric constructions over a callback that fails

`software_symmetric.rs`. For every construction over a block operation: whatever the callback
answers, the construction stops at the first call with an error or an output of a length that is
not documented, and no index is out of range (`stops_cbcWith`, `stops_ctrWith`, `stops_cmacWith`,
`stops_cmacWithCbc`, `stops_ccmWith`, `stops_gcmWith`, `stops_keyWrapWith`,
`stops_keyWrapWithPaddingWith`).
-/

set_option autoImplicit false
set_option relaxedAutoImplicit false

namespace SoftwareKeyCore.SoftwareSymmetric

open ByteString CallbackSession CheckedSlice

variable {σ ε : Type}

/-! ### CBC and CTR -/

/-- The states of the decrypting loop of `cbc_with`: the previous block has the block size. -/
def CbcDecryptState (blockSize _count : ℕ) (state : ByteString × ByteString) : Prop :=
  state.1.length = blockSize

/-- A decrypting loop of `cbc_with` over whole blocks stays within bounds. -/
theorem exists_cbcDecryptSteps {blockSize : ℕ} {iv : ByteString} (hiv : iv.length = blockSize)
    (input transformed : ByteString) :
    ∃ final, ((chunksExact blockSize input).zip (chunksExact blockSize transformed)).foldlM
      cbcDecryptStep (iv, []) = some final := by
  have hstep : ∀ blocks ∈ (chunksExact blockSize input).zip (chunksExact blockSize transformed),
      ∀ count state, CbcDecryptState blockSize count state →
        ∃ next, cbcDecryptStep state blocks = some next ∧
          CbcDecryptState blockSize (count + 1) next := by
    intro blocks hblocks count state hstate
    have hblock := length_of_mem_chunksExact (List.of_mem_zip hblocks).1
    rw [CbcDecryptState] at hstate
    refine ⟨(blocks.1, state.2 ++ xorBytes blocks.2 state.1), ?_, hblock⟩
    unfold cbcDecryptStep
    dsimp only
    rw [copyInto_all (hblock.trans hstate.symm)]
    rfl
  have hinitial : CbcDecryptState blockSize 0 (iv, []) := hiv
  obtain ⟨final, hfinal, -⟩ :=
    exists_foldlM_eq_some (CbcDecryptState blockSize) hstep hinitial
  exact ⟨final, hfinal⟩

theorem stops_cbcWith (callback : ByteString × Bool → StateM σ (Except ε ByteString))
    (blockSize : ℕ) (iv input : ByteString) (encrypting : Bool) :
    Stops (fun query ↦ query.1.length) BlockCipherModeError.blockOperation .invalidBlockOutput
      (cbcWith blockSize iv input encrypting fun block encrypting ↦
        observed callback (block, encrypting)) fun _ ↦ True := by
  unfold cbcWith
  refine stops_ite (fun _ ↦ stops_throw _ _) fun hsize ↦ ?_
  refine stops_ite (fun _ ↦ stops_throw _ _) fun hiv ↦ ?_
  refine stops_ite (fun _ ↦ stops_throw _ _) fun hinput ↦ ?_
  rw [not_not] at hiv
  refine stops_ite (fun _ ↦ ?_) fun _ ↦ ?_
  · have hloop : Stops (fun query ↦ query.1.length) BlockCipherModeError.blockOperation
        .invalidBlockOutput ((chunksExact blockSize input).foldlM (cbcEncryptStep blockSize
          fun block encrypting ↦ observed callback (block, encrypting)) (iv, []))
        fun state ↦ state.1.length = blockSize := by
      refine Stops.foldlM (fun block hblock state hstate ↦ ?_) hiv
      obtain ⟨previous, output⟩ := state
      dsimp only at hstate
      have hmixed : (xorBytes block previous).length = blockSize := by
        rw [length_xorBytes, length_of_mem_chunksExact hblock, hstate, min_self]
      unfold cbcEncryptStep
      refine (stops_checkedCall callback hmixed).bind fun encrypted hencrypted ↦ ?_
      exact stops_orPanic_bind (copyInto_all (hencrypted.trans hstate.symm))
        (stops_pure hencrypted)
    exact hloop.bind fun state _ ↦ stops_pure trivial
  · refine (stops_checkedCall callback rfl).bind fun transformed _ ↦ ?_
    obtain ⟨final, hfinal⟩ := exists_cbcDecryptSteps hiv input transformed
    exact stops_orPanic_bind hfinal (stops_pure trivial)

theorem stops_ctrWith (callback : ByteString → StateM σ (Except ε ByteString))
    (counterBits : ℕ) (counterBlock input : ByteString) :
    Stops List.length BlockCipherModeError.blockOperation .invalidBlockOutput
      (ctrWith counterBits counterBlock input (observed callback)) fun _ ↦ True := by
  by_cases haccepts : CtrAccepts counterBits counterBlock input
  · rw [ctrWith_of_accepts haccepts]
    exact (stops_checkedCall callback rfl).bind fun keyStream _ ↦ stops_pure trivial
  · obtain ⟨error, herror⟩ := exists_ctrWith_eq_throw haccepts (observed callback)
    rw [herror]
    exact stops_throw error _

/-! ### CMAC -/

open Cmac in
/-- The subkey of a CMAC is computed within bounds, from one call. -/
theorem stops_cmacLastSubkey {Query : Type} {documented : Query → ℕ}
    (callback : Query → StateM σ (Except ε ByteString)) {ask : ByteString → Query}
    (hask : ∀ block, documented (ask block) = block.length) (blockSize : ℕ) (data : ByteString) :
    Stops documented BlockCipherModeError.blockOperation .invalidBlockOutput
      (cmacLastSubkey blockSize data fun block ↦ observed callback (ask block)) fun result ↦
        0 < blockSize ∧ result.1.length = blockSize ∧
          IsCut blockSize data result.2 (max 1 (data.length ⌈/⌉ blockSize)) := by
  unfold cmacLastSubkey
  refine stops_ite (fun _ ↦ stops_throw _ _) fun hsize ↦ ?_
  have hpositive : 0 < blockSize := by
    rw [not_not] at hsize
    omega
  have hzeros : documented (ask (List.replicate blockSize 0)) = blockSize := by
    rw [hask, List.length_replicate]
  refine (stops_checkedCall callback hzeros).bind fun encryptedZero hlength ↦ ?_
  obtain ⟨subkey, hsubkey, hsubkeyLength⟩ :=
    exists_cmacDouble (List.length_pos_iff.mp (by omega) : encryptedZero ≠ [])
  obtain ⟨doubled, hdoubled, hdoubledLength⟩ :=
    exists_cmacDouble (List.length_pos_iff.mp (by omega) : subkey ≠ [])
  refine stops_orPanic_bind hsubkey ?_
  dsimp only
  rw [hdoubled]
  have hcut := isCut_ceilDiv hpositive data
  by_cases hcomplete : data ≠ [] ∧ blockSize ∣ data.length
  · rw [decide_eq_true hcomplete] at hcut ⊢
    exact stops_orPanic_bind (if_pos rfl) (stops_pure ⟨hpositive, by dsimp only; omega, hcut⟩)
  · rw [decide_eq_false hcomplete] at hcut ⊢
    exact stops_orPanic_bind (if_neg Bool.false_ne_true)
      (stops_pure ⟨hpositive, by dsimp only; omega, hcut⟩)

open Cmac in
theorem stops_cmacWith (callback : ByteString → StateM σ (Except ε ByteString)) (blockSize : ℕ)
    (data : ByteString) :
    Stops List.length BlockCipherModeError.blockOperation .invalidBlockOutput
      (cmacWith blockSize data (observed callback)) fun _ ↦ True := by
  unfold cmacWith
  refine (stops_cmacLastSubkey callback (fun block ↦ rfl) blockSize data).bind
    fun result hresult ↦ ?_
  obtain ⟨lastSubkey, complete⟩ := result
  obtain ⟨hsize, hsubkey, hcut⟩ := hresult
  dsimp only at hsubkey hcut ⊢
  have hloop : Stops List.length BlockCipherModeError.blockOperation .invalidBlockOutput
      ((List.range (max 1 (data.length ⌈/⌉ blockSize))).foldlM (fun state blockIndex ↦ do
        let block ← orPanic (cmacBlock blockSize data lastSubkey complete
          (max 1 (data.length ⌈/⌉ blockSize)) state blockIndex)
        checkedCall .blockOperation .invalidBlockOutput blockSize (observed callback block))
        (List.replicate blockSize 0)) fun state ↦ state.length = blockSize := by
    refine Stops.foldlM (fun blockIndex hindex state hstate ↦ ?_) List.length_replicate
    rw [List.mem_range] at hindex
    refine stops_orPanic_bind (cmacBlock_eq_some hcut hsubkey hstate hindex) ?_
    exact stops_checkedCall callback (length_preparedBlock hcut hsubkey hstate hindex)
  exact hloop.mono fun _ _ ↦ trivial

/-- The documented lengths of the outputs of the two callbacks of `cmac_with_cbc`: a block and a
ciphertext as long as the input. -/
def cmacDocumented (query : ByteString ⊕ ByteString) : ℕ :=
  query.elim List.length List.length

open Cmac in
theorem stops_cmacWithCbc (callback : ByteString ⊕ ByteString → StateM σ (Except ε ByteString))
    (blockSize : ℕ) (data : ByteString) :
    Stops cmacDocumented BlockCipherModeError.blockOperation .invalidBlockOutput
      (cmacWithCbc blockSize data (fun block ↦ observed callback (.inl block))
        fun input ↦ observed callback (.inr input)) fun _ ↦ True := by
  unfold cmacWithCbc
  refine (stops_cmacLastSubkey callback (fun block ↦ rfl) blockSize data).bind
    fun result hresult ↦ ?_
  obtain ⟨lastSubkey, complete⟩ := result
  obtain ⟨hsize, hsubkey, hcut⟩ := hresult
  dsimp only at hsubkey hcut ⊢
  have hpadding := hcut.length_add_padding
  refine stops_orPanic_bind (padding_eq_some hsize complete data) ?_
  cases hsum : checkedAdd data.length
      (if complete then 0 else blockSize - data.length % blockSize) with
  | none => exact stops_throw _ _
  | some paddedLength =>
    rw [checkedAdd_eq_some_iff, hpadding] at hsum
    obtain ⟨-, rfl⟩ := hsum
    refine stops_orPanic_bind (cmacInput_eq_some hcut hsubkey) ?_
    refine (stops_checkedCall callback (length_preparedData hcut hsubkey)).bind
      fun ciphertext hciphertext ↦ ?_
    have hle := Nat.le_mul_of_pos_left blockSize hcut.blockCount_pos
    rw [subtract_eq_some hle, Option.bind_eq_bind, Option.bind_some,
      sliceFrom_eq_some (by omega)]
    exact stops_pure trivial

/-! ### CCM and GCM -/

open Ccm in
/-- The documented lengths of the outputs of the cipher of `ccm_with`: as long as the blocks, and
one block. -/
def ccmDocumented : CcmOperation × ByteString → ℕ
  | (.encryptBlocks, blocks) => blocks.length
  | (.cbcMac, _) => aesBlockSize

open Ccm in
/-- An input of the expected length is cut within bounds. -/
theorem exists_ccmSplit {ε : Type} {dataLength tagLength expectedInput : ℕ} {input : ByteString}
    {encrypting : Bool}
    (hexpected : ccmExpectedInput (ε := ε) dataLength tagLength encrypting = .ok expectedInput)
    (hinput : input.length = expectedInput) :
    ∃ payload suppliedTag, ccmSplit dataLength input encrypting = some (payload, suppliedTag) ∧
      payload.length = dataLength := by
  unfold ccmSplit
  cases encrypting with
  | true =>
    rw [ccmExpectedInput, if_pos rfl] at hexpected
    exact ⟨input, none, rfl, hinput.trans (Except.ok.inj hexpected).symm⟩
  | false =>
    rw [ccmExpectedInput, if_neg Bool.false_ne_true, FallibleResult.orError_eq_ok_iff,
      checkedAdd_eq_some_iff] at hexpected
    have hlength : dataLength ≤ input.length := by omega
    rw [if_neg Bool.false_ne_true, sliceTo_eq_some hlength, sliceFrom_eq_some hlength]
    exact ⟨_, _, rfl, List.length_take_of_le hlength⟩

open Ccm in
theorem stops_ccmTransform
    (callback : CcmOperation × ByteString → StateM σ (Except ε ByteString)) {lengthBytes : ℕ}
    {nonce : ByteString} (hfill : lengthBytes + nonce.length = 15) (hlength : lengthBytes ≤ 8)
    {tagLength : ℕ} (htag : tagLength ≤ 16) (dataLength : ℕ) (aad payload : ByteString)
    (encrypting : Bool) :
    Stops ccmDocumented CcmError.blockOperation .invalidBlockOutput
      (ccmTransform lengthBytes dataLength nonce aad tagLength payload encrypting
        fun operation input ↦ observed callback (operation, input)) fun _ ↦ True := by
  have hblocks := length_flatten_counterBlockList hfill (dataLength ⌈/⌉ aesBlockSize)
  unfold ccmTransform
  refine (stops_orThrow fun _ _ ↦ trivial).bind fun _ _ ↦ ?_
  refine stops_orPanic_bind (ccmCounterBlocks_eq_some hfill hlength _) ?_
  refine (stops_checkedCall callback rfl).bind fun keyStream hkeyStream ↦ ?_
  replace hkeyStream := hkeyStream.trans hblocks
  refine stops_orPanic_bind (sliceFrom_eq_some (by simp only [aesBlockSize]; omega)) ?_
  refine stops_orPanic_bind (ccmMacInput_eq_some hfill hlength _ _ _ _) ?_
  refine (stops_checkedCall callback rfl).bind fun mac hmac ↦ ?_
  replace hmac : mac.length = 16 := hmac
  refine stops_orPanic_bind (sliceTo_eq_some (by omega)) ?_
  exact stops_orPanic_bind (sliceTo_eq_some (by omega)) (stops_pure trivial)

open Ccm in
theorem stops_ccmWith (callback : CcmOperation × ByteString → StateM σ (Except ε ByteString))
    (dataLength : ℕ) (nonce aad : ByteString) (tagLength : ℕ) (input : ByteString)
    (encrypting : Bool) :
    Stops ccmDocumented CcmError.blockOperation .invalidBlockOutput
      (ccmWith dataLength nonce aad tagLength input encrypting
        fun operation input ↦ observed callback (operation, input)) fun _ ↦ True := by
  unfold ccmWith
  refine stops_ite (fun _ ↦ stops_throw _ _) fun hnonce ↦ ?_
  refine stops_ite (fun _ ↦ stops_throw _ _) fun htag ↦ ?_
  rw [not_not] at hnonce htag
  refine stops_orPanic_bind (subtract_eq_some (by omega)) ?_
  refine stops_ite (fun _ ↦ stops_throw _ _) fun _ ↦ ?_
  refine stops_ite (fun _ ↦ stops_throw _ _) fun _ ↦ ?_
  refine (stops_orThrow fun _ hexpected ↦ hexpected).bind fun expectedInput hexpected ↦ ?_
  refine stops_ite (fun _ ↦ stops_throw _ _) fun hinput ↦ ?_
  rw [not_not] at hinput
  obtain ⟨payload, suppliedTag, hsplit, -⟩ := exists_ccmSplit hexpected hinput
  refine stops_orPanic_bind hsplit ?_
  refine (stops_ccmTransform callback (by omega) (by omega) (tagLength_le_of_mem htag) _ _ _
    _).bind fun result _ ↦ ?_
  obtain ⟨transformed, tag⟩ := result
  cases suppliedTag with
  | none => exact stops_pure trivial
  | some suppliedTag => exact stops_ite (fun _ ↦ stops_pure trivial) fun _ ↦ stops_throw _ _

open Gcm in
theorem stops_gcmSplit {documented : ByteString → ℕ} (tagLength : ℕ) (input : ByteString)
    (encrypting : Bool) :
    Stops (σ := σ) documented (GcmError.blockOperation (ε := ε))
      .invalidBlockOutput (gcmSplit tagLength input encrypting) fun _ ↦ True := by
  unfold gcmSplit
  refine stops_ite (fun _ ↦ stops_pure trivial) fun _ ↦ ?_
  refine stops_ite (fun _ ↦ stops_throw _ _) fun hlength ↦ ?_
  rw [not_lt] at hlength
  refine stops_orPanic_bind (subtract_eq_some hlength) ?_
  refine stops_orPanic_bind (sliceTo_eq_some (Nat.sub_le _ _)) ?_
  exact stops_orPanic_bind (sliceFrom_eq_some (Nat.sub_le _ _)) (stops_pure trivial)

open Gcm in
/-- The two calls of `gcm_with`. -/
theorem stops_gcmKeyStream (callback : ByteString → StateM σ (Except ε ByteString))
    (hash : ByteString → ByteString → ByteString → Option Block) (iv : ByteString)
    (blockCount : ℕ) :
    Stops List.length GcmError.blockOperation .invalidBlockOutput
      (gcmKeyStream hash iv blockCount (observed callback)) fun result ↦
        aesBlockSize ≤ result.2.length := by
  unfold gcmKeyStream
  refine (stops_checkedCall callback List.length_replicate).bind fun hashSubkey _ ↦ ?_
  obtain ⟨counter, hcounter, hblock⟩ := exists_gcmInitialCounter hash hashSubkey iv
  refine stops_orPanic_bind hcounter ?_
  refine (stops_orThrow fun initialCounter hinitial ↦
    hblock initialCounter (FallibleResult.orError_eq_ok_iff.mp hinitial)).bind
      fun initialCounter hinitial ↦ ?_
  refine (stops_orThrow fun _ _ ↦ trivial).bind fun _ _ ↦ ?_
  obtain ⟨counterBlocks, hblocks, hlength⟩ := exists_gcmCounterBlocks hinitial blockCount
  refine stops_orPanic_bind hblocks ?_
  refine (stops_checkedCall callback rfl).bind fun encryptedCounters hencrypted ↦ ?_
  refine stops_pure ?_
  simp only [aesBlockSize]
  omega

open Gcm in
theorem stops_gcmWith (callback : ByteString → StateM σ (Except ε ByteString))
    (hash : ByteString → ByteString → ByteString → Option Block) (iv aad : ByteString)
    (tagBits : ℕ) (input : ByteString) (encrypting : Bool) :
    Stops List.length GcmError.blockOperation .invalidBlockOutput
      (gcmWith hash iv aad tagBits input encrypting (observed callback)) fun _ ↦ True := by
  unfold gcmWith
  refine stops_ite (fun _ ↦ stops_throw _ _) fun _ ↦ ?_
  refine stops_ite (fun _ ↦ stops_throw _ _) fun hbits ↦ ?_
  simp only [aesBlockSize, not_lt] at hbits
  refine (stops_gcmSplit _ _ _).bind fun split _ ↦ ?_
  obtain ⟨payload, suppliedTag⟩ := split
  refine stops_ite (fun _ ↦ stops_throw _ _) fun _ ↦ ?_
  refine (stops_gcmKeyStream callback hash iv _).bind fun stream hstream ↦ ?_
  obtain ⟨hashSubkey, encryptedCounters⟩ := stream
  dsimp only at hstream ⊢
  have htransform : Stops List.length GcmError.blockOperation .invalidBlockOutput
      (gcmTransform (m := Observed σ ByteString ε) hash aad tagBits payload encrypting hashSubkey
        encryptedCounters) fun _ ↦ True := by
    unfold gcmTransform
    refine stops_orPanic_bind (sliceFrom_eq_some hstream) ?_
    refine (stops_orThrow fun _ _ ↦ trivial).bind fun value _ ↦ ?_
    refine stops_orPanic_bind (sliceTo_eq_some hstream) ?_
    have hfull : (xorBytes (encryptedCounters.take aesBlockSize) value.toList).length = 16 := by
      rw [length_xorBytes, List.length_take_of_le hstream, value.toList_length, min_self]
    obtain ⟨tag, htag, -⟩ := exists_gcmTag hfull hbits
    exact stops_orPanic_bind htag (stops_pure trivial)
  refine htransform.bind fun result _ ↦ ?_
  obtain ⟨transformed, expectedTag⟩ := result
  cases suppliedTag with
  | none => exact stops_pure trivial
  | some suppliedTag => exact stops_ite (fun _ ↦ stops_pure trivial) fun _ ↦ stops_throw _ _

/-! ### The key wraps -/

section

open KeyWrap

/-- The documented length of the output of the block operation of the key wraps. -/
def keyWrapDocumented (_query : ByteString × Bool) : ℕ :=
  KeyWrap.aesBlockSize

variable (callback : ByteString × Bool → StateM σ (Except ε ByteString))

theorem stops_transformBlock (block : ByteString) (encrypting : Bool) :
    Stops keyWrapDocumented KeyWrapError.blockOperation .invalidBlockOutput
      (transformBlock (fun block encrypting ↦ observed callback (block, encrypting)) block
        encrypting) fun _ ↦ True :=
  (stops_checkedCall callback rfl).mono fun _ _ ↦ trivial

theorem stops_keyWrapRounds (a r : ByteString) (encrypting : Bool) :
    Stops keyWrapDocumented KeyWrapError.blockOperation .invalidBlockOutput
      (keyWrapRounds a r encrypting fun block encrypting ↦
        observed callback (block, encrypting)) fun _ ↦ True := by
  unfold keyWrapRounds
  refine stops_ite (fun _ ↦ ?_) fun _ ↦ ?_
  · refine Stops.foldlM (fun round _ state _ ↦ ?_) trivial
    refine Stops.foldlM (fun index _ state _ ↦ ?_) trivial
    exact (stops_transformBlock callback _ true).bind fun _ _ ↦ stops_pure trivial
  · refine Stops.foldlM (fun round _ state _ ↦ ?_) trivial
    refine Stops.foldlM (fun index _ state _ ↦ ?_) trivial
    exact (stops_transformBlock callback _ false).bind fun _ _ ↦ stops_pure trivial

theorem stops_keyWrapWith (input : ByteString) (encrypting : Bool) (initialValue : ByteString) :
    Stops keyWrapDocumented KeyWrapError.blockOperation .invalidBlockOutput
      (Checked.keyWrapWith input encrypting initialValue fun block encrypting ↦
        observed callback (block, encrypting)) fun _ ↦ True := by
  rw [Checked.keyWrapWith_eq]
  unfold keyWrapWith
  refine stops_ite (fun _ ↦ stops_throw _ _) fun _ ↦ ?_
  refine stops_ite (fun _ ↦ ?_) fun _ ↦ ?_
  · refine stops_ite (fun _ ↦ stops_throw _ _) fun _ ↦ ?_
    exact (stops_keyWrapRounds callback _ _ true).bind fun _ _ ↦ stops_pure trivial
  · refine stops_ite (fun _ ↦ stops_throw _ _) fun _ ↦ ?_
    refine (stops_keyWrapRounds callback _ _ false).bind fun _ _ ↦ ?_
    exact stops_ite (fun _ ↦ stops_pure trivial) fun _ ↦ stops_throw _ _

theorem stops_keyWrapWithPaddingWith (input : ByteString) (encrypting : Bool)
    (alternativeInitialValue : ByteString) :
    Stops keyWrapDocumented KeyWrapError.blockOperation .invalidBlockOutput
      (Checked.keyWrapWithPaddingWith input encrypting alternativeInitialValue
        fun block encrypting ↦ observed callback (block, encrypting)) fun _ ↦ True := by
  rw [Checked.keyWrapWithPaddingWith_eq]
  unfold keyWrapWithPaddingWith
  refine stops_ite (fun _ ↦ stops_throw _ _) fun _ ↦ ?_
  refine stops_ite (fun _ ↦ ?_) fun _ ↦ ?_
  · refine stops_ite (fun _ ↦ stops_throw _ _) fun _ ↦ ?_
    refine stops_ite (fun _ ↦ stops_transformBlock callback _ true) fun _ ↦ ?_
    exact (stops_keyWrapRounds callback _ _ true).bind fun _ _ ↦ stops_pure trivial
  · refine stops_ite (fun _ ↦ stops_throw _ _) fun _ ↦ ?_
    have hfields : Stops keyWrapDocumented KeyWrapError.blockOperation .invalidBlockOutput
        (unwrapPaddedFields (input.length / keyWrapSemiblockSize - 1) input
          fun block encrypting ↦ observed callback (block, encrypting)) fun _ ↦ True := by
      unfold unwrapPaddedFields
      refine stops_ite (fun _ ↦ ?_) fun _ ↦ stops_keyWrapRounds callback _ _ false
      exact (stops_transformBlock callback _ false).bind fun _ _ ↦ stops_pure trivial
    refine hfields.bind fun _ _ ↦ ?_
    exact stops_ite (fun _ ↦ stops_throw _ _) fun _ ↦ stops_pure trivial

end

end SoftwareKeyCore.SoftwareSymmetric
