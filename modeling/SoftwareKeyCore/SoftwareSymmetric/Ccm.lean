import SoftwareKeyCore.SoftwareSymmetric.BlockCipherModes

/-!
# CCM over a caller-supplied cipher

`software_symmetric.rs`, `ccm_with`, for both directions. The cipher is one callback with two
operations, the encryption of blocks and the CBC-MAC, in any monad that has panics.

`ccmCounterBlocks` and `ccmMacInput` are the two byte strings that the callback receives. They are
computed without a panic from accepted arguments (`ccmCounterBlocks_eq_some`,
`ccmMacInput_eq_some`). `ccmWith_true_eq_ok_iff` and `ccmWith_false_eq_ok_iff` say what an
accepted call computes, and `ccmWith_decrypt_iff_encrypt` that decryption accepts exactly the
results of encryption.
-/

set_option autoImplicit false
set_option relaxedAutoImplicit false

namespace SoftwareKeyCore.Ccm

open ByteString CallbackSession CheckedSlice FallibleResult Panicking SoftwareSymmetric

/-- `CcmOperation`. -/
inductive CcmOperation
  | encryptBlocks
  | cbcMac
  deriving DecidableEq, Repr

/-- `CcmError`, over the error type of the cipher. -/
inductive CcmError (ε : Type)
  | invalidNonceLength
  | invalidTagLength
  | invalidDataLength
  | inputTooLong
  | invalidBlockOutput
  | authenticationFailed
  | blockOperation (error : ε)
  deriving DecidableEq, Repr

/-- A block of `ccm_with`: a first byte, the nonce, and a number in the last bytes. -/
def ccmBlock (first : UInt8) (nonce : ByteString) (lengthBytes number : ℕ) :
    Option ByteString := do
  let block := List.replicate aesBlockSize 0
  let block ← setByte block 0 first
  let block ← copyInto block 1 (1 + nonce.length) nonce
  let encoded := toBeBytes 8 number
  let skipped ← subtract encoded.length lengthBytes
  let start ← subtract aesBlockSize lengthBytes
  let encoded ← sliceFrom encoded skipped
  copyInto block start block.length encoded

/-- The counter blocks of `ccm_with`, for the counters up to the number of blocks. -/
def ccmCounterBlocks (lengthBytes : ℕ) (nonce : ByteString) (blockCount : ℕ) :
    Option ByteString :=
  (List.range (blockCount + 1)).foldlM (fun counterBlocks counter ↦ do
    let block ← ccmBlock (UInt8.ofNat (lengthBytes - 1)) nonce lengthBytes counter
    some (counterBlocks ++ block)) []

/-- The first byte of `b0` of `ccm_with`. -/
def ccmFlags (aad : ByteString) (tagLength lengthBytes : ℕ) : UInt8 :=
  (if aad = [] then (0 : UInt8) else 1) <<< 6 ||| UInt8.ofNat ((tagLength - 2) / 2) <<< 3 |||
    UInt8.ofNat (lengthBytes - 1)

/-- `usize::next_multiple_of` and `Vec::resize` with zeros. -/
def padToBlocks (bytes : ByteString) : ByteString :=
  resize bytes (bytes.length ⌈/⌉ aesBlockSize * aesBlockSize) 0

/-- The encoding of the length of nonempty associated data. -/
def ccmAadLength (length : ℕ) : ByteString :=
  if length < 0xff00 then toBeBytes 2 length else [0xff, 0xfe] ++ toBeBytes 4 length

/-- The input of the CBC-MAC of `ccm_with`. -/
def ccmMacInput (lengthBytes : ℕ) (nonce aad : ByteString) (tagLength dataLength : ℕ)
    (plaintext : ByteString) : Option ByteString := do
  let b0 ← ccmBlock (ccmFlags aad tagLength lengthBytes) nonce lengthBytes dataLength
  let macInput := b0
  let macInput := if aad = [] then macInput
    else padToBlocks (macInput ++ ccmAadLength aad.length ++ aad)
  some (padToBlocks (macInput ++ plaintext))

section Constructions

variable {m : Type → Type} [Monad m] [CanPanic m] {ε : Type}

/-- The expected length of the input. -/
def ccmExpectedInput (dataLength tagLength : ℕ) (encrypting : Bool) : Except (CcmError ε) ℕ :=
  if encrypting then .ok dataLength
  else orError .inputTooLong (checkedAdd dataLength tagLength)

/-- The payload of an input, and the supplied tag when decrypting. -/
def ccmSplit (dataLength : ℕ) (input : ByteString) (encrypting : Bool) :
    Option (ByteString × Option ByteString) :=
  if encrypting then some (input, none)
  else do
    let payload ← sliceTo input dataLength
    let suppliedTag ← sliceFrom input dataLength
    some (payload, some suppliedTag)

/-- `ccm_with` after the checks of the arguments: the masked payload and its tag. -/
def ccmTransform (lengthBytes dataLength : ℕ) (nonce aad : ByteString) (tagLength : ℕ)
    (payload : ByteString) (encrypting : Bool)
    (crypt : CcmOperation → ByteString → m (Except ε ByteString)) :
    ExceptT (CcmError ε) m (ByteString × ByteString) := do
  let blockCount := dataLength ⌈/⌉ aesBlockSize
  let _counterCapacity ← orThrow (orError .inputTooLong
    ((checkedAdd blockCount 1).bind fun blocks ↦ checkedMul blocks aesBlockSize))
  let counterBlocks ← orPanic (ccmCounterBlocks lengthBytes nonce blockCount)
  let keyStream ← checkedCall .blockOperation .invalidBlockOutput counterBlocks.length
    (crypt .encryptBlocks counterBlocks)
  let payloadKeyStream ← orPanic (sliceFrom keyStream aesBlockSize)
  let transformed := maskBlocks payload payloadKeyStream
  let plaintext := if encrypting then payload else transformed
  let macInput ← orPanic (ccmMacInput lengthBytes nonce aad tagLength dataLength plaintext)
  let mac ← checkedCall .blockOperation .invalidBlockOutput aesBlockSize (crypt .cbcMac macInput)
  let mac ← orPanic (sliceTo mac tagLength)
  let mask ← orPanic (sliceTo keyStream tagLength)
  pure (transformed, xorBytes mac mask)

/-- `ccm_with`. -/
def ccmWith (dataLength : ℕ) (nonce aad : ByteString) (tagLength : ℕ) (input : ByteString)
    (encrypting : Bool) (crypt : CcmOperation → ByteString → m (Except ε ByteString)) :
    ExceptT (CcmError ε) m ByteString :=
  if ¬ (7 ≤ nonce.length ∧ nonce.length ≤ 13) then throw .invalidNonceLength
  else if tagLength ∉ [4, 6, 8, 10, 12, 14, 16] then throw .invalidTagLength
  else do
    let lengthBytes ← orPanic (subtract 15 nonce.length)
    if lengthBytes < 8 ∧ 2 ^ (lengthBytes * 8) ≤ dataLength then throw .inputTooLong
    else if 2 ^ 32 - 1 < aad.length then throw .inputTooLong
    else do
      let expectedInput ← orThrow (ccmExpectedInput dataLength tagLength encrypting)
      if input.length ≠ expectedInput then throw .invalidDataLength
      else do
        let (payload, suppliedTag) ← orPanic (ccmSplit dataLength input encrypting)
        let (transformed, tag) ←
          ccmTransform lengthBytes dataLength nonce aad tagLength payload encrypting crypt
        match suppliedTag with
        | some suppliedTag =>
          if tag = suppliedTag then pure transformed else throw .authenticationFailed
        | none => pure (transformed ++ tag)

end Constructions

/-! ### The formatted blocks -/

section Formatting

variable {lengthBytes : ℕ} {nonce : ByteString}

/-- A block is its first byte, the nonce and the number. -/
theorem ccmBlock_eq_some (hfill : lengthBytes + nonce.length = 15) (hlength : lengthBytes ≤ 8)
    (first : UInt8) (number : ℕ) :
    ccmBlock first nonce lengthBytes number =
      some (first :: nonce ++ toBeBytes lengthBytes number) := by
  have hzeros : (List.replicate aesBlockSize (0 : UInt8)).set 0 first =
      first :: List.replicate 15 0 := rfl
  have hnonce : copyInto (first :: List.replicate 15 0) 1 (1 + nonce.length) nonce =
      some (first :: nonce ++ List.replicate lengthBytes 0) := by
    rw [copyInto_eq_some (Nat.le_add_right _ _) (by simp; omega) (by omega), writeSlice,
      List.take_succ_cons, List.take_zero, Nat.add_comm 1 nonce.length, List.drop_succ_cons,
      List.drop_replicate, ← hfill, Nat.add_sub_cancel]
    rfl
  have hencoded : (toBeBytes 8 number).drop (8 - lengthBytes) = toBeBytes lengthBytes number :=
    drop_toBeBytes hlength number
  have hblock : (first :: nonce ++ List.replicate lengthBytes 0).length = 16 := by
    simp
    omega
  have hhead : (first :: nonce).length = 16 - lengthBytes := by
    rw [List.length_cons]
    omega
  unfold ccmBlock
  simp only [aesBlockSize, Option.bind_eq_bind] at hzeros ⊢
  rw [setByte_eq_some (by simp), hzeros, Option.bind_some, hnonce, Option.bind_some,
    length_toBeBytes, subtract_eq_some hlength, Option.bind_some, subtract_eq_some (by omega),
    Option.bind_some, sliceFrom_eq_some (by rw [length_toBeBytes]; omega), hencoded,
    Option.bind_some,
    copyInto_length (by rw [hblock]; omega) (by rw [hblock, length_toBeBytes]; omega),
    List.take_left' hhead]

/-- The counter blocks, one after the other. -/
def counterBlockList (lengthBytes : ℕ) (nonce : ByteString) (blockCount : ℕ) : List ByteString :=
  (List.range (blockCount + 1)).map fun counter ↦
    UInt8.ofNat (lengthBytes - 1) :: nonce ++ toBeBytes lengthBytes counter

theorem length_counterBlockList (hfill : lengthBytes + nonce.length = 15) (blockCount : ℕ) :
    ∀ block ∈ counterBlockList lengthBytes nonce blockCount, block.length = 16 := by
  intro block hmem
  obtain ⟨counter, -, rfl⟩ := List.mem_map.mp hmem
  simp
  omega

theorem ccmCounterBlocks_eq_some (hfill : lengthBytes + nonce.length = 15)
    (hlength : lengthBytes ≤ 8) (blockCount : ℕ) :
    ccmCounterBlocks lengthBytes nonce blockCount =
      some (counterBlockList lengthBytes nonce blockCount).flatten := by
  apply foldlM_append_eq_some
  intro counter _
  exact ccmBlock_eq_some hfill hlength _ counter

theorem length_flatten_counterBlockList (hfill : lengthBytes + nonce.length = 15)
    (blockCount : ℕ) :
    (counterBlockList lengthBytes nonce blockCount).flatten.length = (blockCount + 1) * 16 := by
  rw [length_flatten_of_forall (length_counterBlockList hfill blockCount), counterBlockList,
    List.length_map, List.length_range]

/-- The associated data as the CBC-MAC reads them: nothing, or their length, the data and zeros
to the end of a block. -/
def macAad (aad : ByteString) : ByteString :=
  if aad = [] then [] else padToBlocks (ccmAadLength aad.length ++ aad)

/-- Padding adds zeros. -/
theorem padToBlocks_eq (bytes : ByteString) :
    padToBlocks bytes =
      bytes ++ List.replicate (bytes.length ⌈/⌉ 16 * 16 - bytes.length) 0 :=
  resize_of_le (le_ceilDiv_mul (by decide) bytes.length) 0

theorem length_padToBlocks (bytes : ByteString) :
    (padToBlocks bytes).length = bytes.length ⌈/⌉ 16 * 16 :=
  length_resize _ _ _

/-- Padding after whole blocks pads the rest. -/
theorem padToBlocks_append {blocks : ByteString} {count : ℕ} (hblocks : blocks.length = count * 16)
    (bytes : ByteString) : padToBlocks (blocks ++ bytes) = blocks ++ padToBlocks bytes := by
  have hceil : (count * 16 + bytes.length) ⌈/⌉ 16 = count + bytes.length ⌈/⌉ 16 := by
    simp only [Nat.ceilDiv_eq_add_pred_div]
    omega
  rw [padToBlocks_eq, padToBlocks_eq, List.length_append, hblocks, hceil, List.append_assoc,
    add_mul, Nat.add_sub_add_left]

/-- The input of the CBC-MAC: a block, the associated data and the padded plaintext. -/
theorem ccmMacInput_eq_some (hfill : lengthBytes + nonce.length = 15) (hlength : lengthBytes ≤ 8)
    (aad : ByteString) (tagLength dataLength : ℕ) (plaintext : ByteString) :
    ccmMacInput lengthBytes nonce aad tagLength dataLength plaintext =
      some ((ccmFlags aad tagLength lengthBytes :: nonce ++ toBeBytes lengthBytes dataLength) ++
        (macAad aad ++ padToBlocks plaintext)) := by
  have hblock : (ccmFlags aad tagLength lengthBytes :: nonce ++
      toBeBytes lengthBytes dataLength).length = 1 * 16 := by
    simp
    omega
  unfold ccmMacInput
  rw [ccmBlock_eq_some hfill hlength, Option.bind_eq_bind, Option.bind_some]
  dsimp only
  by_cases haad : aad = []
  · rw [if_pos haad, macAad, if_pos haad, padToBlocks_append hblock, List.nil_append]
  · have haadLength : (ccmFlags aad tagLength lengthBytes :: nonce ++
        toBeBytes lengthBytes dataLength ++
          padToBlocks (ccmAadLength aad.length ++ aad)).length =
            (1 + (ccmAadLength aad.length ++ aad).length ⌈/⌉ 16) * 16 := by
      rw [List.length_append, hblock, length_padToBlocks, ← add_mul]
    rw [if_neg haad, macAad, if_neg haad, List.append_assoc _ (ccmAadLength _),
      padToBlocks_append hblock, padToBlocks_append haadLength, List.append_assoc]

end Formatting

/-! ### The two directions -/

/-- The number of bytes of the length and counter fields. -/
abbrev fieldBytes (nonce : ByteString) : ℕ :=
  15 - nonce.length

/-- The bytes that the block encryptor receives. -/
def counterBlocks (nonce : ByteString) (dataLength : ℕ) : ByteString :=
  (counterBlockList (fieldBytes nonce) nonce (dataLength ⌈/⌉ 16)).flatten

/-- The bytes that the CBC-MAC receives. -/
def macInput (nonce aad : ByteString) (tagLength : ℕ) (plaintext : ByteString) : ByteString :=
  (ccmFlags aad tagLength (fieldBytes nonce) :: nonce ++
    toBeBytes (fieldBytes nonce) plaintext.length) ++ (macAad aad ++ padToBlocks plaintext)

/-- The arguments that `ccm_with` accepts, for a length of the payload. -/
structure Accepts (nonce aad : ByteString) (tagLength dataLength : ℕ) : Prop where
  le_nonce : 7 ≤ nonce.length
  nonce_le : nonce.length ≤ 13
  tagLength_mem : tagLength ∈ [4, 6, 8, 10, 12, 14, 16]
  dataLength_lt : fieldBytes nonce < 8 → dataLength < 2 ^ (fieldBytes nonce * 8)
  aad_le : aad.length ≤ 2 ^ 32 - 1
  capacity_lt : (dataLength ⌈/⌉ 16 + 1) * 16 < 2 ^ 64

variable {nonce aad : ByteString} {tagLength dataLength : ℕ}

theorem fieldBytes_add_length (hnonce : nonce.length ≤ 13) :
    fieldBytes nonce + nonce.length = 15 := by
  dsimp only [fieldBytes]
  omega

theorem fieldBytes_le (hnonce : 7 ≤ nonce.length) : fieldBytes nonce ≤ 8 := by
  dsimp only [fieldBytes]
  omega

theorem Accepts.fieldBytes_add (haccepts : Accepts nonce aad tagLength dataLength) :
    fieldBytes nonce + nonce.length = 15 :=
  fieldBytes_add_length haccepts.nonce_le

theorem Accepts.fieldBytes_le (haccepts : Accepts nonce aad tagLength dataLength) :
    fieldBytes nonce ≤ 8 :=
  Ccm.fieldBytes_le haccepts.le_nonce

theorem tagLength_le_of_mem (htag : tagLength ∈ [4, 6, 8, 10, 12, 14, 16]) : tagLength ≤ 16 := by
  have hall : ∀ length ∈ [4, 6, 8, 10, 12, 14, 16], length ≤ 16 := by decide
  exact hall tagLength htag

theorem Accepts.tagLength_le (haccepts : Accepts nonce aad tagLength dataLength) :
    tagLength ≤ 16 :=
  tagLength_le_of_mem haccepts.tagLength_mem

/-- The lengths of accepted arguments fit in words. -/
theorem Accepts.checkedAdd_eq (haccepts : Accepts nonce aad tagLength dataLength) :
    checkedAdd dataLength tagLength = some (dataLength + tagLength) := by
  have hcapacity := haccepts.capacity_lt
  have hcover := le_ceilDiv_mul (by decide : 0 < 16) dataLength
  have htag := haccepts.tagLength_le
  exact checkedAdd_eq_some_iff.mpr ⟨by omega, rfl⟩

/-- The two checked operations on the number of blocks. -/
theorem counterCapacity_eq_some_iff {blockCount capacity : ℕ} :
    ((checkedAdd blockCount 1).bind fun blocks ↦ checkedMul blocks aesBlockSize) =
        some capacity ↔
      (blockCount + 1) * 16 < 2 ^ 64 ∧ (blockCount + 1) * 16 = capacity := by
  simp only [Option.bind_eq_some_iff, checkedAdd_eq_some_iff, checkedMul_eq_some_iff, aesBlockSize]
  constructor
  · rintro ⟨blocks, ⟨-, rfl⟩, hcapacity⟩
    exact hcapacity
  · intro hcapacity
    exact ⟨blockCount + 1, ⟨by omega, rfl⟩, hcapacity⟩

/-- A key stream of all counter blocks covers the payload. -/
theorem length_le_drop_keyStream {payload keyStream : ByteString}
    (hlength : keyStream.length = (payload.length ⌈/⌉ 16 + 1) * 16) :
    payload.length ≤ (keyStream.drop 16).length := by
  have hcover := le_ceilDiv_mul (by decide : 0 < 16) payload.length
  rw [List.length_drop]
  omega

section Directions

variable {ε : Type} (crypt : CcmOperation → ByteString → Except ε ByteString)

/-- What the masking and the tag compute, for a payload of the declared length. -/
theorem ccmTransform_eq_ok_iff {payload transformed tag : ByteString} {encrypting : Bool}
    (hfill : fieldBytes nonce + nonce.length = 15) (hfield : fieldBytes nonce ≤ 8)
    (htag : tagLength ≤ 16) :
    answer (ccmTransform (fieldBytes nonce) payload.length nonce aad tagLength payload encrypting
        fun operation ↦ answering (crypt operation)) = some (.ok (transformed, tag)) ↔
      (payload.length ⌈/⌉ 16 + 1) * 16 < 2 ^ 64 ∧
        ∃ keyStream mac, crypt .encryptBlocks (counterBlocks nonce payload.length) = .ok keyStream ∧
          keyStream.length = (payload.length ⌈/⌉ 16 + 1) * 16 ∧
          transformed = xorBytes payload (keyStream.drop 16) ∧
          crypt .cbcMac (macInput nonce aad tagLength (if encrypting then payload
            else transformed)) = .ok mac ∧
          mac.length = 16 ∧ tag = xorBytes (mac.take tagLength) (keyStream.take tagLength) := by
  have hmac : ∀ {keyStream : ByteString},
      keyStream.length = (payload.length ⌈/⌉ 16 + 1) * 16 →
        (if encrypting then payload else xorBytes payload (keyStream.drop 16)).length =
          payload.length := by
    intro keyStream hlength
    split_ifs
    · rfl
    · rw [length_xorBytes, min_eq_left (length_le_drop_keyStream hlength)]
  unfold ccmTransform
  simp only [answer_bind_eq_ok_iff, answer_orPanic_eq_ok_iff, answer_orThrow_eq_ok_iff,
    orError_eq_ok_iff, answer_pure_eq_ok_iff, answer_checkedCall_eq_ok_iff,
    ccmCounterBlocks_eq_some hfill hfield, ccmMacInput_eq_some hfill hfield, maskBlocks_eq,
    Option.some.injEq, exists_eq_left', Prod.mk.injEq, length_flatten_counterBlockList hfill,
    counterCapacity_eq_some_iff, aesBlockSize]
  constructor
  · rintro ⟨_, ⟨hcapacity, -⟩, keyStream, ⟨hstream, hlength⟩, _, hdrop, mac, ⟨hcall, hmacLength⟩,
      _, htake, _, hmask, rfl, rfl⟩
    rw [sliceFrom_eq_some (by omega), Option.some.injEq] at hdrop
    rw [sliceTo_eq_some (by omega), Option.some.injEq] at htake hmask
    subst hdrop htake hmask
    refine ⟨hcapacity, keyStream, mac, hstream, hlength, rfl, ?_, hmacLength, rfl⟩
    rw [macInput, hmac hlength]
    exact hcall
  · rintro ⟨hcapacity, keyStream, mac, hstream, hlength, rfl, hcall, hmacLength, rfl⟩
    rw [macInput, hmac hlength] at hcall
    exact ⟨_, ⟨hcapacity, rfl⟩, keyStream, ⟨hstream, hlength⟩, _, sliceFrom_eq_some (by omega), mac,
      ⟨hcall, hmacLength⟩, _, sliceTo_eq_some (by omega), _, sliceTo_eq_some (by omega), rfl, rfl⟩

/-- A plaintext, a ciphertext and a tag that belong together: the ciphertext is the plaintext
under the key stream, and the tag is the masked CBC-MAC of the plaintext. -/
structure IsSealed (nonce aad : ByteString) (tagLength : ℕ)
    (plaintext ciphertext tag : ByteString) :
    Prop extends Accepts nonce aad tagLength plaintext.length where
  streams : ∃ keyStream mac,
    crypt .encryptBlocks (counterBlocks nonce plaintext.length) = .ok keyStream ∧
      keyStream.length = (plaintext.length ⌈/⌉ 16 + 1) * 16 ∧
      ciphertext = xorBytes plaintext (keyStream.drop 16) ∧
      crypt .cbcMac (macInput nonce aad tagLength plaintext) = .ok mac ∧ mac.length = 16 ∧
      tag = xorBytes (mac.take tagLength) (keyStream.take tagLength)

variable {crypt} {plaintext ciphertext tag : ByteString}

theorem IsSealed.length_ciphertext
    (hsealed : IsSealed crypt nonce aad tagLength plaintext ciphertext tag) :
    ciphertext.length = plaintext.length := by
  obtain ⟨keyStream, mac, -, hlength, rfl, -⟩ := hsealed.streams
  rw [length_xorBytes, min_eq_left (length_le_drop_keyStream hlength)]

theorem IsSealed.length_tag
    (hsealed : IsSealed crypt nonce aad tagLength plaintext ciphertext tag) :
    tag.length = tagLength := by
  have htag := hsealed.tagLength_le
  obtain ⟨keyStream, mac, -, hlength, -, -, hmac, rfl⟩ := hsealed.streams
  rw [length_xorBytes, List.length_take, List.length_take]
  omega

/-- The checks of the arguments. -/
theorem ccmWith_eq_ok_iff {input result : ByteString} {encrypting : Bool} :
    answer (ccmWith dataLength nonce aad tagLength input encrypting
        fun operation ↦ answering (crypt operation)) = some (.ok result) ↔
      (7 ≤ nonce.length ∧ nonce.length ≤ 13) ∧ tagLength ∈ [4, 6, 8, 10, 12, 14, 16] ∧
        (fieldBytes nonce < 8 → dataLength < 2 ^ (fieldBytes nonce * 8)) ∧
        aad.length ≤ 2 ^ 32 - 1 ∧
        ccmExpectedInput (ε := ε) dataLength tagLength encrypting = .ok input.length ∧
        ∃ payload suppliedTag, ccmSplit dataLength input encrypting = some (payload, suppliedTag) ∧
          ∃ transformed tag, answer (ccmTransform (fieldBytes nonce) dataLength nonce aad tagLength
              payload encrypting fun operation ↦ answering (crypt operation)) =
                some (.ok (transformed, tag)) ∧
            match suppliedTag with
            | some suppliedTag => tag = suppliedTag ∧ transformed = result
            | none => transformed ++ tag = result := by
  unfold ccmWith
  simp only [answer_ite_throw_eq_ok_iff, answer_bind_eq_ok_iff, answer_orPanic_eq_ok_iff,
    answer_orThrow_eq_ok_iff, not_not, not_lt]
  constructor
  · rintro ⟨hnonce, htag, lengthBytes, hfield, hlength, haad, expected, hexpected, hinput,
      ⟨payload, suppliedTag⟩, hsplit, ⟨transformed, tag⟩, htransform, hresult⟩
    rw [not_and, not_le] at hlength
    rw [subtract_eq_some (by omega), Option.some.injEq] at hfield
    subst hfield hinput
    refine ⟨hnonce, htag, hlength, haad, hexpected, payload, suppliedTag, hsplit, transformed, tag,
      htransform, ?_⟩
    cases suppliedTag with
    | none => exact answer_pure_eq_ok_iff.mp hresult
    | some suppliedTag =>
      dsimp only at hresult
      by_cases hequal : tag = suppliedTag
      · rw [if_pos hequal] at hresult
        exact ⟨hequal, answer_pure_eq_ok_iff.mp hresult⟩
      · rw [if_neg hequal] at hresult
        exact absurd hresult answer_throw_ne_ok
  · rintro ⟨hnonce, htag, hlength, haad, hexpected, payload, suppliedTag, hsplit, transformed, tag,
      htransform, hresult⟩
    have hchecked : ¬ (fieldBytes nonce < 8 ∧ 2 ^ (fieldBytes nonce * 8) ≤ dataLength) :=
      fun h ↦ absurd (hlength h.1) (not_lt.mpr h.2)
    refine ⟨hnonce, htag, fieldBytes nonce, subtract_eq_some (by omega), hchecked, haad,
      input.length, hexpected, rfl, (payload, suppliedTag), hsplit, (transformed, tag), htransform,
      ?_⟩
    cases suppliedTag with
    | none => exact answer_pure_eq_ok_iff.mpr hresult
    | some suppliedTag =>
      dsimp only
      rw [if_pos hresult.1]
      exact answer_pure_eq_ok_iff.mpr hresult.2

/-- Encryption accepts a plaintext of the declared length with a result that is a ciphertext and
its tag. -/
theorem ccmWith_true_eq_ok_iff {result : ByteString} :
    answer (ccmWith plaintext.length nonce aad tagLength plaintext true
        fun operation ↦ answering (crypt operation)) = some (.ok result) ↔
      ∃ ciphertext tag, IsSealed crypt nonce aad tagLength plaintext ciphertext tag ∧
        ciphertext ++ tag = result := by
  rw [ccmWith_eq_ok_iff]
  constructor
  · rintro ⟨⟨hle, hge⟩, htag, hlength, haad, -, payload, suppliedTag, hsplit, transformed, tag,
      htransform, hresult⟩
    obtain ⟨rfl, rfl⟩ := Prod.mk.inj (Option.some.inj hsplit)
    obtain ⟨hcapacity, keyStream, mac, hstream, hstreamLength, rfl, hmac, hmacLength, rfl⟩ :=
      (ccmTransform_eq_ok_iff crypt (fieldBytes_add_length hge) (fieldBytes_le hle)
        (tagLength_le_of_mem htag)).mp htransform
    exact ⟨_, _, ⟨⟨hle, hge, htag, hlength, haad, hcapacity⟩, keyStream, mac, hstream,
      hstreamLength, rfl, hmac, hmacLength, rfl⟩, hresult⟩
  · rintro ⟨ciphertext, tag, hsealed, rfl⟩
    obtain ⟨keyStream, mac, hstream⟩ := hsealed.streams
    refine ⟨⟨hsealed.le_nonce, hsealed.nonce_le⟩, hsealed.tagLength_mem, hsealed.dataLength_lt,
      hsealed.aad_le, rfl, plaintext, none, rfl, ciphertext, tag, ?_, rfl⟩
    exact (ccmTransform_eq_ok_iff crypt hsealed.fieldBytes_add hsealed.fieldBytes_le
      hsealed.tagLength_le).mpr ⟨hsealed.capacity_lt, keyStream, mac, hstream⟩

/-- A decryption cuts the tag off the end of its input. -/
theorem ccmSplit_false {payload tag : ByteString} :
    ccmSplit payload.length (payload ++ tag) false = some (payload, some tag) := by
  have hlength : payload.length ≤ (payload ++ tag).length := by simp
  unfold ccmSplit
  rw [if_neg Bool.false_ne_true, sliceTo_eq_some hlength, sliceFrom_eq_some hlength,
    List.take_left, List.drop_left]
  rfl

/-- Decryption accepts an input that is a ciphertext of the declared length and its tag, with
the plaintext as the result. -/
theorem ccmWith_false_eq_ok_iff {input : ByteString} :
    answer (ccmWith (input.length - tagLength) nonce aad tagLength input false
        fun operation ↦ answering (crypt operation)) = some (.ok plaintext) ↔
      ∃ ciphertext tag, IsSealed crypt nonce aad tagLength plaintext ciphertext tag ∧
        ciphertext ++ tag = input := by
  rw [ccmWith_eq_ok_iff]
  constructor
  · rintro ⟨⟨hle, hge⟩, htag, hlength, haad, hexpected, payload, suppliedTag, hsplit, transformed,
      tag, htransform, hresult⟩
    rw [ccmExpectedInput, if_neg Bool.false_ne_true, orError_eq_ok_iff,
      checkedAdd_eq_some_iff] at hexpected
    obtain ⟨payload', tag', rfl, htagLength⟩ : ∃ payload' tag', payload' ++ tag' = input ∧
        payload'.length = input.length - tagLength := by
      refine ⟨input.take (input.length - tagLength), input.drop (input.length - tagLength),
        List.take_append_drop _ _, List.length_take_of_le (Nat.sub_le _ _)⟩
    rw [← htagLength, ccmSplit_false] at hsplit
    obtain ⟨rfl, rfl⟩ := Prod.mk.inj (Option.some.inj hsplit)
    rw [← htagLength] at htransform hlength
    obtain ⟨hcapacity, keyStream, mac, hstream, hstreamLength, rfl, hmac, hmacLength, rfl⟩ :=
      (ccmTransform_eq_ok_iff crypt (fieldBytes_add_length hge) (fieldBytes_le hle)
        (tagLength_le_of_mem htag)).mp htransform
    obtain ⟨rfl, rfl⟩ := hresult
    have hcover := length_le_drop_keyStream hstreamLength
    have hplain : (xorBytes payload' (keyStream.drop 16)).length = payload'.length := by
      rw [length_xorBytes, min_eq_left hcover]
    refine ⟨payload', _, ⟨⟨hle, hge, htag, ?_, haad, ?_⟩, keyStream, mac, ?_, ?_, ?_, hmac,
      hmacLength, rfl⟩, rfl⟩
    · rw [hplain]
      exact hlength
    · rw [hplain]
      exact hcapacity
    · rw [hplain]
      exact hstream
    · rw [hplain]
      exact hstreamLength
    · exact (xorBytes_cancel_right hcover).symm
  · rintro ⟨ciphertext, tag, hsealed, rfl⟩
    have hciphertext := hsealed.length_ciphertext
    have htag := hsealed.length_tag
    have hpayload : (ciphertext ++ tag).length - tagLength = ciphertext.length := by
      rw [List.length_append, htag, Nat.add_sub_cancel]
    obtain ⟨keyStream, mac, hstream, hstreamLength, hmask, hmac, hmacLength, htagValue⟩ :=
      hsealed.streams
    have hcover := length_le_drop_keyStream hstreamLength
    rw [hpayload]
    refine ⟨⟨hsealed.le_nonce, hsealed.nonce_le⟩, hsealed.tagLength_mem, ?_, hsealed.aad_le, ?_,
      ciphertext, some tag, ccmSplit_false, plaintext, tag, ?_, rfl, rfl⟩
    · rw [hciphertext]
      exact hsealed.dataLength_lt
    · rw [ccmExpectedInput, if_neg Bool.false_ne_true, hciphertext, hsealed.checkedAdd_eq,
        List.length_append, hciphertext, htag]
      rfl
    · refine (ccmTransform_eq_ok_iff crypt hsealed.fieldBytes_add hsealed.fieldBytes_le
        hsealed.tagLength_le).mpr ⟨?_, keyStream, mac, ?_, ?_, ?_, hmac, hmacLength, htagValue⟩
      · rw [hciphertext]
        exact hsealed.capacity_lt
      · rw [hciphertext]
        exact hstream
      · rw [hciphertext]
        exact hstreamLength
      · rw [hmask]
        exact (xorBytes_cancel_right hcover).symm

end Directions

/-- CCM decryption accepts exactly the results of encryption: for every cipher without effects,
nonce, associated data and tag length, decrypting `c` with the length of its payload returns `p`
exactly when encrypting `p` with its length returns `c`. -/
theorem ccmWith_decrypt_iff_encrypt {ε : Type}
    (crypt : CcmOperation → ByteString → Except ε ByteString) (nonce aad : ByteString)
    (tagLength : ℕ) (p c : ByteString) :
    answer (ccmWith (c.length - tagLength) nonce aad tagLength c false
        fun operation ↦ answering (crypt operation)) = some (.ok p) ↔
      answer (ccmWith p.length nonce aad tagLength p true
        fun operation ↦ answering (crypt operation)) = some (.ok c) := by
  rw [ccmWith_false_eq_ok_iff, ccmWith_true_eq_ok_iff]

end SoftwareKeyCore.Ccm
