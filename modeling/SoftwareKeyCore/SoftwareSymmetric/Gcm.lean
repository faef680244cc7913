import SoftwareKeyCore.SoftwareSymmetric.BlockCipherModes

/-!
# GCM over a caller-supplied block encryptor

`software_symmetric.rs`, `gcm_with`, for both directions, with `ghash`, `increment_gcm_counter`
and `gcm_tag`. The block encryptor is a callback in any monad that has panics. The universal hash
is third-party code: `ghash` is over any function of the key and the bytes that it is updated
with, and `gcmWith` over any hash of the subkey, the associated data and the ciphertext.

`gcmKeyStream` is the part that the two directions share: it depends on the initialization vector
and on the number of blocks only. `gcmWith_true_eq_ok_iff` and `gcmWith_false_eq_ok_iff` say what
an accepted call computes, and `gcmWith_decrypt_iff_encrypt` that decryption accepts exactly the
results of encryption.
-/

set_option autoImplicit false
set_option relaxedAutoImplicit false

namespace SoftwareKeyCore.Gcm

open ByteString CallbackSession CheckedSlice FallibleResult Panicking SoftwareSymmetric

/-- `GcmError`, over the error type of the block encryptor. -/
inductive GcmError (ε : Type)
  | invalidIvLength
  | invalidTagLength
  | inputTooLong
  | ciphertextTooShort
  | invalidBlockOutput
  | authenticationFailed
  | blockOperation (error : ε)
  deriving DecidableEq, Repr

/-- `AES_BLOCK_SIZE` bytes. -/
abbrev Block := List.Vector UInt8 aesBlockSize

/-- `GHash::update_padded`: the bytes, padded with zeros to whole blocks. -/
def updatePadded (bytes : ByteString) : ByteString :=
  resize bytes (bytes.length ⌈/⌉ aesBlockSize * aesBlockSize) 0

/-- `ghash`, over the universal hash of a key and the bytes of its blocks. -/
def ghash (universalHash : ByteString → ByteString → Block) (key aad ciphertext : ByteString) :
    Option Block := do
  let aadBits ← checkedMul aad.length 8
  let ciphertextBits ← checkedMul ciphertext.length 8
  some (universalHash key (updatePadded aad ++ updatePadded ciphertext ++
    (toBeBytes 8 aadBits ++ toBeBytes 8 ciphertextBits)))

/-- `increment_gcm_counter`. -/
def incrementGcmCounter (counter : ByteString) : Option ByteString := do
  let low ← sliceFrom counter 12
  copyInto counter 12 counter.length (toBeBytes 4 ((fromBeBytes low + 1) % 2 ^ 32))

/-- `gcm_tag`. -/
def gcmTag (fullTag : ByteString) (tagBits : ℕ) : Option ByteString := do
  let tagLength := tagBits ⌈/⌉ 8
  let tag ← sliceTo fullTag tagLength
  if 8 ∣ tagBits then some tag
  else
    let mask := 0xff <<< UInt8.ofNat (8 - tagBits % 8)
    some (tag.modify (tag.length - 1) (· &&& mask))

/-- The counter before the first block, from an initialization vector and the hash subkey. -/
def gcmInitialCounter (hash : ByteString → ByteString → ByteString → Option Block)
    (hashSubkey iv : ByteString) : Option (Option ByteString) :=
  if iv.length = 12 then do
    let counter ← copyInto (List.replicate aesBlockSize 0) 0 12 iv
    let counter ← setByte counter 15 1
    some (some counter)
  else some ((hash hashSubkey [] iv).map List.Vector.toList)

/-- The body of the loop over the counter blocks: the state is the counter and the blocks. -/
def gcmCounterStep (state : ByteString × ByteString) (_index : ℕ) :
    Option (ByteString × ByteString) := do
  let (counter, counterBlocks) := state
  let counter ← incrementGcmCounter counter
  some (counter, counterBlocks ++ counter)

/-- The counter blocks: the initial counter and its successors. -/
def gcmCounterBlocks (initialCounter : ByteString) (blockCount : ℕ) : Option ByteString := do
  let (_, counterBlocks) ← (List.range blockCount).foldlM gcmCounterStep
    (initialCounter, initialCounter)
  some counterBlocks

section Constructions

variable {m : Type → Type} [Monad m] [CanPanic m] {ε : Type}
  (hash : ByteString → ByteString → ByteString → Option Block)

/-- The hash subkey and the encrypted counters: the two calls of the block encryptor. -/
def gcmKeyStream (iv : ByteString) (blockCount : ℕ)
    (encryptBlocks : ByteString → m (Except ε ByteString)) :
    ExceptT (GcmError ε) m (ByteString × ByteString) := do
  let hashSubkey ← checkedCall .blockOperation .invalidBlockOutput aesBlockSize
    (encryptBlocks (List.replicate aesBlockSize 0))
  let initialCounter ← orPanic (gcmInitialCounter hash hashSubkey iv)
  let initialCounter ← orThrow (orError .inputTooLong initialCounter)
  let _counterCapacity ← orThrow
    (orError .inputTooLong (checkedMul (blockCount + 1) aesBlockSize))
  let counterBlocks ← orPanic (gcmCounterBlocks initialCounter blockCount)
  let encryptedCounters ← checkedCall .blockOperation .invalidBlockOutput counterBlocks.length
    (encryptBlocks counterBlocks)
  pure (hashSubkey, encryptedCounters)

/-- The masked payload and its tag, from the encrypted counters. The tag is over the ciphertext:
the masked payload when encrypting, and the payload when decrypting. -/
def gcmTransform (aad : ByteString) (tagBits : ℕ) (payload : ByteString) (encrypting : Bool)
    (hashSubkey encryptedCounters : ByteString) :
    ExceptT (GcmError ε) m (ByteString × ByteString) := do
  let keyStream ← orPanic (sliceFrom encryptedCounters aesBlockSize)
  let transformed := maskBlocks payload keyStream
  let ciphertext := if encrypting then transformed else payload
  let value ← orThrow (orError .inputTooLong (hash hashSubkey aad ciphertext))
  let mask ← orPanic (sliceTo encryptedCounters aesBlockSize)
  let expectedTag ← orPanic (gcmTag (xorBytes mask value.toList) tagBits)
  pure (transformed, expectedTag)

/-- The payload of an input, and the supplied tag when decrypting. -/
def gcmSplit (tagLength : ℕ) (input : ByteString) (encrypting : Bool) :
    ExceptT (GcmError ε) m (ByteString × Option ByteString) :=
  if encrypting then pure (input, none)
  else if input.length < tagLength then throw .ciphertextTooShort
  else do
    let split ← orPanic (subtract input.length tagLength)
    let payload ← orPanic (sliceTo input split)
    let suppliedTag ← orPanic (sliceFrom input split)
    pure (payload, some suppliedTag)

/-- `gcm_with`. -/
def gcmWith (iv aad : ByteString) (tagBits : ℕ) (input : ByteString) (encrypting : Bool)
    (encryptBlocks : ByteString → m (Except ε ByteString)) :
    ExceptT (GcmError ε) m ByteString :=
  if iv = [] then throw .invalidIvLength
  else if aesBlockSize * 8 < tagBits then throw .invalidTagLength
  else do
    let tagLength := tagBits ⌈/⌉ 8
    let (payload, suppliedTag) ← gcmSplit tagLength input encrypting
    let blockCount := payload.length ⌈/⌉ aesBlockSize
    if 2 ^ 32 - 1 - 2 < blockCount then throw .inputTooLong
    else do
      let (hashSubkey, encryptedCounters) ← gcmKeyStream hash iv blockCount encryptBlocks
      let (transformed, expectedTag) ←
        gcmTransform hash aad tagBits payload encrypting hashSubkey encryptedCounters
      match suppliedTag with
      | some suppliedTag =>
        if expectedTag = suppliedTag then pure transformed else throw .authenticationFailed
      | none => pure (transformed ++ expectedTag)

end Constructions

/-! ### Lengths -/

/-- The last four bytes of a block, as a big-endian number, plus one modulo `2 ^ 32`. -/
def inc32 (counter : ByteString) : ByteString :=
  counter.take 12 ++ toBeBytes 4 ((fromBeBytes (counter.drop 12) + 1) % 2 ^ 32)

theorem length_inc32 {counter : ByteString} (hcounter : counter.length = 16) :
    (inc32 counter).length = 16 := by
  rw [inc32, List.length_append, List.length_take, length_toBeBytes]
  omega

/-- A counter of one block is incremented without a panic. -/
theorem incrementGcmCounter_eq_some {counter : ByteString} (hcounter : counter.length = 16) :
    incrementGcmCounter counter = some (inc32 counter) := by
  unfold incrementGcmCounter
  rw [sliceFrom_eq_some (by omega), Option.bind_eq_bind, Option.bind_some,
    copyInto_length (by omega) (by rw [length_toBeBytes]; omega), inc32]

/-- The states of the loop over the counter blocks: the counter is one block, and there is one
block more than steps. -/
def CounterState (count : ℕ) (state : ByteString × ByteString) : Prop :=
  state.1.length = 16 ∧ state.2.length = (count + 1) * 16

/-- The counter blocks of a counter of one block are computed without a panic, and are the
initial counter and one block each. -/
theorem exists_gcmCounterBlocks {initialCounter : ByteString}
    (hcounter : initialCounter.length = 16) (blockCount : ℕ) :
    ∃ counterBlocks, gcmCounterBlocks initialCounter blockCount = some counterBlocks ∧
      counterBlocks.length = (blockCount + 1) * 16 := by
  have hstep : ∀ index ∈ List.range blockCount, ∀ count state, CounterState count state →
      ∃ next, gcmCounterStep state index = some next ∧ CounterState (count + 1) next := by
    intro index _ count state hstate
    obtain ⟨counter, counterBlocks⟩ := state
    obtain ⟨hcounter, hblocks⟩ := hstate
    dsimp only at hcounter hblocks
    have hlength := length_inc32 hcounter
    refine ⟨(inc32 counter, counterBlocks ++ inc32 counter), ?_, hlength, ?_⟩
    · unfold gcmCounterStep
      dsimp only
      rw [incrementGcmCounter_eq_some hcounter]
      rfl
    · rw [List.length_append, hblocks, hlength]
      omega
  have hinitial : CounterState 0 (initialCounter, initialCounter) := ⟨hcounter, by omega⟩
  obtain ⟨final, hrun, -, hlength⟩ := exists_foldlM_eq_some CounterState hstep hinitial
  refine ⟨final.2, ?_, ?_⟩
  · unfold gcmCounterBlocks
    rw [hrun]
    rfl
  · rw [hlength, zero_add, List.length_range]

/-- A tag of at most the block size is cut off the full tag without a panic. -/
theorem exists_gcmTag {fullTag : ByteString} (hfull : fullTag.length = 16) {tagBits : ℕ}
    (hbits : tagBits ≤ 128) :
    ∃ tag, gcmTag fullTag tagBits = some tag ∧ tag.length = tagBits ⌈/⌉ 8 := by
  have hlength : tagBits ⌈/⌉ 8 ≤ fullTag.length := by
    rw [Nat.ceilDiv_eq_add_pred_div]
    omega
  unfold gcmTag
  dsimp only
  rw [sliceTo_eq_some hlength, Option.bind_eq_bind, Option.bind_some]
  split_ifs with hdvd
  · exact ⟨_, rfl, List.length_take_of_le hlength⟩
  · refine ⟨_, rfl, ?_⟩
    rw [List.length_modify, List.length_take_of_le hlength]

/-- The initial counter is computed without a panic, and is one block. -/
theorem exists_gcmInitialCounter (hash : ByteString → ByteString → ByteString → Option Block)
    (hashSubkey iv : ByteString) :
    ∃ counter, gcmInitialCounter hash hashSubkey iv = some counter ∧
      ∀ block, counter = some block → block.length = 16 := by
  unfold gcmInitialCounter
  split_ifs with hiv
  · have hzeros : 12 ≤ (List.replicate aesBlockSize (0 : UInt8)).length := by
      rw [List.length_replicate]
      decide
    rw [copyInto_zero hzeros hiv, Option.bind_eq_bind, Option.bind_some]
    have hlength : (iv ++ (List.replicate aesBlockSize (0 : UInt8)).drop 12).length = 16 := by
      rw [List.length_append, List.length_drop, List.length_replicate, hiv]
      rfl
    rw [setByte_eq_some (by omega)]
    refine ⟨_, rfl, ?_⟩
    intro block hblock
    rw [← Option.some.inj hblock, List.length_set, hlength]
  · refine ⟨_, rfl, ?_⟩
    intro block hblock
    rw [Option.map_eq_some_iff] at hblock
    obtain ⟨value, -, rfl⟩ := hblock
    exact value.toList_length

/-! ### The two directions -/

section Directions

variable {ε : Type} (hash : ByteString → ByteString → ByteString → Option Block)
  (encryptBlocks : ByteString → Except ε ByteString)

/-- What the two calls of the block encryptor are, and what they answer. -/
theorem gcmKeyStream_eq_ok {iv hashSubkey encryptedCounters : ByteString} {blockCount : ℕ}
    (hstream : answer (gcmKeyStream hash iv blockCount (answering encryptBlocks)) =
      some (.ok (hashSubkey, encryptedCounters))) :
    encryptBlocks (List.replicate aesBlockSize 0) = .ok hashSubkey ∧
      ∃ initialCounter counterBlocks,
        gcmInitialCounter hash hashSubkey iv = some (some initialCounter) ∧
        gcmCounterBlocks initialCounter blockCount = some counterBlocks ∧
        encryptBlocks counterBlocks = .ok encryptedCounters ∧
        encryptedCounters.length = counterBlocks.length := by
  unfold gcmKeyStream at hstream
  obtain ⟨subkey, hsubkey, hstream⟩ := answer_bind_eq_ok_iff.mp hstream
  obtain ⟨counter, hcounter, hstream⟩ := answer_bind_eq_ok_iff.mp hstream
  obtain ⟨initialCounter, hinitial, hstream⟩ := answer_bind_eq_ok_iff.mp hstream
  obtain ⟨capacity, -, hstream⟩ := answer_bind_eq_ok_iff.mp hstream
  obtain ⟨counterBlocks, hblocks, hstream⟩ := answer_bind_eq_ok_iff.mp hstream
  obtain ⟨encrypted, hcall, hresult⟩ := answer_bind_eq_ok_iff.mp hstream
  rw [answer_pure_eq_ok_iff, Prod.mk.injEq] at hresult
  obtain ⟨rfl, rfl⟩ := hresult
  rw [answer_orPanic_eq_ok_iff] at hcounter hblocks
  rw [answer_orThrow_eq_ok_iff, orError_eq_ok_iff] at hinitial
  obtain rfl := hinitial
  obtain ⟨hanswer, hlength⟩ := answer_checkedCall_eq_ok_iff.mp hcall
  exact ⟨(answer_checkedCall_eq_ok_iff.mp hsubkey).1, initialCounter, counterBlocks, hcounter,
    hblocks, hanswer, hlength⟩

/-- The encrypted counters are the block of the tag and one block for each block of the
payload. -/
theorem length_encryptedCounters {iv hashSubkey encryptedCounters : ByteString} {blockCount : ℕ}
    (hstream : answer (gcmKeyStream hash iv blockCount (answering encryptBlocks)) =
      some (.ok (hashSubkey, encryptedCounters))) :
    encryptedCounters.length = (blockCount + 1) * 16 := by
  obtain ⟨-, initialCounter, counterBlocks, hcounter, hblocks, -, hencrypted⟩ :=
    gcmKeyStream_eq_ok hash encryptBlocks hstream
  obtain ⟨counter, hcounter', hlength⟩ := exists_gcmInitialCounter hash hashSubkey iv
  obtain rfl := Option.some.inj (hcounter.symm.trans hcounter')
  obtain ⟨blocks, hblocks', hblocksLength⟩ :=
    exists_gcmCounterBlocks (hlength initialCounter rfl) blockCount
  obtain rfl := Option.some.inj (hblocks.symm.trans hblocks')
  rw [hencrypted, hblocksLength]

/-- What the masking and the tag compute. -/
theorem gcmTransform_eq_ok_iff {aad payload hashSubkey encryptedCounters transformed tag :
      ByteString} {tagBits : ℕ} {encrypting : Bool}
    (hlength : aesBlockSize ≤ encryptedCounters.length) :
    answer (gcmTransform (m := Option) (ε := ε) hash aad tagBits payload encrypting hashSubkey
        encryptedCounters) = some (.ok (transformed, tag)) ↔
      transformed = xorBytes payload (encryptedCounters.drop aesBlockSize) ∧
        ∃ value, hash hashSubkey aad (if encrypting then transformed else payload) = some value ∧
          gcmTag (xorBytes (encryptedCounters.take aesBlockSize) value.toList) tagBits =
            some tag := by
  unfold gcmTransform
  simp only [answer_bind_eq_ok_iff, answer_orPanic_eq_ok_iff, answer_orThrow_eq_ok_iff,
    orError_eq_ok_iff, answer_pure_eq_ok_iff, sliceFrom_eq_some hlength, sliceTo_eq_some hlength,
    Option.some.injEq, exists_eq_left', maskBlocks_eq,
    Prod.mk.injEq]
  constructor
  · rintro ⟨value, hvalue, tag', htag, rfl, rfl⟩
    exact ⟨rfl, value, hvalue, htag⟩
  · rintro ⟨rfl, value, hvalue, htag⟩
    exact ⟨value, hvalue, tag, htag, rfl, rfl⟩

/-- A plaintext, a ciphertext and a tag that belong together: the ciphertext is the plaintext
under the key stream of their number of blocks, and the tag is the tag of the ciphertext. -/
structure IsSealed (iv aad : ByteString) (tagBits : ℕ) (plaintext ciphertext tag : ByteString) :
    Prop where
  iv_ne_nil : iv ≠ []
  tagBits_le : tagBits ≤ 128
  blockCount_le : ciphertext.length ⌈/⌉ 16 ≤ 2 ^ 32 - 3
  key_stream : ∃ hashSubkey encryptedCounters,
    answer (gcmKeyStream hash iv (ciphertext.length ⌈/⌉ 16) (answering encryptBlocks)) =
        some (.ok (hashSubkey, encryptedCounters)) ∧
      xorBytes plaintext (encryptedCounters.drop 16) = ciphertext ∧
      plaintext.length = ciphertext.length ∧
      ∃ value, hash hashSubkey aad ciphertext = some value ∧
        gcmTag (xorBytes (encryptedCounters.take 16) value.toList) tagBits = some tag

variable {hash encryptBlocks} {iv aad : ByteString} {tagBits : ℕ} {plaintext ciphertext tag :
  ByteString}

/-- A tag has the requested number of bits, rounded up to bytes. -/
theorem IsSealed.length_tag
    (hsealed : IsSealed hash encryptBlocks iv aad tagBits plaintext ciphertext tag) :
    tag.length = tagBits ⌈/⌉ 8 := by
  obtain ⟨hashSubkey, encryptedCounters, hstream, -, -, value, -, htag⟩ := hsealed.key_stream
  have hlength := length_encryptedCounters hash encryptBlocks hstream
  have hvalue : value.toList.length = 16 := value.toList_length
  have hfull : (xorBytes (encryptedCounters.take 16) value.toList).length = 16 := by
    rw [length_xorBytes, List.length_take, hvalue, hlength]
    omega
  obtain ⟨tag', htag', hlength'⟩ := exists_gcmTag hfull hsealed.tagBits_le
  rw [htag, Option.some.injEq] at htag'
  rw [htag', hlength']

/-- The key stream of the number of blocks covers the payload. -/
theorem length_le_keyStream {hashSubkey encryptedCounters payload : ByteString}
    (hstream : answer (gcmKeyStream hash iv (payload.length ⌈/⌉ 16) (answering encryptBlocks)) =
      some (.ok (hashSubkey, encryptedCounters))) :
    16 ≤ encryptedCounters.length ∧ payload.length ≤ (encryptedCounters.drop 16).length := by
  have hlength := length_encryptedCounters hash encryptBlocks hstream
  have hcover := le_ceilDiv_mul (by decide : 0 < 16) payload.length
  rw [List.length_drop]
  omega

/-- Encryption accepts a plaintext with a result that is a ciphertext and its tag. -/
theorem gcmWith_true_eq_ok_iff {result : ByteString} :
    answer (gcmWith hash iv aad tagBits plaintext true (answering encryptBlocks)) =
        some (.ok result) ↔
      ∃ ciphertext tag, IsSealed hash encryptBlocks iv aad tagBits plaintext ciphertext tag ∧
        ciphertext ++ tag = result := by
  unfold gcmWith gcmSplit
  simp only [answer_ite_throw_eq_ok_iff, answer_bind_eq_ok_iff, if_true, answer_pure_eq_ok_iff,
    exists_eq_left', not_lt]
  constructor
  · rintro ⟨hiv, hbits, hcount, ⟨hashSubkey, encryptedCounters⟩, hstream, ⟨transformed, tag⟩,
      htransform, rfl⟩
    obtain ⟨hblock, hcover⟩ := length_le_keyStream hstream
    obtain ⟨rfl, value, hvalue, htag⟩ := (gcmTransform_eq_ok_iff hash hblock).mp htransform
    have hlength : (xorBytes plaintext (encryptedCounters.drop aesBlockSize)).length =
        plaintext.length := by
      rw [length_xorBytes, min_eq_left hcover]
    refine ⟨_, tag, ⟨hiv, hbits, ?_, hashSubkey, encryptedCounters, ?_, rfl, hlength.symm, value,
      hvalue, htag⟩, rfl⟩
    · rw [hlength]
      exact hcount
    · rw [hlength]
      exact hstream
  · rintro ⟨ciphertext, tag, ⟨hiv, hbits, hcount, hashSubkey, encryptedCounters, hstream, hmask,
      hlength, value, hvalue, htag⟩, rfl⟩
    rw [← hlength] at hcount hstream
    obtain ⟨hblock, hcover⟩ := length_le_keyStream hstream
    refine ⟨hiv, hbits, hcount, (hashSubkey, encryptedCounters), hstream, (ciphertext, tag), ?_,
      rfl⟩
    exact (gcmTransform_eq_ok_iff hash hblock).mpr ⟨hmask.symm, value, hvalue, htag⟩

/-- A decryption cuts the supplied tag off the end of its input. -/
theorem gcmSplit_false_eq_ok_iff {tagLength : ℕ} {input payload : ByteString}
    {suppliedTag : Option ByteString} :
    answer (gcmSplit (m := Option) (ε := ε) tagLength input false) =
        some (.ok (payload, suppliedTag)) ↔
      ∃ tag, tag.length = tagLength ∧ payload ++ tag = input ∧ suppliedTag = some tag := by
  unfold gcmSplit
  rw [if_neg Bool.false_ne_true, answer_ite_throw_eq_ok_iff, not_lt]
  constructor
  · rintro ⟨hlength, hsplit⟩
    simp only [answer_bind_eq_ok_iff, answer_orPanic_eq_ok_iff, subtract_eq_some hlength,
      sliceTo_eq_some (Nat.sub_le _ _), sliceFrom_eq_some (Nat.sub_le _ _), Option.some.injEq,
      exists_eq_left', answer_pure_eq_ok_iff, Prod.mk.injEq] at hsplit
    obtain ⟨rfl, rfl⟩ := hsplit
    refine ⟨_, ?_, List.take_append_drop _ _, rfl⟩
    rw [List.length_drop, Nat.sub_sub_self hlength]
  · rintro ⟨tag, rfl, rfl, rfl⟩
    have hlength : tag.length ≤ (payload ++ tag).length := by simp
    have hpayload : (payload ++ tag).length - tag.length = payload.length := by simp
    have hcut : payload.length ≤ (payload ++ tag).length := by simp
    refine ⟨hlength, ?_⟩
    simp only [answer_bind_eq_ok_iff, answer_orPanic_eq_ok_iff, subtract_eq_some hlength, hpayload,
      sliceTo_eq_some hcut, sliceFrom_eq_some hcut, Option.some.injEq, exists_eq_left',
      answer_pure_eq_ok_iff, List.take_left, List.drop_left]

/-- Decryption accepts an input that is a ciphertext and its tag, with the plaintext as the
result. -/
theorem gcmWith_false_eq_ok_iff {input : ByteString} :
    answer (gcmWith hash iv aad tagBits input false (answering encryptBlocks)) =
        some (.ok plaintext) ↔
      ∃ ciphertext tag, IsSealed hash encryptBlocks iv aad tagBits plaintext ciphertext tag ∧
        ciphertext ++ tag = input := by
  unfold gcmWith
  simp only [answer_ite_throw_eq_ok_iff, answer_bind_eq_ok_iff, not_lt]
  constructor
  · rintro ⟨hiv, hbits, ⟨ciphertext, suppliedTag⟩, hsplit, hcount,
      ⟨hashSubkey, encryptedCounters⟩, hstream, ⟨transformed, tag⟩, htransform, hresult⟩
    obtain ⟨supplied, hlength, rfl, rfl⟩ := gcmSplit_false_eq_ok_iff.mp hsplit
    obtain ⟨hblock, hcover⟩ := length_le_keyStream hstream
    obtain ⟨rfl, value, hvalue, htag⟩ := (gcmTransform_eq_ok_iff hash hblock).mp htransform
    dsimp only at hresult hstream hcount hcover
    by_cases hequal : tag = supplied
    · rw [if_pos hequal, answer_pure_eq_ok_iff] at hresult
      subst hequal hresult
      refine ⟨ciphertext, tag, ⟨hiv, hbits, hcount, hashSubkey, encryptedCounters, hstream, ?_, ?_,
        value, hvalue, htag⟩, rfl⟩
      · exact xorBytes_cancel_right hcover
      · rw [length_xorBytes, min_eq_left hcover]
    · rw [if_neg hequal] at hresult
      exact absurd hresult answer_throw_ne_ok
  · rintro ⟨ciphertext, tag, hsealed, rfl⟩
    have hlength := hsealed.length_tag
    obtain ⟨hiv, hbits, hcount, hashSubkey, encryptedCounters, hstream, hmask, hequal, value,
      hvalue, htag⟩ := hsealed
    obtain ⟨hblock, hcover⟩ := length_le_keyStream hstream
    refine ⟨hiv, hbits, (ciphertext, some tag),
      gcmSplit_false_eq_ok_iff.mpr ⟨tag, hlength, rfl, rfl⟩, hcount,
      (hashSubkey, encryptedCounters), hstream, (plaintext, tag), ?_, ?_⟩
    · refine (gcmTransform_eq_ok_iff hash hblock).mpr ⟨?_, value, hvalue, htag⟩
      exact (xorBytes_eq_iff (hequal.trans_le hcover) hcover).mp hmask
    · dsimp only
      rw [if_pos rfl, answer_pure]

/-- GCM decryption accepts exactly the results of encryption: for every hash, every block
encryptor without effects, every initialization vector, associated data and number of tag bits,
decrypting `c` returns `p` exactly when encrypting `p` returns `c`. -/
theorem gcmWith_decrypt_iff_encrypt
    (hash : ByteString → ByteString → ByteString → Option Block)
    (encryptBlocks : ByteString → Except ε ByteString) (iv aad : ByteString) (tagBits : ℕ)
    (p c : ByteString) :
    answer (gcmWith hash iv aad tagBits c false (answering encryptBlocks)) = some (.ok p) ↔
      answer (gcmWith hash iv aad tagBits p true (answering encryptBlocks)) = some (.ok c) := by
  rw [gcmWith_false_eq_ok_iff, gcmWith_true_eq_ok_iff]

end Directions

end SoftwareKeyCore.Gcm
