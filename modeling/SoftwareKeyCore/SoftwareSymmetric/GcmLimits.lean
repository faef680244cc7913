import SoftwareKeyCore.SoftwareSymmetric.CallbackFailures
import SoftwareKeyCore.SoftwareSymmetric.CounterInstances

/-!
# The length limit of GCM and its counter blocks

`software_symmetric.rs`, `gcm_with`, over any block encryptor, also one that fails. The standard
allows a payload of up to `2 ^ 39 - 256` bits, which are `2 ^ 32 - 2` blocks: with the initial counter
block, that is one block less than the last 32 bits have values.

`exists_runObserved_gcmWith` is what a call does on a payload within the limit of `gcm_with`, which is
one block less. `meetsLengthLimit_iff` is that a payload of `2 ^ 32 - 2` blocks is the only one on
which the two limits differ, and that the counter blocks that are handed to the encryptor never
repeat.
-/

set_option autoImplicit false
set_option relaxedAutoImplicit false

namespace SoftwareKeyCore.Gcm

open ByteString CallbackSession CheckedSlice FallibleResult SoftwareSymmetric

/-! ### The counter blocks -/

/-- The counter blocks from an initial one are its first successors. -/
theorem iterate_inc32 {j0 : ByteString} (hj0 : j0.length = 16) (count : ℕ) :
    List.iterate inc32 j0 count = ctrBlocks 32 j0 count := by
  have hbits : 32 ≤ 8 * j0.length := by omega
  have hblock : ∀ offset, inc32^[offset] j0 = ctrBlock 32 j0 offset := by
    intro offset
    rw [ctrBlock_eq_advancedCounter hj0.le hbits]
    induction offset with
    | zero => rw [Function.iterate_zero, id, advancedCounter_zero]
    | succ offset ih =>
      rw [Function.iterate_succ_apply', ih, inc32_eq_advancedCounter
        (by rw [length_advancedCounter, hj0]), advancedCounter_advancedCounter hbits]
  rw [← List.range_map_iterate, ctrBlocks]
  exact List.map_congr_left fun offset _ ↦ hblock offset

/-- As many counter blocks as 32 bits have values are distinct, from every initial one. -/
theorem nodup_iterate_inc32 {j0 : ByteString} (hj0 : j0.length = 16) {count : ℕ}
    (hcount : count ≤ 2 ^ 32) : (List.iterate inc32 j0 count).Nodup := by
  rw [iterate_inc32 hj0, nodup_ctrBlocks_iff hj0.le (by omega)]
  exact hcount

/-- The counter blocks of GCM are the initial one and its successors. -/
theorem gcmCounterBlocks_eq_iterate {j0 : ByteString} (hj0 : j0.length = 16) (blockCount : ℕ) :
    gcmCounterBlocks j0 blockCount =
      some (List.iterate inc32 j0 (blockCount + 1)).flatten := by
  rw [gcmCounterBlocks_eq_some hj0, ← iterate_inc32 (length_inc32 hj0)]
  rfl

/-! ### Payloads -/

/-- The payload of an input: all of it when encrypting, and what is before the tag when
decrypting. -/
def gcmPayload (tagBits : ℕ) (input : ByteString) (encrypting : Bool) : ByteString :=
  if encrypting then input else input.take (input.length - tagBits ⌈/⌉ 8)

/-- An input that has a tag is split into its payload and the tag. -/
theorem gcmSplit_eq {m : Type → Type} [Monad m] [LawfulMonad m] [CanPanic m] {ε : Type}
    (tagBits : ℕ) (input : ByteString) (encrypting : Bool) :
    gcmSplit (m := m) (ε := ε) (tagBits ⌈/⌉ 8) input encrypting =
      if encrypting = false ∧ input.length < tagBits ⌈/⌉ 8 then throw .ciphertextTooShort
      else pure (gcmPayload tagBits input encrypting,
        if encrypting then none else some (input.drop (input.length - tagBits ⌈/⌉ 8))) := by
  unfold gcmSplit gcmPayload
  cases encrypting with
  | true => rfl
  | false =>
    simp only [Bool.false_eq_true, if_false, true_and]
    split_ifs with hshort
    · rfl
    · rw [not_lt] at hshort
      rw [subtract_eq_some hshort, orPanic_some_bind, sliceTo_eq_some (Nat.sub_le _ _),
        orPanic_some_bind, sliceFrom_eq_some (Nat.sub_le _ _), orPanic_some_bind]

/-- What `gcm_with` asks of its arguments besides the input. -/
structure AcceptsParameters (iv aad : ByteString) (tagBits : ℕ) : Prop where
  iv_ne_nil : iv ≠ []
  iv_bits_lt : iv.length = 12 ∨ iv.length * 8 < 2 ^ 64
  aad_bits_lt : aad.length * 8 < 2 ^ 64
  tagBits_le : tagBits ≤ 128

variable {σ ε : Type} {hash : ByteString → ByteString → ByteString → Option Block}
  {iv aad input : ByteString} {tagBits : ℕ} {encrypting : Bool}

/-- The parameters of every call that accepts are accepted. -/
theorem IsSealed.acceptsParameters {universalHash : ByteString → ByteString → Block}
    {encryptBlocks : ByteString → Except ε ByteString} {plaintext ciphertext tag : ByteString}
    (hsealed : IsSealed (ghash universalHash) encryptBlocks iv aad tagBits plaintext ciphertext
      tag) : AcceptsParameters iv aad tagBits := by
  have hbits : ∀ {key aad ciphertext value}, ghash universalHash key aad ciphertext = some value →
      aad.length * 8 < 2 ^ 64 ∧ ciphertext.length * 8 < 2 ^ 64 := by
    intro key aad ciphertext value hvalue
    unfold ghash at hvalue
    obtain ⟨aadBits, haad, hvalue⟩ := Option.bind_eq_some_iff.mp hvalue
    obtain ⟨ciphertextBits, hciphertext, -⟩ := Option.bind_eq_some_iff.mp hvalue
    exact ⟨(checkedMul_eq_some_iff.mp haad).1, (checkedMul_eq_some_iff.mp hciphertext).1⟩
  obtain ⟨hashSubkey, encryptedCounters, hstream, -, -, value, hvalue, -⟩ := hsealed.key_stream
  refine ⟨hsealed.iv_ne_nil, ?_, (hbits hvalue).1, hsealed.tagBits_le⟩
  rw [or_iff_not_imp_left]
  intro htwelve
  obtain ⟨-, j0, counterBlocks, hcounter, -⟩ := gcmKeyStream_eq_ok _ _ hstream
  rw [gcmInitialCounter_eq_some, Option.some.injEq, initialCounterBlock, if_neg htwelve,
    Option.map_eq_some_iff] at hcounter
  obtain ⟨block, hblock, -⟩ := hcounter
  exact (hbits hblock).2

/-- A payload of more blocks than `gcm_with` accepts is refused before any call. -/
theorem gcmWith_eq_throw {m : Type → Type} [Monad m] [LawfulMonad m] [CanPanic m]
    (hparameters : AcceptsParameters iv aad tagBits)
    (hlong : 2 ^ 32 - 3 < (gcmPayload tagBits input encrypting).length ⌈/⌉ 16)
    (encryptBlocks : ByteString → m (Except ε ByteString)) :
    gcmWith hash iv aad tagBits input encrypting encryptBlocks = throw .inputTooLong := by
  have hbits : ¬ aesBlockSize * 8 < tagBits := not_lt.mpr hparameters.tagBits_le
  have hsplit : ¬ (encrypting = false ∧ input.length < tagBits ⌈/⌉ 8) := by
    rintro ⟨rfl, hshort⟩
    rw [gcmPayload, if_neg Bool.false_ne_true, List.length_take, Nat.sub_eq_zero_of_le hshort.le,
      Nat.zero_min] at hlong
    exact absurd hlong (by decide)
  unfold gcmWith
  dsimp only
  rw [if_neg hparameters.iv_ne_nil, if_neg hbits, gcmSplit_eq, if_neg hsplit, pure_bind]
  exact if_pos hlong

/-- The payload is what `gcm_with` goes on with. -/
theorem run_gcmSplit_eq_ok {session final : σ × List (Call ByteString ε)} {payload : ByteString}
    {suppliedTag : Option ByteString}
    (hrun : (gcmSplit (m := Observed σ ByteString ε) (ε := ε) (tagBits ⌈/⌉ 8) input
      encrypting).run session = some (.ok (payload, suppliedTag), final)) :
    payload = gcmPayload tagBits input encrypting ∧ final = session := by
  rw [gcmSplit_eq, run_ite_throw_eq_ok_iff, run_pure_eq_ok_iff, Prod.mk.injEq] at hrun
  exact ⟨hrun.2.1.1.symm, hrun.2.2.symm⟩

/-! ### Runs on a payload within the limit -/

/-- The hash of GCM is only missing where a length in bits does not fit. -/
theorem exists_ghash (universalHash : ByteString → ByteString → Block) (key : ByteString)
    {ciphertext : ByteString} (haad : aad.length * 8 < 2 ^ 64)
    (hciphertext : ciphertext.length * 8 < 2 ^ 64) :
    ∃ value, ghash universalHash key aad ciphertext = some value := by
  unfold ghash
  rw [checkedMul_eq_some_iff.mpr ⟨haad, rfl⟩, checkedMul_eq_some_iff.mpr ⟨hciphertext, rfl⟩]
  exact ⟨_, rfl⟩

/-- An initialization vector whose length in bits fits has an initial counter block. -/
theorem exists_initialCounterBlock (universalHash : ByteString → ByteString → Block)
    (hiv : iv.length = 12 ∨ iv.length * 8 < 2 ^ 64) (hashSubkey : ByteString) :
    ∃ j0, initialCounterBlock (ghash universalHash) hashSubkey iv = some j0 := by
  unfold initialCounterBlock
  split_ifs with htwelve
  · exact ⟨_, rfl⟩
  · have hempty : ([] : ByteString).length * 8 < 2 ^ 64 := by decide
    obtain ⟨value, hvalue⟩ :=
      exists_ghash universalHash hashSubkey hempty (hiv.resolve_left htwelve)
    exact ⟨_, by rw [hvalue]; rfl⟩

theorem neverFailsWith_gcmKeyStream {universalHash : ByteString → ByteString → Block}
    (hiv : iv.length = 12 ∨ iv.length * 8 < 2 ^ 64) {blockCount : ℕ}
    (hcount : (blockCount + 1) * 16 < 2 ^ 64)
    (callback : ByteString → StateM σ (Except ε ByteString)) :
    NeverFailsWith .inputTooLong
      (gcmKeyStream (ghash universalHash) iv blockCount (observed callback)) := by
  have hcall : ∀ query length, NeverFailsWith GcmError.inputTooLong (checkedCall
      GcmError.blockOperation .invalidBlockOutput length (observed callback query)) :=
    neverFailsWith_checkedCall (by simp) (by simp) callback
  unfold gcmKeyStream
  refine (hcall _ _).bind fun hashSubkey _ _ _ ↦ ?_
  refine (neverFailsWith_orPanic _).bind fun counter _ _ hcounter ↦ ?_
  rw [run_orPanic_eq_ok_iff, gcmInitialCounter_eq_some, Option.some.injEq] at hcounter
  obtain ⟨j0, hj0⟩ := exists_initialCounterBlock universalHash hiv hashSubkey
  rw [← hcounter.1, hj0, checkedMul_eq_some_iff.mpr ⟨hcount, rfl⟩]
  refine (neverFailsWith_pure j0).bind fun _ _ _ _ ↦ ?_
  refine (neverFailsWith_pure _).bind fun _ _ _ _ ↦ ?_
  refine (neverFailsWith_orPanic _).bind fun _ _ _ _ ↦ ?_
  exact (hcall _ _).bind fun _ _ _ _ ↦ neverFailsWith_pure _

theorem neverFailsWith_gcmTransform {universalHash : ByteString → ByteString → Block}
    (haad : aad.length * 8 < 2 ^ 64) {payload : ByteString} (hpayload : payload.length * 8 < 2 ^ 64)
    (hashSubkey encryptedCounters : ByteString) :
    NeverFailsWith .inputTooLong (gcmTransform (m := Observed σ ByteString ε) (ε := ε)
      (ghash universalHash) aad tagBits payload encrypting hashSubkey encryptedCounters) := by
  unfold gcmTransform
  refine (neverFailsWith_orPanic _).bind fun keyStream _ _ _ ↦ ?_
  have hciphertext :
      (if encrypting then maskBlocks payload keyStream else payload).length * 8 < 2 ^ 64 := by
    split_ifs
    · rw [maskBlocks_eq, length_xorBytes]
      omega
    · exact hpayload
  obtain ⟨value, hvalue⟩ := exists_ghash universalHash hashSubkey haad hciphertext
  dsimp only
  rw [hvalue]
  refine (neverFailsWith_pure value).bind fun _ _ _ _ ↦ ?_
  refine (neverFailsWith_orPanic _).bind fun _ _ _ _ ↦ ?_
  exact (neverFailsWith_orPanic _).bind fun _ _ _ _ ↦ neverFailsWith_pure _

/-- A payload within the limit of `gcm_with` is not refused for its length. -/
theorem neverFailsWith_gcmWith {universalHash : ByteString → ByteString → Block}
    (hparameters : AcceptsParameters iv aad tagBits)
    (hcount : (gcmPayload tagBits input encrypting).length ⌈/⌉ 16 ≤ 2 ^ 32 - 3)
    (callback : ByteString → StateM σ (Except ε ByteString)) :
    NeverFailsWith .inputTooLong
      (gcmWith (ghash universalHash) iv aad tagBits input encrypting (observed callback)) := by
  have hbits : ¬ aesBlockSize * 8 < tagBits := not_lt.mpr hparameters.tagBits_le
  unfold gcmWith
  dsimp only
  rw [if_neg hparameters.iv_ne_nil, if_neg hbits]
  refine NeverFailsWith.bind ?_ fun (payload, suppliedTag) _ _ hsplit ↦ ?_
  · rw [gcmSplit_eq]
    split
    · exact neverFailsWith_throw (by simp)
    · exact neverFailsWith_pure _
  · obtain ⟨rfl, -⟩ := run_gcmSplit_eq_ok hsplit
    have hcover := le_ceilDiv_mul (by decide : 0 < 16) (gcmPayload tagBits input encrypting).length
    have hshort : ¬ 2 ^ 32 - 1 - 2 <
        (gcmPayload tagBits input encrypting).length ⌈/⌉ aesBlockSize := not_lt.mpr hcount
    dsimp only
    rw [if_neg hshort]
    refine (neverFailsWith_gcmKeyStream hparameters.iv_bits_lt (by omega) callback).bind
      fun (hashSubkey, encryptedCounters) _ _ _ ↦ ?_
    refine (neverFailsWith_gcmTransform hparameters.aad_bits_lt (by omega) _ _).bind
      fun (transformed, expectedTag) _ _ _ ↦ ?_
    cases suppliedTag with
    | none => exact neverFailsWith_pure _
    | some suppliedTag =>
      dsimp only
      split_ifs
      · exact neverFailsWith_pure _
      · exact neverFailsWith_throw (by simp)

/-- The calls of an accepting run: the block of zeros, which answers the hash subkey, and the initial
counter block with one successor for every block of the payload. -/
def HandsOverCounters (hash : ByteString → ByteString → ByteString → Option Block)
    (iv : ByteString) (blockCount : ℕ) (calls : List (Call ByteString ε)) : Prop :=
  ∃ hashSubkey encryptedCounters j0 query, initialCounterBlock hash hashSubkey iv = some j0 ∧
    calls = [⟨List.replicate 16 0, .ok hashSubkey⟩, ⟨query, .ok encryptedCounters⟩] ∧
    chunks 16 query = List.iterate inc32 j0 (blockCount + 1)

theorem handsOverCounters_of_gcmKeyStream
    {callback : ByteString → StateM σ (Except ε ByteString)} {state : σ} {blockCount : ℕ}
    {stream : ByteString × ByteString} {final : σ × List (Call ByteString ε)}
    (hrun : (gcmKeyStream hash iv blockCount (observed callback)).run (state, []) =
      some (.ok stream, final)) : HandsOverCounters hash iv blockCount final.2 := by
  unfold gcmKeyStream at hrun
  obtain ⟨hashSubkey, zeroSession, hsubkey, hrun⟩ := run_bind_eq_ok_iff.mp hrun
  obtain ⟨counter, _, hcounter, hrun⟩ := run_bind_eq_ok_iff.mp hrun
  obtain ⟨j0, _, hj0, hrun⟩ := run_bind_eq_ok_iff.mp hrun
  obtain ⟨capacity, _, hcapacity, hrun⟩ := run_bind_eq_ok_iff.mp hrun
  obtain ⟨counterBlocks, _, hblocks, hrun⟩ := run_bind_eq_ok_iff.mp hrun
  obtain ⟨encryptedCounters, counterSession, hcall, hrun⟩ := run_bind_eq_ok_iff.mp hrun
  obtain ⟨-, rfl⟩ := run_pure_eq_ok_iff.mp hrun
  rw [run_orPanic_eq_ok_iff, gcmInitialCounter_eq_some, Option.some.injEq] at hcounter
  obtain ⟨rfl, rfl⟩ := hcounter
  rw [run_orThrow_eq_ok_iff, orError_eq_ok_iff] at hj0
  obtain ⟨hj0, rfl⟩ := hj0
  obtain ⟨-, rfl⟩ := run_orThrow_eq_ok_iff.mp hcapacity
  have hlength := length_initialCounterBlock hj0
  rw [run_orPanic_eq_ok_iff, gcmCounterBlocks_eq_iterate hlength, Option.some.injEq] at hblocks
  obtain ⟨rfl, rfl⟩ := hblocks
  refine ⟨hashSubkey, encryptedCounters, j0, (List.iterate inc32 j0 (blockCount + 1)).flatten, hj0,
    ?_, ?_⟩
  · rw [(run_checkedCall_of_eq_ok hcall).1, (run_checkedCall_of_eq_ok hsubkey).1]
    rfl
  · rw [iterate_inc32 hlength]
    have hne : j0 ≠ [] := List.length_pos_iff.mp (by omega)
    have hchunks : chunks j0.length (ctrBlocks 32 j0 (blockCount + 1)).flatten =
        ctrBlocks 32 j0 (blockCount + 1) := chunks_flatten_ctrBlocks hne _
    rwa [hlength] at hchunks

/-- Nothing is handed to the encryptor after the counter blocks. -/
theorem run_gcmTransform_eq_ok {payload hashSubkey encryptedCounters : ByteString}
    {result : ByteString × ByteString} {session final : σ × List (Call ByteString ε)}
    (hrun : (gcmTransform (m := Observed σ ByteString ε) (ε := ε) hash aad tagBits payload
      encrypting hashSubkey encryptedCounters).run session = some (.ok result, final)) :
    final = session := by
  unfold gcmTransform at hrun
  obtain ⟨keyStream, _, hkeyStream, hrun⟩ := run_bind_eq_ok_iff.mp hrun
  obtain ⟨value, _, hvalue, hrun⟩ := run_bind_eq_ok_iff.mp hrun
  obtain ⟨mask, _, hmask, hrun⟩ := run_bind_eq_ok_iff.mp hrun
  obtain ⟨expectedTag, _, htag, hrun⟩ := run_bind_eq_ok_iff.mp hrun
  obtain ⟨-, rfl⟩ := run_orPanic_eq_ok_iff.mp hkeyStream
  obtain ⟨-, rfl⟩ := run_orThrow_eq_ok_iff.mp hvalue
  obtain ⟨-, rfl⟩ := run_orPanic_eq_ok_iff.mp hmask
  obtain ⟨-, rfl⟩ := run_orPanic_eq_ok_iff.mp htag
  exact (run_pure_eq_ok_iff.mp hrun).2.symm

theorem handsOverCounters_of_gcmWith {callback : ByteString → StateM σ (Except ε ByteString)}
    {state : σ} {output : ByteString} {final : σ × List (Call ByteString ε)}
    (hrun : (gcmWith hash iv aad tagBits input encrypting (observed callback)).run (state, []) =
      some (.ok output, final)) :
    HandsOverCounters hash iv ((gcmPayload tagBits input encrypting).length ⌈/⌉ 16) final.2 := by
  unfold gcmWith at hrun
  obtain ⟨-, hrun⟩ := run_ite_throw_eq_ok_iff.mp hrun
  obtain ⟨-, hrun⟩ := run_ite_throw_eq_ok_iff.mp hrun
  obtain ⟨⟨payload, suppliedTag⟩, _, hsplit, hrun⟩ := run_bind_eq_ok_iff.mp hrun
  obtain ⟨rfl, rfl⟩ := run_gcmSplit_eq_ok hsplit
  obtain ⟨-, hrun⟩ := run_ite_throw_eq_ok_iff.mp hrun
  obtain ⟨stream, middle, hstream, hrun⟩ := run_bind_eq_ok_iff.mp hrun
  obtain ⟨⟨transformed, expectedTag⟩, tagSession, htransform, hverify⟩ :=
    run_bind_eq_ok_iff.mp hrun
  have hsession : tagSession = final := by
    cases suppliedTag with
    | none => exact (run_pure_eq_ok_iff.mp hverify).2
    | some suppliedTag =>
      dsimp only at hverify
      by_cases hequal : expectedTag = suppliedTag
      · rw [if_pos hequal, run_pure_eq_ok_iff] at hverify
        exact hverify.2
      · rw [if_neg hequal] at hverify
        exact absurd hverify run_throw_ne_ok
  rw [← hsession, run_gcmTransform_eq_ok htransform]
  exact handsOverCounters_of_gcmKeyStream hstream

/-! ### The limit of the standard -/

/-- Whatever the block encryptor does: an input is refused for its length exactly when its payload is
longer than the standard allows, and when it is accepted, the initial counter block and its
successors that are handed to the encryptor are distinct. -/
def MeetsLengthLimit (universalHash : ByteString → ByteString → Block) (iv aad : ByteString)
    (tagBits : ℕ) (input : ByteString) (encrypting : Bool) : Prop :=
  ∀ (σ ε : Type) (callback : ByteString → StateM σ (Except ε ByteString)) (state : σ),
    ∃ result calls,
      runObserved (gcmWith (ghash universalHash) iv aad tagBits input encrypting
          (observed callback)) state = some (result, calls) ∧
        (result = .error .inputTooLong ↔
          2 ^ 39 - 256 < 8 * (gcmPayload tagBits input encrypting).length) ∧
        ∀ output, result = .ok output →
          HandsOverCounters (ghash universalHash) iv
            ((gcmPayload tagBits input encrypting).length ⌈/⌉ 16) calls ∧
          ∀ call ∈ calls, (chunks 16 call.query).Nodup

/-- The limit in bits is a limit of `2 ^ 32 - 2` blocks. -/
theorem limit_lt_iff (payload : ByteString) :
    2 ^ 39 - 256 < 8 * payload.length ↔ 2 ^ 32 - 2 < payload.length ⌈/⌉ 16 := by
  rw [Nat.ceilDiv_eq_add_pred_div]
  omega

/-- The counter blocks that are handed over are distinct as long as there are at most as many as 32
bits have values. -/
theorem HandsOverCounters.nodup {blockCount : ℕ} {calls : List (Call ByteString ε)}
    (hcalls : HandsOverCounters hash iv blockCount calls) (hcount : blockCount + 1 ≤ 2 ^ 32) :
    ∀ call ∈ calls, (chunks 16 call.query).Nodup := by
  obtain ⟨hashSubkey, encryptedCounters, j0, query, hj0, rfl, hchunks⟩ := hcalls
  have hzeros : (chunks 16 (List.replicate 16 (0 : UInt8))).Nodup := by decide
  have hcounters : (chunks 16 query).Nodup := by
    rw [hchunks]
    exact nodup_iterate_inc32 (length_initialCounterBlock hj0) hcount
  intro call hcall
  rcases List.mem_pair.mp hcall with rfl | rfl
  · exact hzeros
  · exact hcounters

/-- A payload within the limit of `gcm_with` is encrypted with distinct counter blocks. -/
theorem exists_runObserved_gcmWith (universalHash : ByteString → ByteString → Block)
    (hparameters : AcceptsParameters iv aad tagBits)
    (hcount : (gcmPayload tagBits input encrypting).length ⌈/⌉ 16 ≤ 2 ^ 32 - 3)
    (callback : ByteString → StateM σ (Except ε ByteString)) (state : σ) :
    ∃ result calls,
      runObserved (gcmWith (ghash universalHash) iv aad tagBits input encrypting
          (observed callback)) state = some (result, calls) ∧
        result ≠ .error .inputTooLong ∧
        ∀ output, result = .ok output →
          HandsOverCounters (ghash universalHash) iv
            ((gcmPayload tagBits input encrypting).length ⌈/⌉ 16) calls := by
  obtain ⟨result, state', calls, hrun, -⟩ :=
    stops_gcmWith callback (ghash universalHash) iv aad tagBits input encrypting state []
  refine ⟨result, calls, ?_, ?_, ?_⟩
  · rw [runObserved, hrun]
    rfl
  · rintro rfl
    exact neverFailsWith_gcmWith hparameters hcount callback _ _ hrun
  · rintro output rfl
    exact handsOverCounters_of_gcmWith hrun

/-- `gcm_with` meets the limit of the standard, except that it refuses a payload of `2 ^ 32 - 2`
blocks, which the standard allows. Its counter blocks never repeat.

Assumes that the initialization vector, the associated data and the tag length are accepted
(`AcceptsParameters`). The hash and the block function are any. -/
theorem meetsLengthLimit_iff (universalHash : ByteString → ByteString → Block)
    (hparameters : AcceptsParameters iv aad tagBits) :
    MeetsLengthLimit universalHash iv aad tagBits input encrypting ↔
      (gcmPayload tagBits input encrypting).length ⌈/⌉ 16 ≠ 2 ^ 32 - 2 := by
  have hrefuses : ∀ {σ ε : Type} {callback : ByteString → StateM σ (Except ε ByteString)}
      {state : σ}, 2 ^ 32 - 3 < (gcmPayload tagBits input encrypting).length ⌈/⌉ 16 →
      runObserved (gcmWith (ghash universalHash) iv aad tagBits input encrypting
        (observed callback)) state = some (.error .inputTooLong, []) := by
    intro σ ε callback state hlong
    rw [gcmWith_eq_throw hparameters hlong]
    rfl
  constructor
  · intro hmeets hcount
    obtain ⟨result, calls, hrun, hlimit, -⟩ :=
      hmeets Unit Unit (fun query ↦ pure (.ok query)) ()
    rw [hrefuses (by omega), Option.some.injEq, Prod.mk.injEq] at hrun
    rw [limit_lt_iff, hcount] at hlimit
    exact absurd (hlimit.mp hrun.1.symm) (by omega)
  · intro hcount σ ε callback state
    rw [limit_lt_iff]
    by_cases hlong : 2 ^ 32 - 3 < (gcmPayload tagBits input encrypting).length ⌈/⌉ 16
    · refine ⟨_, _, hrefuses hlong, iff_of_true rfl (by omega), fun output houtput ↦ ?_⟩
      exact Except.noConfusion rfl rfl (heq_of_eq houtput)
    · obtain ⟨result, calls, hrun, hresult, hcalls⟩ :=
        exists_runObserved_gcmWith universalHash hparameters (not_lt.mp hlong) callback state
      refine ⟨result, calls, hrun, iff_of_false hresult (by omega), fun output houtput ↦ ?_⟩
      exact ⟨hcalls output houtput, (hcalls output houtput).nodup (by omega)⟩

/-- A payload of `2 ^ 32 - 2` blocks of zeros, with an initialization vector of twelve bytes. -/
theorem not_meetsLengthLimit_longest :
    ¬ MeetsLengthLimit onesHash (List.replicate 12 0) [] 128
      (List.replicate (16 * (2 ^ 32 - 2)) 0) true := by
  have hparameters : AcceptsParameters (List.replicate 12 0) [] 128 :=
    ⟨by decide, by decide, by decide, by decide⟩
  have hlength : (gcmPayload 128 (List.replicate (16 * (2 ^ 32 - 2)) 0) true).length =
      16 * (2 ^ 32 - 2) := List.length_replicate
  intro hmeets
  obtain ⟨result, calls, hrun, hlimit, -⟩ := hmeets Unit Unit (fun query ↦ pure (.ok query)) ()
  have hlong : 2 ^ 32 - 3 <
      (gcmPayload 128 (List.replicate (16 * (2 ^ 32 - 2)) 0) true).length ⌈/⌉ 16 := by
    rw [hlength]
    decide
  rw [gcmWith_eq_throw hparameters hlong] at hrun
  rw [hlength] at hlimit
  obtain ⟨rfl, -⟩ := Prod.mk.inj (Option.some.inj hrun)
  exact absurd (hlimit.mp rfl) (by decide)

/-- One byte after a hashed initial counter block that wraps. -/
theorem meetsLengthLimit_iff_byte :
    MeetsLengthLimit onesHash [0x01] [] 128 [0x61] true :=
  (meetsLengthLimit_iff onesHash ⟨by decide, by decide, by decide, by decide⟩).mpr (by decide)

end SoftwareKeyCore.Gcm
