import SoftwareKeyCore.CounterKdf

/-!
# The SCP03 key derivation

`secure_channel.rs`, `scp03_kdf`: the counter-mode derivation of secure channel keys with
AES-CMAC, written without the generic KDF of `counter_kdf.rs`. `scp03Fields` are the fields with
which the generic KDF computes the same: `cmacCounterKdf_scp03Fields` is what it computes on them,
`scp03Kdf_eq_ok_iff_stream` what `scp03_kdf` computes, and `scp03Kdf_eq_ok_iff` that the two
accept the same arguments with the same output.
-/

set_option autoImplicit false
set_option relaxedAutoImplicit false

namespace SoftwareKeyCore.SecureChannel

open ByteString CallbackSession CheckedSlice Cmac CounterKdf FallibleResult Panicking
  SoftwareSymmetric

/-- `SecureChannelCryptoError`. -/
inductive SecureChannelCryptoError
  | invalidDataLength
  | invalidPadding
  | keyDerivationFailed
  | outputTooLong
  | symmetric (error : SoftwareSymmetricError)
  deriving DecidableEq, Repr

/-- The input of the CMAC of `scp03_kdf` at a counter. -/
def scp03Input (derivationConstant : UInt8) (context : ByteString) (outputBits : UInt16)
    (counter : ℕ) : ByteString :=
  List.replicate 11 0 ++ [derivationConstant] ++ [0] ++ toBeBytes 2 outputBits.toNat ++
    [UInt8.ofNat counter] ++ context

/-- The body of the loop of `scp03_kdf`. -/
def scp03Step (cmac : AesCmac) (key : ByteString) (derivationConstant : UInt8)
    (context : ByteString) (outputBits : UInt16) (output : ByteString) (counter : ℕ) :
    Except SecureChannelCryptoError ByteString := do
  let block ← (aesCmac cmac key (scp03Input derivationConstant context outputBits counter)).mapError
    .symmetric
  .ok (output ++ block.toList)

/-- `scp03_kdf`. -/
def scp03Kdf (cmac : AesCmac) (key : ByteString) (derivationConstant : UInt8)
    (context : ByteString) (outputBits : UInt16) :
    Except SecureChannelCryptoError ByteString :=
  if outputBits = 0 ∨ ¬ 8 ∣ outputBits.toNat then .error .invalidDataLength
  else
    let outputLength := outputBits.toNat / 8
    let iterations := outputLength ⌈/⌉ aesBlockSize
    if 255 < iterations then .error .outputTooLong
    else do
      let output ← (List.range' 1 iterations).foldlM
        (scp03Step cmac key derivationConstant context outputBits) []
      .ok (output.take outputLength)

/-- The fields of SCP03: eleven zeros, the derivation constant and a zero, the length of the
output in bits, the counter, and the context. -/
def scp03Fields (derivationConstant : UInt8) (context : ByteString) : List CounterKdfField :=
  [.bytes (List.replicate 11 0 ++ [derivationConstant] ++ [0]),
    .length ⟨16, false⟩ .key,
    .counter ⟨8, false⟩,
    .bytes context]

variable {cmac : AesCmac} {key context : ByteString} {derivationConstant : UInt8}
  {outputBits : UInt16}

/-- The stream of the CMAC blocks of the iterations. -/
def scp03Stream (cmac : AesCmac) (key : ByteString) (derivationConstant : UInt8)
    (context : ByteString) (outputBits : UInt16) (iterations : ℕ) : ByteString :=
  (List.range' 1 iterations).flatMap fun counter ↦
    (cmac key (scp03Input derivationConstant context outputBits counter)).toList

/-! ### What `scp03_kdf` computes -/

/-- A key of an AES size. -/
abbrev IsAesKey (key : ByteString) : Prop :=
  key.length = 16 ∨ key.length = 24 ∨ key.length = 32

theorem aesCmac_of_isAesKey (hkey : IsAesKey key) (data : ByteString) :
    aesCmac cmac key data = .ok (cmac key data) :=
  if_pos hkey

/-- With a key of an AES size the loop of `scp03_kdf` computes the stream. -/
theorem foldlM_scp03Step (hkey : IsAesKey key) (counters : List ℕ) (output : ByteString) :
    counters.foldlM (scp03Step cmac key derivationConstant context outputBits) output =
      .ok (output ++ counters.flatMap fun counter ↦
        (cmac key (scp03Input derivationConstant context outputBits counter)).toList) := by
  induction counters generalizing output with
  | nil =>
    rw [List.flatMap_nil, List.append_nil]
    rfl
  | cons counter counters ih =>
    have hstep : scp03Step cmac key derivationConstant context outputBits output counter =
        .ok (output ++
          (cmac key (scp03Input derivationConstant context outputBits counter)).toList) := by
      rw [scp03Step, aesCmac_of_isAesKey hkey]
      rfl
    rw [List.foldlM_cons, hstep, ok_bind, ih, List.flatMap_cons, List.append_assoc]

/-- Without one the first iteration fails. -/
theorem foldlM_scp03Step_ne_ok (hkey : ¬ IsAesKey key) {iterations : ℕ} (hpositive : 0 < iterations)
    (output result : ByteString) :
    (List.range' 1 iterations).foldlM
      (scp03Step cmac key derivationConstant context outputBits) output ≠ .ok result := by
  obtain ⟨rest, rfl⟩ := Nat.exists_eq_succ_of_ne_zero hpositive.ne'
  have hcmac : aesCmac cmac key (scp03Input derivationConstant context outputBits 1) =
      .error .invalidKeyLength := if_neg hkey
  have hstep : scp03Step cmac key derivationConstant context outputBits output 1 =
      .error (.symmetric .invalidKeyLength) := by
    rw [scp03Step, hcmac]
    rfl
  rw [List.range'_succ, List.foldlM_cons, hstep]
  exact fun hresult ↦ Except.noConfusion rfl rfl (heq_of_eq hresult)

/-- A positive multiple of eight bits is at least one byte, and at least one block. -/
theorem outputLength_pos (hbits : outputBits ≠ 0) (hdvd : 8 ∣ outputBits.toNat) :
    0 < outputBits.toNat / 8 := by
  have hne : outputBits.toNat ≠ 0 := fun hzero ↦ hbits (UInt16.toNat_inj.mp hzero)
  omega

theorem iterations_pos (hbits : outputBits ≠ 0) (hdvd : 8 ∣ outputBits.toNat) :
    0 < outputBits.toNat / 8 ⌈/⌉ 16 := by
  have hlength := outputLength_pos hbits hdvd
  rw [Nat.ceilDiv_eq_add_pred_div]
  omega

/-- What `scp03_kdf` accepts, and computes. -/
theorem scp03Kdf_eq_ok_iff_stream {output : ByteString} :
    scp03Kdf cmac key derivationConstant context outputBits = .ok output ↔
      (outputBits ≠ 0 ∧ 8 ∣ outputBits.toNat) ∧ outputBits.toNat / 8 ⌈/⌉ 16 ≤ 255 ∧
        IsAesKey key ∧
          (scp03Stream cmac key derivationConstant context outputBits
            (outputBits.toNat / 8 ⌈/⌉ 16)).take (outputBits.toNat / 8) = output := by
  unfold scp03Kdf
  dsimp only
  rw [ite_error_eq_ok_iff, ite_error_eq_ok_iff, not_or, not_not, not_lt]
  refine and_congr_right fun hbits ↦ and_congr_right fun _ ↦ ?_
  by_cases hkey : IsAesKey key
  · rw [foldlM_scp03Step hkey, ok_bind, Except.ok.injEq, List.nil_append, ← scp03Stream,
      and_iff_right hkey]
  · refine iff_of_false (fun hresult ↦ ?_) fun h ↦ hkey h.1
    have hpositive := iterations_pos hbits.1 hbits.2
    obtain ⟨result, hloop, -⟩ := bind_eq_ok_iff.mp hresult
    exact foldlM_scp03Step_ne_ok hkey hpositive [] result hloop

/-! ### What the generic KDF computes -/

/-- The fields pass the validation exactly when the number of blocks fits the counter. -/
theorem scanFields_scp03Fields {blocks keyBits segmentBits : ℕ} (hbits : keyBits < 2 ^ 16)
    (hcontext : context.length < 2 ^ 32) :
    scanFields blocks keyBits segmentBits (scp03Fields derivationConstant context) =
      if blocks < 2 ^ 8 then .ok ⟨some ⟨8, false⟩, some keyBits, 16 + context.length⟩
      else .error .outputTooLong := by
  have hlabel : scanField blocks keyBits segmentBits ⟨none, none, 0⟩
      (.bytes (List.replicate 11 0 ++ [derivationConstant] ++ [0])) =
        .ok ⟨none, none, 13⟩ := rfl
  have hfitsLength : (⟨16, false⟩ : IntegerFormat).Fits keyBits := Or.inr hbits
  have hlength : scanField blocks keyBits segmentBits ⟨none, none, 13⟩
      (.length ⟨16, false⟩ .key) = .ok ⟨none, some keyBits, 15⟩ := by
    rw [scanField, fieldSize, if_neg (by decide), if_neg (not_not.mpr hfitsLength), ok_bind]
    rfl
  have hcounter : scanField blocks keyBits segmentBits ⟨none, some keyBits, 15⟩
      (.counter ⟨8, false⟩) = if blocks < 2 ^ 8 then .ok ⟨some ⟨8, false⟩, some keyBits, 16⟩
        else .error .outputTooLong := by
    have hfits : (⟨8, false⟩ : IntegerFormat).Fits blocks ↔ blocks < 2 ^ 8 :=
      or_iff_right (by decide)
    have hvalid : ¬ (¬ (⟨8, false⟩ : IntegerFormat).Valid 32 ∨
        (none : Option IntegerFormat).isSome) := by decide
    rw [scanField, fieldSize]
    by_cases hblocks : blocks < 2 ^ 8
    · rw [if_neg hvalid, if_neg (not_not.mpr (hfits.mpr hblocks)), if_pos hblocks, ok_bind]
      rfl
    · rw [if_neg hvalid, if_pos (mt hfits.mp hblocks), if_neg hblocks]
      rfl
  have hcontextField : scanField blocks keyBits segmentBits
      ⟨some ⟨8, false⟩, some keyBits, 16⟩ (.bytes context) =
        .ok ⟨some ⟨8, false⟩, some keyBits, 16 + context.length⟩ := by
    rw [scanField, fieldSize, ok_bind]
    dsimp only
    rw [checkedAdd_eq_some_iff.mpr ⟨by omega, rfl⟩]
    rfl
  rw [scanFields, scp03Fields, List.foldlM_cons, hlabel, ok_bind, List.foldlM_cons, hlength,
    ok_bind, List.foldlM_cons, hcounter]
  split_ifs
  · rw [ok_bind, List.foldlM_cons, hcontextField, ok_bind]
    rfl
  · rfl

/-- The input of an iteration is the input of `scp03_kdf`. -/
theorem fieldInput_scp03Fields {ε : Type} (iteration : ℕ) :
    answer (fieldInput (m := Option) (ε := ε) (scp03Fields derivationConstant context)
        (some outputBits.toNat) iteration) =
      some (.ok (scp03Input derivationConstant context outputBits iteration)) := by
  have hlength : (⟨16, false⟩ : IntegerFormat).append outputBits.toNat =
      some (toBeBytes 2 outputBits.toNat) := append_bigEndian (by decide : 2 ≤ 8) _
  have hcounter : (⟨8, false⟩ : IntegerFormat).append iteration = some (toBeBytes 1 iteration) :=
    append_bigEndian (by decide : 1 ≤ 8) _
  have hbyte : toBeBytes 1 iteration = [UInt8.ofNat iteration] := by
    rw [toBeBytes, pow_zero, Nat.div_one]
    rfl
  unfold fieldInput scp03Fields
  simp only [List.foldlM_cons, List.foldlM_nil, fieldBytes, hlength, hcounter, hbyte,
    orPanic_some_bind, pure_bind, orThrow_orError_some_bind]
  rfl

/-- What the generic KDF accepts of SCP03, and computes. -/
theorem cmacCounterKdf_scp03Fields (hbits : outputBits ≠ 0) (hdvd : 8 ∣ outputBits.toNat)
    (hcontext : context.length < 2 ^ 32) {output : ByteString} :
    cmacCounterKdf cmac key (scp03Fields derivationConstant context) (outputBits.toNat / 8) =
        some (.ok output) ↔
      outputBits.toNat / 8 ⌈/⌉ 16 ≤ 255 ∧ IsAesKey key ∧
        (scp03Stream cmac key derivationConstant context outputBits
          (outputBits.toNat / 8 ⌈/⌉ 16)).take (outputBits.toNat / 8) = output := by
  have hlength := outputLength_pos hbits hdvd
  have hword := outputBits.toNat_lt
  have hkeyBits : checkedMul (outputBits.toNat / 8) 8 = some outputBits.toNat :=
    checkedMul_eq_some_iff.mpr ⟨by omega, Nat.div_mul_cancel hdvd⟩
  have hsegments : (outputBits.toNat / 8 ⌈/⌉ 16) * 128 < 2 ^ 64 := by
    rw [Nat.ceilDiv_eq_add_pred_div]
    omega
  have hinput : ¬ ((some (⟨8, false⟩ : IntegerFormat)).isNone ∨
      2 ^ 63 - 1 < 16 + context.length) := by
    rw [Option.isNone_some]
    simp only [Bool.false_eq_true, false_or, not_lt]
    omega
  unfold cmacCounterKdf
  by_cases hkey : IsAesKey key
  swap
  · rw [if_pos hkey]
    refine iff_of_false (fun h ↦ ?_) fun h ↦ hkey h.2.1
    exact Except.noConfusion rfl rfl (heq_of_eq (Option.some.inj h))
  rw [if_neg (not_not.mpr hkey), and_iff_right hkey]
  unfold cmacCounterKdfWith
  rw [if_neg hlength.ne', hkeyBits, orThrow_orError_some_bind,
    checkedMul_eq_some_iff.mpr ⟨hsegments, rfl⟩, orThrow_orError_some_bind,
    scanFields_scp03Fields hword hcontext]
  by_cases hblocks : outputBits.toNat / 8 ⌈/⌉ 16 < 2 ^ 8
  · have hloop : answer ((List.range' 1 (outputBits.toNat / 8 ⌈/⌉ 16)).foldlM
        (deriveBlock (scp03Fields derivationConstant context) (some outputBits.toNat)
          (outputBits.toNat / 8) (answering (aesCmac cmac key))) []) =
        some (.ok ((scp03Stream cmac key derivationConstant context outputBits
          (outputBits.toNat / 8 ⌈/⌉ 16)).take (outputBits.toNat / 8))) :=
      answer_deriveBlocks (outputBits.toNat / 8)
        (fun iteration _ ↦ fieldInput_scp03Fields iteration)
        (fun iteration _ ↦ aesCmac_of_isAesKey hkey _)
    have hscan : ∀ (scan : FieldScan) (continuation : FieldScan →
        Panicking (CounterKdfOperationError SoftwareSymmetricError) ByteString),
        (orThrow ((Except.ok scan).mapError .kdf) >>= continuation) = continuation scan :=
      fun scan continuation ↦ pure_bind scan continuation
    rw [if_pos hblocks, hscan, if_neg hinput, hloop, Option.map_some, Option.some.injEq,
      mapError_eq_ok_iff, Except.ok.injEq, and_iff_right (Nat.le_of_lt_succ hblocks)]
  · rw [if_neg hblocks]
    refine iff_of_false (fun h ↦ ?_) fun h ↦ hblocks (Nat.lt_succ_of_le h.1)
    exact Except.noConfusion rfl rfl (heq_of_eq (Option.some.inj h))

/-- The SCP03 derivation is the generic counter KDF on the fields of SCP03: it accepts a key, a
derivation constant, a context and a number of bits with an output exactly when the number is a
positive multiple of eight and the generic KDF accepts the fields with the same output.

Assumes nothing of AES-CMAC, and of the context only that its length is below `2 ^ 32`. -/
theorem scp03Kdf_eq_ok_iff (cmac : AesCmac) (key : ByteString) (derivationConstant : UInt8)
    {context : ByteString} (hcontext : context.length < 2 ^ 32) (outputBits : UInt16)
    (output : ByteString) :
    scp03Kdf cmac key derivationConstant context outputBits = .ok output ↔
      (outputBits ≠ 0 ∧ 8 ∣ outputBits.toNat) ∧
        cmacCounterKdf cmac key (scp03Fields derivationConstant context)
          (outputBits.toNat / 8) = some (.ok output) := by
  rw [scp03Kdf_eq_ok_iff_stream]
  refine and_congr_right fun hbits ↦ ?_
  rw [cmacCounterKdf_scp03Fields hbits.1 hbits.2 hcontext]

/-- A derivation of 192 bits, which cuts its second block, over the CMAC that answers the first
bytes of the key. -/
theorem scp03Kdf_eq_ok_iff_sampleKey :
    cmacCounterKdf (fun key _ ↦ ⟨resize key 16 0, length_resize key 16 0⟩)
        (List.replicate 16 0x40) (scp03Fields 0x04 [0x01, 0x02]) 24 =
      some (.ok (List.replicate 24 0x40)) := by
  have hcontext : ([0x01, 0x02] : ByteString).length < 2 ^ 32 := by decide
  exact ((scp03Kdf_eq_ok_iff (fun key _ ↦ ⟨resize key 16 0, length_resize key 16 0⟩)
    (List.replicate 16 0x40) 0x04 hcontext 192 (List.replicate 24 0x40)).mp (by decide)).2

end SoftwareKeyCore.SecureChannel
