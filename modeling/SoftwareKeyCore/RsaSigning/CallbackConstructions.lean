import SoftwareKeyCore.Foundation.CallbackSession
import SoftwareKeyCore.Foundation.CheckedSlice
import SoftwareKeyCore.RsaSigning.Oaep

/-!
# RSA constructions over a caller-supplied raw operation

`rsa_signing.rs`, the constructions that encode or decode around one raw RSA operation of the
caller: `pkcs1v15_sign_with`, `pss_sign_with`, `oaep_encrypt_with`, `oaep_decrypt_with` and
`pkcs1v15_decrypt_with`, with the encodings `pkcs1v15_encoded_payload` and `pss_encoded_digest`
and the decoding `rsa_pkcs1v15_unpad`. Slices, subtractions, and the sums and products of lengths
are checked: an index out of range or an overflow is a panic of the model.

`Checked.rsaOaepUnpadDigest` is the decoding of `Oaep` with its slices checked, and
`answer_checked_rsaOaepUnpadDigest` says that they stay within bounds. The encodings do not panic
for a modulus of sufficient size (`exists_answer_pkcs1v15EncodedPayload`,
`exists_answer_pssEncodedDigest`, `exists_answer_rsaOaepPadDigest`), and the decodings do not
panic at all. `stops_pkcs1v15SignWith` and its siblings are what follows for the constructions.
-/

set_option autoImplicit false
set_option relaxedAutoImplicit false

namespace SoftwareKeyCore

/-- `RsaPssParameters`. -/
structure RsaPssParameters where
  hash : HashAlgorithm
  mgfHash : HashAlgorithm
  saltLength : ℕ

/-- `AsymmetricConstructionError`, over the error type of the raw operation. -/
inductive AsymmetricConstructionError (ε : Type)
  | encoding (error : RsaConstructionError)
  | operation (error : ε)
  | invalidOperationOutput
  deriving DecidableEq, Repr

namespace RsaSigning

open ByteString CallbackSession CheckedSlice Panicking

variable (hashes : HashFunctions)

/-! ### Encodings -/

/-- `pkcs1v15_encoded_payload`, without the capacities of its vector, which overflow for no modulus
of a key (`Allocated.pkcs1v15EncodedPayload`). -/
def pkcs1v15EncodedPayload (modulusSize : ℕ) (payload : ByteString) :
    Panicking RsaConstructionError ByteString :=
  if modulusSize - 11 < payload.length then throw .inputTooLong
  else do
    let withoutPayload ← checkedSub modulusSize payload.length
    let separator ← checkedSub withoutPayload 1
    pure (resize [0, 1] separator 0xff ++ [0] ++ payload)

/-- `pss_encoded_digest`. -/
def pssEncodedDigest (fill : RandomFill) (modulusBits : ℕ) (parameters : RsaPssParameters)
    (digest : ByteString) : Panicking RsaConstructionError ByteString :=
  if digest.length ≠ parameters.hash.outputLength then throw .invalidDigestLength
  else match subtract modulusBits 1 with
    | none => throw .invalidKey
    | some emBits => do
      let emLength := emBits ⌈/⌉ 8
      let hashLength := parameters.hash.outputLength
      let withSalt ← orPanic (checkedAdd hashLength parameters.saltLength)
      let required ← orPanic (checkedAdd withSalt 2)
      if emLength < required then throw .inputTooLong
      else match fill parameters.saltLength with
        | none => throw .randomnessUnavailable
        | some salt => do
          let h := hashes.digest parameters.hash
            (List.replicate 8 0 ++ digest ++ salt.toList)
          let withoutSalt ← checkedSub emLength parameters.saltLength
          let withoutHash ← checkedSub withoutSalt hashLength
          let zeros ← checkedSub withoutHash 2
          let db := List.replicate zeros 0 ++ [1] ++ salt.toList
          let mask ← ofResult id (mgf1 hashes h db.length parameters.mgfHash)
          let db := xorInPlace db mask
          let usedBits ← orPanic (checkedMul 8 emLength)
          let unused ← checkedSub usedBits emBits
          let topMask ← orPanic
            (if unused < 8 then some ((0xff : UInt8) >>> UInt8.ofNat unused) else none)
          let db ← orPanic (modifyByte db 0 (· &&& topMask))
          pure (db ++ h ++ [0xbc])

/-! ### Decodings -/

/-- The registers of the scan of `rsa_pkcs1v15_unpad` for the separator. -/
structure Pkcs1v15Scan where
  found : Bool
  separator : ℕ
  deriving DecidableEq, Repr

/-- The body of the scan at a byte and its index. -/
def pkcs1v15ScanStep (scan : Pkcs1v15Scan) (entry : UInt8 × ℕ) : Pkcs1v15Scan :=
  let isSeparator := decide (entry.1 = 0)
  let useIndex := !scan.found && isSeparator
  { found := scan.found || isSeparator
    separator := if useIndex then entry.2 + 2 else scan.separator }

/-- `rsa_pkcs1v15_unpad`. -/
def rsaPkcs1v15Unpad (encoded : ByteString) : Panicking RsaConstructionError ByteString :=
  if encoded.length < 11 then throw .operationFailed
  else do
    let first ← orPanic encoded[0]?
    let second ← orPanic encoded[1]?
    let valid := decide (first = 0) && decide (second = 2)
    let rest ← orPanic (sliceFrom encoded 2)
    let scan := rest.zipIdx.foldl pkcs1v15ScanStep { found := false, separator := 0 }
    let valid := valid && (scan.found && decide (9 < scan.separator))
    if !valid then throw .operationFailed
    else orPanic (sliceFrom encoded (scan.separator + 1))

/-- `rsa_oaep_unpad_digest`, with its slices checked. -/
def Checked.rsaOaepUnpadDigest (encoded labelDigest : ByteString) (mgfHash : HashAlgorithm) :
    Panicking RsaConstructionError ByteString :=
  let hashLength := labelDigest.length
  if encoded.length < 2 * hashLength + 2 ∨ hashLength = 0 then throw .operationFailed
  else do
    let masked ← orPanic (sliceFrom encoded 1)
    let maskedSeed ← orPanic (sliceTo masked hashLength)
    let maskedDb ← orPanic (sliceFrom masked hashLength)
    let seedMask ← orThrow (mgf1 hashes maskedDb hashLength mgfHash)
    let seed := xorBytes maskedSeed seedMask
    let dbMask ← orThrow (mgf1 hashes seed maskedDb.length mgfHash)
    let db := xorBytes maskedDb dbMask
    let first ← orPanic encoded[0]?
    let head ← orPanic (sliceTo db hashLength)
    let valid := decide (first = 0) && decide (head = labelDigest)
    let rest ← orPanic (sliceFrom db hashLength)
    let scan := rest.zipIdx.foldl scanStep { looking := true, separator := 0, valid := valid }
    if scan.valid && !scan.looking then orPanic (sliceFrom rest (scan.separator + 1))
    else throw .operationFailed

/-! ### The constructions -/

section Constructions

variable {m : Type → Type} [Monad m] [CanPanic m] {ε ε' α : Type}

/-- The answer of a computation that may panic, with its error wrapped. -/
def liftPanicking (wrap : ε → ε') (computation : Panicking ε α) : ExceptT ε' m α := do
  let result ← orPanic (answer computation)
  orThrow (result.mapError wrap)

/-- `pkcs1v15_sign_with`. -/
def pkcs1v15SignWith (modulusSize : ℕ) (payload : ByteString)
    (privateOperation : ByteString → m (Except ε ByteString)) :
    ExceptT (AsymmetricConstructionError ε) m ByteString := do
  let encoded ← liftPanicking .encoding (pkcs1v15EncodedPayload modulusSize payload)
  checkedCall .operation .invalidOperationOutput modulusSize (privateOperation encoded)

/-- `pss_sign_with`. -/
def pssSignWith (fill : RandomFill) (modulusBits : ℕ) (parameters : RsaPssParameters)
    (digest : ByteString) (privateOperation : ByteString → m (Except ε ByteString)) :
    ExceptT (AsymmetricConstructionError ε) m ByteString := do
  let encoded ← liftPanicking .encoding
    (pssEncodedDigest hashes fill modulusBits parameters digest)
  checkedCall .operation .invalidOperationOutput (modulusBits ⌈/⌉ 8) (privateOperation encoded)

/-- `oaep_encrypt_with`. -/
def oaepEncryptWith (fill : RandomFill) (modulusSize : ℕ) (plaintext labelDigest : ByteString)
    (mgfHash : HashAlgorithm) (publicOperation : ByteString → m (Except ε ByteString)) :
    ExceptT (AsymmetricConstructionError ε) m ByteString := do
  let encoded ← liftPanicking .encoding
    (rsaOaepPadDigest hashes fill plaintext modulusSize labelDigest mgfHash)
  checkedCall .operation .invalidOperationOutput modulusSize (publicOperation encoded)

/-- `oaep_decrypt_with`. -/
def oaepDecryptWith (modulusSize : ℕ) (ciphertext labelDigest : ByteString)
    (mgfHash : HashAlgorithm) (privateOperation : ByteString → m (Except ε ByteString)) :
    ExceptT (AsymmetricConstructionError ε) m ByteString := do
  let encoded ← checkedCall .operation .invalidOperationOutput modulusSize
    (privateOperation ciphertext)
  liftPanicking .encoding (Checked.rsaOaepUnpadDigest hashes encoded labelDigest mgfHash)

/-- `pkcs1v15_decrypt_with`. -/
def pkcs1v15DecryptWith (modulusSize : ℕ) (ciphertext : ByteString)
    (privateOperation : ByteString → m (Except ε ByteString)) :
    ExceptT (AsymmetricConstructionError ε) m ByteString := do
  let encoded ← checkedCall .operation .invalidOperationOutput modulusSize
    (privateOperation ciphertext)
  liftPanicking .encoding (rsaPkcs1v15Unpad encoded)

end Constructions

/-- A computation that may panic, without a callback, answers as it does with its error wrapped. -/
theorem answer_liftPanicking {ε ε' α : Type} (wrap : ε → ε') (computation : Panicking ε α) :
    answer (liftPanicking wrap computation : Panicking ε' α) =
      (answer computation).map (Except.mapError wrap) := by
  unfold liftPanicking
  cases answer computation with
  | none => rfl
  | some result =>
    rw [orPanic_some_bind]
    rfl

/-! ### Encodings do not panic -/

/-- A modulus of one byte or more is encoded for without a panic. -/
theorem exists_answer_pkcs1v15EncodedPayload {modulusSize : ℕ} (hmodulus : 0 < modulusSize)
    (payload : ByteString) :
    ∃ result, answer (pkcs1v15EncodedPayload modulusSize payload) = some result := by
  unfold pkcs1v15EncodedPayload
  by_cases hlong : modulusSize - 11 < payload.length
  · rw [if_pos hlong]
    exact ⟨_, rfl⟩
  · rw [if_neg hlong, answer_bind_of_ok (answer_checkedSub_of_le (by omega)),
      answer_bind_of_ok (answer_checkedSub_of_le (by omega))]
    exact ⟨_, rfl⟩

/-- A sequence does not panic when its parts do not. -/
theorem exists_answer_bind {ε α β : Type} {first : Panicking ε α} {second : α → Panicking ε β}
    {result : Except ε α} (hfirst : answer first = some result)
    (hsecond : ∀ value, result = .ok value → ∃ result', answer (second value) = some result') :
    ∃ result', answer (first >>= second) = some result' := by
  cases result with
  | ok value =>
    rw [answer_bind_of_ok hfirst]
    exact hsecond value rfl
  | error error => exact ⟨_, answer_bind_of_error hfirst⟩

/-- Two additions that may overflow. -/
theorem answer_checkedAdd_bind {ε α : Type} (left right last : ℕ)
    (continuation : ℕ → Panicking ε α) :
    answer (orPanic (checkedAdd left right) >>= fun sum ↦
        orPanic (checkedAdd sum last) >>= continuation) =
      if left + right + last < 2 ^ 64 then answer (continuation (left + right + last))
      else none := by
  split_ifs with hrange
  · rw [checkedAdd_eq_some_iff.mpr ⟨by omega, rfl⟩, orPanic_some_bind,
      checkedAdd_eq_some_iff.mpr ⟨hrange, rfl⟩, orPanic_some_bind]
  · by_cases hfirst : left + right < 2 ^ 64
    · rw [checkedAdd_eq_some_iff.mpr ⟨hfirst, rfl⟩, orPanic_some_bind, checkedAdd, if_neg hrange]
      rfl
    · rw [checkedAdd, if_neg hfirst]
      rfl

/-- A mask is short: no length of an encoded message that has one is near the end of the words. -/
theorem eight_mul_lt_of_mgf1 {parameters : RsaPssParameters} {seed mask : ByteString}
    {length emLength : ℕ} (hmask : mgf1 hashes seed length parameters.mgfHash = .ok mask)
    (hlength : length + parameters.hash.outputLength + 1 = emLength) : 8 * emLength < 2 ^ 64 := by
  have hlimit := withinMgf1Limit_of_mgf1_eq_ok hashes hmask
  have hhash := parameters.hash.outputLength_le
  have hmgfHash := parameters.mgfHash.outputLength_le
  unfold Digest.WithinMgf1Limit at hlimit
  omega

/-- A salt length whose sum with the other lengths is in range is encoded for without a panic. -/
theorem exists_answer_pssEncodedDigest (fill : RandomFill) (modulusBits : ℕ)
    {parameters : RsaPssParameters}
    (hrange : parameters.hash.outputLength + parameters.saltLength + 2 < 2 ^ 64)
    (digest : ByteString) :
    ∃ result, answer (pssEncodedDigest hashes fill modulusBits parameters digest) =
      some result := by
  unfold pssEncodedDigest
  by_cases hdigest : digest.length ≠ parameters.hash.outputLength
  · rw [if_pos hdigest]
    exact ⟨_, rfl⟩
  rw [if_neg hdigest]
  cases hbits : subtract modulusBits 1 with
  | none => exact ⟨_, rfl⟩
  | some emBits =>
    dsimp only
    rw [answer_checkedAdd_bind, if_pos hrange]
    by_cases hshort : emBits ⌈/⌉ 8 < parameters.hash.outputLength + parameters.saltLength + 2
    · rw [if_pos hshort]
      exact ⟨_, rfl⟩
    rw [if_neg hshort]
    cases hfill : fill parameters.saltLength with
    | none => exact ⟨_, rfl⟩
    | some salt =>
      dsimp only
      rw [answer_bind_of_ok (answer_checkedSub_of_le (by omega)),
        answer_bind_of_ok (answer_checkedSub_of_le (by omega)),
        answer_bind_of_ok (answer_checkedSub_of_le (by omega))]
      refine exists_answer_bind (answer_ofResult _ _) fun mask hmask ↦ ?_
      have hunused : emBits ≤ 8 * (emBits ⌈/⌉ 8) ∧ 8 * (emBits ⌈/⌉ 8) - emBits < 8 := by
        rw [Nat.ceilDiv_eq_add_pred_div]
        omega
      have hproduct : 8 * (emBits ⌈/⌉ 8) < 2 ^ 64 := by
        refine eight_mul_lt_of_mgf1 hashes (FallibleResult.mapError_eq_ok_iff.mp hmask) ?_
        simp only [List.length_append, List.length_replicate, List.length_singleton,
          List.Vector.toList_length]
        omega
      rw [checkedMul_eq_some_iff.mpr ⟨hproduct, rfl⟩, orPanic_some_bind,
        answer_bind_of_ok (answer_checkedSub_of_le hunused.1), if_pos hunused.2,
        orPanic_some_bind, modifyByte_eq_some, orPanic_some_bind]
      · exact ⟨_, rfl⟩
      · simp only [xorInPlace, List.length_append, length_xorBytes, List.length_drop,
          List.length_singleton]
        omega

/-- A modulus of at least `2 * hLen + 2` bytes is encoded for without a panic. -/
theorem exists_answer_rsaOaepPadDigest (fill : RandomFill) (input labelDigest : ByteString)
    {modulusSize : ℕ} (hmodulus : 2 * labelDigest.length + 2 ≤ modulusSize)
    (mgfHash : HashAlgorithm) :
    ∃ result, answer (rsaOaepPadDigest hashes fill input modulusSize labelDigest mgfHash) =
      some result := by
  unfold rsaOaepPadDigest
  dsimp only
  by_cases hrefused : labelDigest.length = 0 ∨
      modulusSize - (2 * labelDigest.length + 2) < input.length
  · rw [if_pos hrefused]
    exact ⟨_, rfl⟩
  rw [if_neg hrefused]
  rw [not_or, not_lt] at hrefused
  rw [answer_bind_of_ok (answer_checkedSub_of_le (by omega)),
    answer_bind_of_ok (answer_checkedSub_of_le (by omega)),
    answer_bind_of_ok (answer_checkedSub_of_le (by omega))]
  cases hfill : fill labelDigest.length with
  | none => exact ⟨_, rfl⟩
  | some seed =>
    refine exists_answer_bind (answer_ofResult _ _) fun dbMask _ ↦ ?_
    refine exists_answer_bind (answer_ofResult _ _) fun seedMask _ ↦ ?_
    exact ⟨_, rfl⟩

/-! ### Decodings do not panic -/

/-- The separator that the scan of `rsa_pkcs1v15_unpad` finds lies in the scanned bytes. -/
theorem separator_lt_of_found (block : ByteString) (start : ℕ) {scan : Pkcs1v15Scan}
    (hscan : scan.found = true → scan.separator < start + 2) :
    ((block.zipIdx start).foldl pkcs1v15ScanStep scan).found = true →
      ((block.zipIdx start).foldl pkcs1v15ScanStep scan).separator <
        start + block.length + 2 := by
  induction block generalizing start scan with
  | nil => exact hscan
  | cons byte block ih =>
    rw [List.zipIdx_cons, List.foldl_cons, List.length_cons, Nat.add_comm block.length,
      ← Nat.add_assoc]
    apply ih
    intro hfound
    unfold pkcs1v15ScanStep at hfound ⊢
    dsimp only at hfound ⊢
    cases hbefore : scan.found with
    | true =>
      rw [Bool.not_true, Bool.false_and, if_neg Bool.false_ne_true]
      exact (hscan hbefore).trans (by omega)
    | false =>
      rw [hbefore, Bool.false_or] at hfound
      rw [hfound, Bool.not_false, Bool.and_self, if_pos rfl]
      omega

/-- `rsa_pkcs1v15_unpad` does not panic. -/
theorem exists_answer_rsaPkcs1v15Unpad (encoded : ByteString) :
    ∃ result, answer (rsaPkcs1v15Unpad encoded) = some result := by
  unfold rsaPkcs1v15Unpad
  by_cases hshort : encoded.length < 11
  · rw [if_pos hshort]
    exact ⟨_, rfl⟩
  rw [if_neg hshort, List.getElem?_eq_getElem (by omega : 0 < encoded.length), orPanic_some_bind,
    List.getElem?_eq_getElem (by omega : 1 < encoded.length), orPanic_some_bind]
  dsimp only
  rw [sliceFrom_eq_some (by omega), orPanic_some_bind]
  have hrest : (encoded.drop 2).length = encoded.length - 2 := List.length_drop
  have hinitial : ({ found := false, separator := 0 } : Pkcs1v15Scan).found = true →
      ({ found := false, separator := 0 } : Pkcs1v15Scan).separator < 0 + 2 :=
    fun h ↦ absurd h Bool.false_ne_true
  have hseparator := separator_lt_of_found (encoded.drop 2) 0 hinitial
  generalize (encoded.drop 2).zipIdx.foldl pkcs1v15ScanStep { found := false, separator := 0 } =
    scan at hseparator ⊢
  cases hfound : scan.found with
  | false =>
    rw [Bool.false_and, Bool.and_false]
    exact ⟨_, rfl⟩
  | true =>
    have hlt := hseparator hfound
    rw [sliceFrom_eq_some (by omega)]
    split_ifs
    · exact ⟨_, rfl⟩
    · exact ⟨_, rfl⟩

/-- A separator that the scan of `rsa_oaep_unpad_digest` accepts lies in the scanned bytes. -/
theorem separator_lt_of_valid {block : ByteString} {valid : Bool}
    (hvalid : (block.zipIdx.foldl scanStep
      { looking := true, separator := 0, valid := valid }).valid = true)
    (hlooking : (block.zipIdx.foldl scanStep
      { looking := true, separator := 0, valid := valid }).looking = false) :
    (block.zipIdx.foldl scanStep
      { looking := true, separator := 0, valid := valid }).separator < block.length := by
  have hscan := foldl_scanStep_eq_iff block 0 0 (block.zipIdx.foldl scanStep
    { looking := true, separator := 0, valid := valid }).separator valid
  obtain ⟨-, zeros, rest, hblock, hposition⟩ := hscan.mp (by
    rw [Scan.mk.injEq]
    exact ⟨hlooking, rfl, hvalid⟩)
  have hlength := congrArg List.length hblock
  rw [List.length_append, List.length_replicate, List.length_cons] at hlength
  omega

/-- The slices of `rsa_oaep_unpad_digest` stay within bounds. -/
theorem answer_checked_rsaOaepUnpadDigest (encoded labelDigest : ByteString)
    (mgfHash : HashAlgorithm) :
    answer (Checked.rsaOaepUnpadDigest hashes encoded labelDigest mgfHash) =
      some (rsaOaepUnpadDigest hashes encoded labelDigest mgfHash) := by
  unfold Checked.rsaOaepUnpadDigest rsaOaepUnpadDigest
  dsimp only
  by_cases hrefused : encoded.length < 2 * labelDigest.length + 2 ∨ labelDigest.length = 0
  · rw [if_pos hrefused, if_pos hrefused]
    rfl
  rw [if_neg hrefused, if_neg hrefused]
  rw [not_or, not_lt] at hrefused
  have hmasked : (encoded.drop 1).length = encoded.length - 1 := List.length_drop
  have hmaskedDb : ((encoded.drop 1).drop labelDigest.length).length =
      encoded.length - 1 - labelDigest.length := by
    rw [List.length_drop, hmasked]
  rw [sliceFrom_eq_some (by omega), orPanic_some_bind, sliceTo_eq_some (by omega),
    orPanic_some_bind, sliceFrom_eq_some (by omega), orPanic_some_bind]
  cases hseedMask : mgf1 hashes ((encoded.drop 1).drop labelDigest.length) labelDigest.length
      mgfHash with
  | error error => rfl
  | ok seedMask =>
    refine (answer_bind_of_ok rfl).trans ?_
    rw [FallibleResult.ok_bind]
    cases hdbMask : mgf1 hashes (xorBytes ((encoded.drop 1).take labelDigest.length) seedMask)
        ((encoded.drop 1).drop labelDigest.length).length mgfHash with
    | error error => rfl
    | ok dbMask =>
      refine (answer_bind_of_ok rfl).trans ?_
      have hdbMaskLength := length_mgf1_eq hashes hdbMask
      have hdb : (xorBytes ((encoded.drop 1).drop labelDigest.length) dbMask).length =
          encoded.length - 1 - labelDigest.length := by
        rw [length_xorBytes, hdbMaskLength, min_self, hmaskedDb]
      have hnonempty : 0 < encoded.length := by omega
      have hfirst : decide (encoded.head? = some 0) = decide (encoded[0] = 0) := by
        rw [decide_eq_decide, List.head?_eq_getElem?, List.getElem?_eq_getElem hnonempty,
          Option.some.injEq]
      rw [FallibleResult.ok_bind, hfirst, List.getElem?_eq_getElem hnonempty, orPanic_some_bind,
        sliceTo_eq_some (by omega), orPanic_some_bind, sliceFrom_eq_some (by omega),
        orPanic_some_bind]
      split_ifs with hvalid
      · rw [Bool.and_eq_true, Bool.not_eq_true'] at hvalid
        have hseparator := separator_lt_of_valid hvalid.1 hvalid.2
        rw [sliceFrom_eq_some hseparator]
        rfl
      · rfl

/-! ### The constructions stop -/

section Stops

variable {σ ε : Type} (callback : ByteString → StateM σ (Except ε ByteString))

/-- A computation that does not panic is a part without calls. -/
theorem stops_liftPanicking {Query ε' α : Type} {documented : Query → ℕ} {wrap : ε → ε'}
    {invalid : ε'} {wrapOwn : RsaConstructionError → ε'}
    {computation : Panicking RsaConstructionError α}
    (hcomputation : ∃ result, answer computation = some result) :
    Stops (σ := σ) documented wrap invalid (liftPanicking wrapOwn computation) fun _ ↦ True := by
  obtain ⟨result, hresult⟩ := hcomputation
  exact stops_orPanic_bind hresult (stops_orThrow fun _ _ ↦ trivial)

theorem stops_pkcs1v15SignWith {modulusSize : ℕ} (hmodulus : 0 < modulusSize)
    (payload : ByteString) :
    Stops (fun _ ↦ modulusSize) AsymmetricConstructionError.operation .invalidOperationOutput
      (pkcs1v15SignWith modulusSize payload (observed callback)) fun _ ↦ True := by
  refine (stops_liftPanicking (exists_answer_pkcs1v15EncodedPayload hmodulus payload)).bind
    fun encoded _ ↦ ?_
  exact (stops_checkedCall callback rfl).mono fun _ _ ↦ trivial

/-- A salt length below `2 ^ 32` is far from the end of the words. -/
theorem stops_pssSignWith (fill : RandomFill) (modulusBits : ℕ) {parameters : RsaPssParameters}
    (hsalt : parameters.saltLength < 2 ^ 32) (digest : ByteString) :
    Stops (fun _ ↦ modulusBits ⌈/⌉ 8) AsymmetricConstructionError.operation
      .invalidOperationOutput
      (pssSignWith hashes fill modulusBits parameters digest (observed callback))
      fun _ ↦ True := by
  have hhash := parameters.hash.outputLength_le
  refine (stops_liftPanicking (exists_answer_pssEncodedDigest hashes fill modulusBits (by omega)
    digest)).bind fun encoded _ ↦ ?_
  exact (stops_checkedCall callback rfl).mono fun _ _ ↦ trivial

theorem stops_oaepEncryptWith (fill : RandomFill) (plaintext labelDigest : ByteString)
    {modulusSize : ℕ} (hmodulus : 2 * labelDigest.length + 2 ≤ modulusSize)
    (mgfHash : HashAlgorithm) :
    Stops (fun _ ↦ modulusSize) AsymmetricConstructionError.operation .invalidOperationOutput
      (oaepEncryptWith hashes fill modulusSize plaintext labelDigest mgfHash (observed callback))
      fun _ ↦ True := by
  refine (stops_liftPanicking (exists_answer_rsaOaepPadDigest hashes fill plaintext labelDigest
    hmodulus mgfHash)).bind fun encoded _ ↦ ?_
  exact (stops_checkedCall callback rfl).mono fun _ _ ↦ trivial

theorem stops_oaepDecryptWith (modulusSize : ℕ) (ciphertext labelDigest : ByteString)
    (mgfHash : HashAlgorithm) :
    Stops (fun _ ↦ modulusSize) AsymmetricConstructionError.operation .invalidOperationOutput
      (oaepDecryptWith hashes modulusSize ciphertext labelDigest mgfHash (observed callback))
      fun _ ↦ True := by
  refine (stops_checkedCall callback rfl).bind fun encoded _ ↦ ?_
  exact stops_liftPanicking ⟨_, answer_checked_rsaOaepUnpadDigest hashes encoded labelDigest
    mgfHash⟩

theorem stops_pkcs1v15DecryptWith (modulusSize : ℕ) (ciphertext : ByteString) :
    Stops (fun _ ↦ modulusSize) AsymmetricConstructionError.operation .invalidOperationOutput
      (pkcs1v15DecryptWith modulusSize ciphertext (observed callback)) fun _ ↦ True := by
  refine (stops_checkedCall callback rfl).bind fun encoded _ ↦ ?_
  exact stops_liftPanicking (exists_answer_rsaPkcs1v15Unpad encoded)

end Stops

end RsaSigning

end SoftwareKeyCore
