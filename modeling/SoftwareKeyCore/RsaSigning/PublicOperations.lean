import SoftwareKeyCore.RsaKeys.PublicKey
import SoftwareKeyCore.RsaSigning.Pkcs1v15
import SoftwareKeyCore.RsaSigning.Pss

/-!
# RSA operations of a public key

`rsa_signing.rs`: the raw public operation and what is built over it, verification
(`rsa_verify_raw`, `rsa_verify_pkcs1v15_digest`, `rsa_verify_pss_digest`) and encryption
(`rsa_encrypt_pkcs1v15`, `rsa_encrypt_oaep_digest`). The modular power of the third-party crate is a
parameter (`RsaEncrypt`), which answers a number or fails.

`avoids_rsaVerifyPssDigest` and its siblings say that verification does not answer `InvalidKey` for
a modulus that has bits.
-/

set_option autoImplicit false
set_option relaxedAutoImplicit false

namespace SoftwareKeyCore.RsaSigning

open ByteString CallbackSession CheckedSlice Panicking RsaKeys

/-- `rsa::hazmat::rsa_encrypt`. -/
abbrev RsaEncrypt := RsaPublicKey → ℕ → Option ℕ

/-! ### The raw operation -/

/-- `left_pad`. -/
def leftPad (value : ByteString) (length : ℕ) : Except RsaConstructionError ByteString :=
  if length < value.length then .error .operationFailed
  else .ok (List.replicate (length - value.length) 0 ++ value)

/-- `public_operation`. -/
def publicOperation (rsaEncrypt : RsaEncrypt) (key : RsaPublicKey) (signature : ByteString) :
    Except RsaConstructionError ByteString :=
  if signature.length ≠ key.size then .error .invalidSignature
  else
    let value := fromBeBytes signature
    if key.n ≤ value then .error .invalidSignature
    else do
      let value ← FallibleResult.orError .invalidSignature (rsaEncrypt key value)
      leftPad (toBytesBe value) key.size

/-- The shortest encoding of a number, padded, is its encoding in the width. -/
theorem leftPad_toBytesBe {value length : ℕ} (hlength : 1 ≤ length)
    (hvalue : value < 256 ^ length) :
    leftPad (toBytesBe value) length = .ok (toBeBytes length value) := by
  have hshort := (length_toBytesBe_le_iff hlength).mpr hvalue
  rw [leftPad, if_neg (not_lt.mpr hshort), toBeBytes_eq_append hshort]

theorem one_le_size (key : RsaPublicKey) (hn : 0 < key.n) : 1 ≤ key.size := by
  have hbits : 0 < key.bits := Nat.size_pos.mpr hn
  unfold RsaPublicKey.size Digest.divCeil
  omega

/-- What the public operation answers: a number that fits, in the size of the modulus. -/
theorem publicOperation_eq_ok_iff {rsaEncrypt : RsaEncrypt} {key : RsaPublicKey}
    {signature recovered : ByteString} :
    publicOperation rsaEncrypt key signature = .ok recovered ↔
      signature.length = key.size ∧ fromBeBytes signature < key.n ∧
        ∃ value, rsaEncrypt key (fromBeBytes signature) = some value ∧ value < 256 ^ key.size ∧
          recovered = toBeBytes key.size value := by
  unfold publicOperation
  dsimp only
  rw [FallibleResult.ite_error_eq_ok_iff, FallibleResult.ite_error_eq_ok_iff, not_not, not_le,
    FallibleResult.bind_eq_ok_iff]
  simp only [FallibleResult.orError_eq_ok_iff]
  refine and_congr_right fun _ ↦ and_congr_right fun hlt ↦ exists_congr fun value ↦
    and_congr_right fun _ ↦ ?_
  have hsize := one_le_size key (Nat.zero_lt_of_lt hlt)
  by_cases hvalue : value < 256 ^ key.size
  · rw [leftPad_toBytesBe hsize hvalue, Except.ok.injEq, and_iff_right hvalue, eq_comm]
  · have hlong := mt (length_toBytesBe_le_iff hsize).mp hvalue
    rw [leftPad, if_pos (not_le.mp hlong)]
    exact iff_of_false (fun hfailed ↦ nomatch hfailed) fun h ↦ hvalue h.1

/-! ### Verification -/

/-- `rsa_verify_raw`. -/
def rsaVerifyRaw (rsaEncrypt : RsaEncrypt) (key : RsaPublicKey) (input signature : ByteString) :
    Except RsaConstructionError Unit :=
  if key.size < input.length then .error .inputTooLong
  else do
    let expected := List.replicate (key.size - input.length) 0 ++ input
    let recovered ← publicOperation rsaEncrypt key signature
    if recovered = expected then .ok () else .error .invalidSignature

/-- `rsa_verify_pkcs1v15_payload`. -/
def rsaVerifyPkcs1v15Payload (rsaEncrypt : RsaEncrypt) (key : RsaPublicKey)
    (payload signature : ByteString) : Panicking RsaConstructionError Unit := do
  let expected ← pkcs1v15EncodedPayload key.size payload
  let recovered ← ofResult id (publicOperation rsaEncrypt key signature)
  throwIf .invalidSignature (recovered ≠ expected)

/-- `RsaHashAlgorithm::digest_info_prefix`: the DER of the algorithm before a digest. -/
def digestInfoPrefix : HashAlgorithm → ByteString
  | .sha1 => [0x30, 0x21, 0x30, 0x09, 0x06, 0x05, 0x2b, 0x0e, 0x03, 0x02, 0x1a, 0x05, 0x00, 0x04,
      0x14]
  | .sha224 => [0x30, 0x2d, 0x30, 0x0d, 0x06, 0x09, 0x60, 0x86, 0x48, 0x01, 0x65, 0x03, 0x04, 0x02,
      0x04, 0x05, 0x00, 0x04, 0x1c]
  | .sha256 => [0x30, 0x31, 0x30, 0x0d, 0x06, 0x09, 0x60, 0x86, 0x48, 0x01, 0x65, 0x03, 0x04, 0x02,
      0x01, 0x05, 0x00, 0x04, 0x20]
  | .sha384 => [0x30, 0x41, 0x30, 0x0d, 0x06, 0x09, 0x60, 0x86, 0x48, 0x01, 0x65, 0x03, 0x04, 0x02,
      0x02, 0x05, 0x00, 0x04, 0x30]
  | .sha512 => [0x30, 0x51, 0x30, 0x0d, 0x06, 0x09, 0x60, 0x86, 0x48, 0x01, 0x65, 0x03, 0x04, 0x02,
      0x03, 0x05, 0x00, 0x04, 0x40]
  | .sha3_224 => [0x30, 0x2d, 0x30, 0x0d, 0x06, 0x09, 0x60, 0x86, 0x48, 0x01, 0x65, 0x03, 0x04,
      0x02, 0x07, 0x05, 0x00, 0x04, 0x1c]
  | .sha3_256 => [0x30, 0x31, 0x30, 0x0d, 0x06, 0x09, 0x60, 0x86, 0x48, 0x01, 0x65, 0x03, 0x04,
      0x02, 0x08, 0x05, 0x00, 0x04, 0x20]
  | .sha3_384 => [0x30, 0x41, 0x30, 0x0d, 0x06, 0x09, 0x60, 0x86, 0x48, 0x01, 0x65, 0x03, 0x04,
      0x02, 0x09, 0x05, 0x00, 0x04, 0x30]
  | .sha3_512 => [0x30, 0x51, 0x30, 0x0d, 0x06, 0x09, 0x60, 0x86, 0x48, 0x01, 0x65, 0x03, 0x04,
      0x02, 0x0a, 0x05, 0x00, 0x04, 0x40]

/-- `digest_info`. -/
def digestInfo (hash : HashAlgorithm) (digest : ByteString) :
    Except RsaConstructionError ByteString :=
  if digest.length ≠ hash.outputLength then .error .invalidDigestLength
  else .ok (digestInfoPrefix hash ++ digest)

/-- `rsa_verify_pkcs1v15_digest`. -/
def rsaVerifyPkcs1v15Digest (rsaEncrypt : RsaEncrypt) (key : RsaPublicKey) (hash : HashAlgorithm)
    (digest signature : ByteString) : Panicking RsaConstructionError Unit := do
  let payload ← ofResult id (digestInfo hash digest)
  rsaVerifyPkcs1v15Payload rsaEncrypt key payload signature

/-- `rsa_verify_pss_digest`. -/
def rsaVerifyPssDigest (hashes : HashFunctions) (rsaEncrypt : RsaEncrypt) (key : RsaPublicKey)
    (parameters : RsaPssParameters) (digest signature : ByteString) :
    Panicking RsaConstructionError Unit := do
  let recovered ← ofResult id (publicOperation rsaEncrypt key signature)
  verifyPssEncodedDigest hashes recovered key.bits parameters digest

/-! ### Encryption -/

/-- `rsa_encrypt_pkcs1v15`; `none` is a panic. -/
def rsaEncryptPkcs1v15 {σ : Type} (source : RsaValidation.RandomSource σ) (rsaEncrypt : RsaEncrypt)
    (key : RsaPublicKey) (plaintext : ByteString) (state : σ) :
    Fuelled (Option (Except RsaConstructionError ByteString)) := do
  let padded ← rsaPkcs1v15Pad source plaintext key.size state
  pure (padded.map fun padded ↦ padded >>= publicOperation rsaEncrypt key)

/-- `rsa_encrypt_oaep_digest`. -/
def rsaEncryptOaepDigest (hashes : HashFunctions) (fill : RandomFill) (rsaEncrypt : RsaEncrypt)
    (key : RsaPublicKey) (plaintext labelDigest : ByteString) (mgfHash : HashAlgorithm) :
    Panicking RsaConstructionError ByteString :=
  if labelDigest.length ∉ [20, 28, 32, 48, 64] then throw .invalidDigestLength
  else do
    let encoded ← rsaOaepPadDigest hashes fill plaintext key.size labelDigest mgfHash
    ofResult id (publicOperation rsaEncrypt key encoded)

/-! ### The errors of verification -/

section

variable {α : Type} {hashes : HashFunctions} {rsaEncrypt : RsaEncrypt} {key : RsaPublicKey}
  {error : RsaConstructionError}

theorem avoids_ofResult {result : Except RsaConstructionError α} (hresult : result ≠ .error error) :
    Avoids error (ofResult id result) := by
  intro hanswer
  rw [answer_ofResult, Option.some.injEq] at hanswer
  cases result with
  | ok value => exact nomatch hanswer
  | error error' => exact hresult hanswer

/-- The errors of the raw operation are those of the signature and of the padding. -/
theorem publicOperation_ne_invalidKey (signature : ByteString) :
    publicOperation rsaEncrypt key signature ≠ .error .invalidKey := by
  unfold publicOperation
  dsimp only
  split_ifs
  · simp
  · simp
  · cases rsaEncrypt key (fromBeBytes signature) with
    | none => exact fun hfailed ↦ nomatch hfailed
    | some value =>
      change leftPad (toBytesBe value) key.size ≠ .error .invalidKey
      unfold leftPad
      split_ifs
      · simp
      · simp

theorem rsaVerifyRaw_ne_invalidKey (input signature : ByteString) :
    rsaVerifyRaw rsaEncrypt key input signature ≠ .error .invalidKey := by
  unfold rsaVerifyRaw
  split_ifs
  · simp
  · have hoperation : publicOperation rsaEncrypt key signature ≠ .error .invalidKey :=
      publicOperation_ne_invalidKey signature
    cases hrecovered : publicOperation rsaEncrypt key signature with
    | error error =>
      rw [hrecovered] at hoperation
      change (.error error : Except RsaConstructionError Unit) ≠ .error .invalidKey
      simpa using hoperation
    | ok recovered =>
      rw [FallibleResult.ok_bind]
      split_ifs
      · simp
      · simp

theorem avoids_pkcs1v15EncodedPayload (herror : .inputTooLong ≠ error) (modulusSize : ℕ)
    (payload : ByteString) : Avoids error (pkcs1v15EncodedPayload modulusSize payload) :=
  avoids_ite (avoids_throw herror) <|
    (avoids_checkedSub _ _ _).bind fun _ ↦ (avoids_checkedSub _ _ _).bind fun _ ↦ avoids_pure _ _

theorem digestInfo_ne (herror : .invalidDigestLength ≠ error) (hash : HashAlgorithm)
    (digest : ByteString) : digestInfo hash digest ≠ .error error := by
  unfold digestInfo
  split_ifs
  · simpa using herror
  · simp

theorem avoids_rsaVerifyPkcs1v15Digest (hash : HashAlgorithm) (digest signature : ByteString) :
    Avoids .invalidKey (rsaVerifyPkcs1v15Digest rsaEncrypt key hash digest signature) := by
  refine (avoids_ofResult (digestInfo_ne (by decide) hash digest)).bind fun payload ↦ ?_
  refine (avoids_pkcs1v15EncodedPayload (by decide) key.size payload).bind fun expected ↦ ?_
  refine (avoids_ofResult (publicOperation_ne_invalidKey signature)).bind fun recovered ↦ ?_
  exact avoids_throwIf (by decide) _

theorem mgf1_ne (herror : .inputTooLong ≠ error) (seed : ByteString) (length : ℕ)
    (hash : HashAlgorithm) : mgf1 hashes seed length hash ≠ .error error := by
  unfold mgf1
  cases Digest.mgf1 hashes hash seed length with
  | error error' => exact fun hfailed ↦ herror (Except.error.inj hfailed)
  | ok mask => exact fun hfailed ↦ nomatch hfailed

theorem avoids_hasUnusedBits (maskedDb : ByteString) (unused : ℕ) :
    Avoids .invalidKey (hasUnusedBits maskedDb unused) := by
  unfold hasUnusedBits
  refine avoids_ite (avoids_pure _ _) ?_
  cases maskedDb.head? with
  | none => exact avoids_pure _ _
  | some value =>
    have hmask : Avoids .invalidKey (unusedMask unused) :=
      (avoids_checkedSub _ _ _).bind fun _ ↦ avoids_orPanic _
    exact hmask.bind fun _ ↦ avoids_pure _ _

theorem avoids_pssSalt (db : ByteString) (saltLength : ℕ) :
    Avoids .invalidKey (pssSalt db saltLength) := by
  refine (avoids_orPanic _).bind fun tail ↦ ?_
  cases subtract db.length tail with
  | none => exact avoids_throw (by decide)
  | some separator =>
    refine (avoids_throwIf (by decide) _).bind fun _ ↦ (avoids_orPanic _).bind fun _ ↦ ?_
    exact (avoids_throwIf (by decide) _).bind fun _ ↦ avoids_orPanic _

theorem avoids_verifyPssMessage (encoded : ByteString) (emBits : ℕ)
    (parameters : RsaPssParameters) (digest : ByteString) :
    Avoids .invalidKey (verifyPssMessage hashes encoded emBits parameters digest) := by
  refine (avoids_orPanic _).bind fun _ ↦ (avoids_orPanic _).bind fun _ ↦ ?_
  refine (avoids_throwIf (by decide) _).bind fun _ ↦ ?_
  refine (avoids_checkedSub _ _ _).bind fun _ ↦ (avoids_checkedSub _ _ _).bind fun _ ↦ ?_
  refine (avoids_orPanic _).bind fun maskedDb ↦ (avoids_orPanic _).bind fun h ↦ ?_
  refine (avoids_orPanic _).bind fun _ ↦ (avoids_checkedSub _ _ _).bind fun unused ↦ ?_
  refine (avoids_hasUnusedBits maskedDb unused).bind fun _ ↦ ?_
  refine (avoids_throwIf (by decide) _).bind fun _ ↦ ?_
  refine (avoids_ofResult (mgf1_ne (by decide) _ _ _)).bind fun _ ↦ ?_
  refine (avoids_orPanic _).bind fun _ ↦ (avoids_orPanic _).bind fun db ↦ ?_
  exact (avoids_pssSalt db _).bind fun _ ↦ avoids_throwIf (by decide) _

/-- For a modulus that has bits the verification of an encoding does not blame the key. -/
theorem avoids_rsaVerifyPssDigest (hkey : key.n ≠ 0) (parameters : RsaPssParameters)
    (digest signature : ByteString) :
    Avoids .invalidKey (rsaVerifyPssDigest hashes rsaEncrypt key parameters digest signature) := by
  refine (avoids_ofResult (publicOperation_ne_invalidKey signature)).bind fun recovered ↦ ?_
  refine avoids_ite (avoids_throw (by decide)) ?_
  have hbits : 1 ≤ key.bits := Nat.size_pos.mpr (Nat.pos_of_ne_zero hkey)
  rw [subtract_eq_some hbits]
  dsimp only
  cases subtract recovered.length ((key.bits - 1) ⌈/⌉ 8) with
  | none => exact avoids_throw (by decide)
  | some prefixLength =>
    refine (avoids_orPanic _).bind fun _ ↦ (avoids_throwIf (by decide) _).bind fun _ ↦ ?_
    exact (avoids_orPanic _).bind fun _ ↦ avoids_verifyPssMessage _ _ _ _

end

end SoftwareKeyCore.RsaSigning
