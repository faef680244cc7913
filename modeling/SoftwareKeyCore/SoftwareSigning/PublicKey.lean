import SoftwareKeyCore.RsaSigning.PublicOperations
import SoftwareKeyCore.SoftwareSigning.SigningKey

/-!
# Operations of a public key

`software_signing.rs`: the methods of `SoftwarePublicKey` with their RSA arms. The arms of the other
kinds of keys, and the checks and the modular power of the third-party RSA crate, are parameters
(`PublicKeyLibrary`).

Every RSA arm builds the crate's public key with `RsaPublicKey::new`, which allows moduli of at most
4096 bits, and `import_public` with a limit of 16384 bits. `isUsable_iff` is that an imported key is
usable exactly when its modulus has at most 4096 bits.
-/

set_option autoImplicit false
set_option relaxedAutoImplicit false

namespace SoftwareKeyCore.SoftwareSigning

open ByteString CallbackSession ModularPower Panicking RsaKeys RsaSigning RsaValidation

/-- What the methods use of third-party crates: the checks and the modular power of the RSA crate,
the hash functions, and the arms of the other kinds of keys. -/
structure PublicKeyLibrary where
  rsaChecks : RsaPublicKey.PublicKeyChecks
  rsaEncrypt : RsaEncrypt
  hashes : HashFunctions
  validateOther : SoftwarePublicKey → Except SoftwareSigningError Unit
  verifyMessageOther : SoftwarePublicKey → SignatureScheme → (message signature : ByteString) →
    Panicking SoftwareSigningError Unit
  verifyPrehashOther : SoftwarePublicKey → SignatureScheme → (prehash signature : ByteString) →
    Panicking SoftwareSigningError Unit

variable (library : PublicKeyLibrary)

/-! ### RSA profiles and errors -/

/-- `rsa_profile`: the hash of an RSA scheme, and whether it is PSS. -/
def rsaProfile : SignatureScheme → Option (HashAlgorithm × Bool)
  | .rsaPssSha256 => some (.sha256, true)
  | .rsaPssSha384 => some (.sha384, true)
  | .rsaPssSha512 => some (.sha512, true)
  | .rsaPkcs1Sha256 => some (.sha256, false)
  | .rsaPkcs1Sha384 => some (.sha384, false)
  | .rsaPkcs1Sha512 => some (.sha512, false)
  | _ => none

/-- `SignatureScheme::is_rsa`. -/
def SignatureScheme.isRsa : SignatureScheme → Bool
  | rsaPssSha256 | rsaPssSha384 | rsaPssSha512 | rsaPkcs1Sha256 | rsaPkcs1Sha384 | rsaPkcs1Sha512 =>
    true
  | _ => false

/-- `map_rsa_verification_error`. -/
def mapRsaVerificationError : RsaConstructionError → SoftwareSigningError
  | .invalidKey => .invalidPublicKey
  | .inputTooLong | .inputOutOfRange | .invalidDigestLength | .invalidSignature
  | .randomnessUnavailable | .operationFailed => .invalidSignature

/-- `map_rsa_signing_error`. -/
def mapRsaSigningError : RsaConstructionError → SoftwareSigningError
  | .invalidKey => .invalidPrivateKey
  | .randomnessUnavailable => .randomnessUnavailable
  | .inputTooLong | .inputOutOfRange | .invalidDigestLength | .invalidSignature
  | .operationFailed => .signingFailed

/-- `rsa_public_key`. -/
def rsaPublicKey (modulus exponent : ByteString) : Except SoftwareSigningError RsaPublicKey :=
  FallibleResult.orError .invalidPublicKey
    (RsaPublicKey.new library.rsaChecks (fromBeBytes modulus) (fromBeBytes exponent))

/-- `verify_rsa_prehash`. -/
def verifyRsaPrehash (algorithm : SignatureScheme) (key : RsaPublicKey)
    (prehash signature : ByteString) (pssSaltLength : Option ℕ) :
    Panicking SoftwareSigningError Unit :=
  match rsaProfile algorithm with
  | none => throw .algorithmMismatch
  | some (hash, pss) =>
    liftPanicking mapRsaVerificationError <|
      if pss then
        rsaVerifyPssDigest library.hashes library.rsaEncrypt key
          { hash := hash, mgfHash := hash, saltLength := pssSaltLength.getD hash.outputLength }
          prehash signature
      else rsaVerifyPkcs1v15Digest library.rsaEncrypt key hash prehash signature

/-- `verify_rsa_message`. -/
def verifyRsaMessage (algorithm : SignatureScheme) (key : RsaPublicKey)
    (message signature : ByteString) : Panicking SoftwareSigningError Unit :=
  match rsaProfile algorithm with
  | none => throw .algorithmMismatch
  | some (hash, _) =>
    verifyRsaPrehash library algorithm key (library.hashes.digest hash message) signature none

/-! ### The methods -/

namespace SoftwarePublicKey

/-- `SoftwarePublicKey::validate`. -/
def validate : SoftwarePublicKey → Except SoftwareSigningError Unit
  | .rsa modulus exponent => (rsaPublicKey library modulus exponent).map fun _ ↦ ()
  | other => library.validateOther other

/-- `SoftwarePublicKey::verify_message`. -/
def verifyMessage (key : SoftwarePublicKey) (algorithm : SignatureScheme)
    (message signature : ByteString) : Panicking SoftwareSigningError Unit :=
  match key with
  | .rsa modulus exponent =>
    if algorithm.isRsa then do
      let key ← ofResult id (rsaPublicKey library modulus exponent)
      verifyRsaMessage library algorithm key message signature
    else throw .algorithmMismatch
  | other => library.verifyMessageOther other algorithm message signature

/-- `SoftwarePublicKey::verify_prehash`. -/
def verifyPrehash (key : SoftwarePublicKey) (algorithm : SignatureScheme)
    (prehash signature : ByteString) : Panicking SoftwareSigningError Unit :=
  match key with
  | .rsa modulus exponent =>
    if algorithm.isRsa then do
      let key ← ofResult id (rsaPublicKey library modulus exponent)
      verifyRsaPrehash library algorithm key prehash signature none
    else throw .algorithmMismatch
  | other => library.verifyPrehashOther other algorithm prehash signature

/-- `SoftwarePublicKey::verify_rsa_pss_prehash`. -/
def verifyRsaPssPrehash (key : SoftwarePublicKey) (algorithm : SignatureScheme)
    (prehash : ByteString) (saltLength : ℕ) (signature : ByteString) :
    Panicking SoftwareSigningError Unit :=
  match key with
  | .rsa modulus exponent => do
    let key ← ofResult id (rsaPublicKey library modulus exponent)
    verifyRsaPrehash library algorithm key prehash signature (some saltLength)
  | _ => throw .algorithmMismatch

/-- `SoftwarePublicKey::verify_rsa_raw`. -/
def verifyRsaRaw (key : SoftwarePublicKey) (input signature : ByteString) :
    Except SoftwareSigningError Unit :=
  match key with
  | .rsa modulus exponent => do
    let key ← rsaPublicKey library modulus exponent
    (rsaVerifyRaw library.rsaEncrypt key input signature).mapError mapRsaVerificationError
  | _ => .error .algorithmMismatch

/-- `SoftwarePublicKey::encrypt_rsa_pkcs1v15`; `none` is a panic. -/
def encryptRsaPkcs1v15 {σ : Type} (source : RandomSource σ) (key : SoftwarePublicKey)
    (plaintext : ByteString) (state : σ) :
    Fuelled (Option (Except SoftwareSigningError ByteString)) :=
  match key with
  | .rsa modulus exponent =>
    match rsaPublicKey library modulus exponent with
    | .error error => pure (some (.error error))
    | .ok key => do
      let outcome ← rsaEncryptPkcs1v15 source library.rsaEncrypt key plaintext state
      pure (outcome.map fun result ↦ result.mapError mapRsaSigningError)
  | _ => pure (some (.error .algorithmMismatch))

/-- `SoftwarePublicKey::encrypt_rsa_oaep_digest`. -/
def encryptRsaOaepDigest (fill : RandomFill) (key : SoftwarePublicKey)
    (plaintext labelDigest : ByteString) (mgfHash : HashAlgorithm) :
    Panicking SoftwareSigningError ByteString :=
  match key with
  | .rsa modulus exponent => do
    let key ← ofResult id (rsaPublicKey library modulus exponent)
    liftPanicking mapRsaSigningError
      (rsaEncryptOaepDigest library.hashes fill library.rsaEncrypt key plaintext labelDigest
        mgfHash)
  | _ => throw .algorithmMismatch

end SoftwarePublicKey

/-- The key is valid, and none of its operations blames it. -/
structure IsUsable (key : SoftwarePublicKey) : Prop where
  validate : key.validate library = .ok ()
  verifyMessage : ∀ algorithm message signature,
    Avoids .invalidPublicKey (key.verifyMessage library algorithm message signature)
  verifyPrehash : ∀ algorithm prehash signature,
    Avoids .invalidPublicKey (key.verifyPrehash library algorithm prehash signature)
  verifyRsaPssPrehash : ∀ algorithm prehash saltLength signature,
    Avoids .invalidPublicKey
      (key.verifyRsaPssPrehash library algorithm prehash saltLength signature)
  verifyRsaRaw : ∀ input signature,
    key.verifyRsaRaw library input signature ≠ .error .invalidPublicKey
  encryptRsaPkcs1v15 : ∀ (σ : Type) (source : RandomSource σ) (plaintext : ByteString) (state : σ)
    (outcome : Option (Except SoftwareSigningError ByteString)),
    (key.encryptRsaPkcs1v15 library source plaintext state).Returns outcome →
      outcome ≠ some (.error .invalidPublicKey)
  encryptRsaOaepDigest : ∀ fill plaintext labelDigest mgfHash,
    Avoids .invalidPublicKey
      (key.encryptRsaOaepDigest library fill plaintext labelDigest mgfHash)

/-! ### Keys that the crate builds -/

section

variable {library} {modulus exponent : ByteString}

/-- A computation with its errors wrapped avoids an error when no error it answers becomes it. -/
theorem avoids_liftPanicking {ε ε' α : Type} {wrap : ε → ε'} {error : ε'}
    {computation : Panicking ε α}
    (hcomputation : ∀ error', wrap error' = error → Avoids error' computation) :
    Avoids error (liftPanicking wrap computation : Panicking ε' α) := by
  intro hanswer
  unfold liftPanicking at hanswer
  cases houtcome : answer computation with
  | none =>
    rw [houtcome] at hanswer
    exact nomatch hanswer
  | some result =>
    rw [houtcome, orPanic_some_bind] at hanswer
    cases result with
    | ok value => exact nomatch hanswer
    | error error' =>
      exact hcomputation error' (Except.error.inj (Option.some.inj hanswer)) houtcome

theorem mapRsaVerificationError_eq_iff {error : RsaConstructionError} :
    mapRsaVerificationError error = .invalidPublicKey ↔ error = .invalidKey := by
  cases error <;> simp [mapRsaVerificationError]

theorem mapRsaSigningError_ne (error : RsaConstructionError) :
    mapRsaSigningError error ≠ .invalidPublicKey := by
  cases error <;> simp [mapRsaSigningError]

/-- The verification with a key whose modulus has bits does not blame it. -/
theorem avoids_verifyRsaPrehash {key : RsaPublicKey} (hkey : key.n ≠ 0)
    (algorithm : SignatureScheme) (prehash signature : ByteString) (pssSaltLength : Option ℕ) :
    Avoids .invalidPublicKey
      (verifyRsaPrehash library algorithm key prehash signature pssSaltLength) := by
  unfold verifyRsaPrehash
  split
  · exact avoids_throw (by decide)
  · refine avoids_liftPanicking fun error' herror ↦ ?_
    rw [mapRsaVerificationError_eq_iff.mp herror]
    exact avoids_ite (avoids_rsaVerifyPssDigest hkey _ _ _) (avoids_rsaVerifyPkcs1v15Digest _ _ _)

theorem avoids_verifyRsaMessage {key : RsaPublicKey} (hkey : key.n ≠ 0)
    (algorithm : SignatureScheme) (message signature : ByteString) :
    Avoids .invalidPublicKey (verifyRsaMessage library algorithm key message signature) := by
  unfold verifyRsaMessage
  split
  · exact avoids_throw (by decide)
  · exact avoids_verifyRsaPrehash hkey _ _ _ _

/-- A key that the crate builds is usable. -/
theorem isUsable_of_rsaPublicKey {key : RsaPublicKey} (hkey : key.n ≠ 0)
    (hbuilt : rsaPublicKey library modulus exponent = .ok key) :
    IsUsable library (.rsa modulus exponent) := by
  have hvalue : ∀ {α : Type} {second : RsaPublicKey → Panicking SoftwareSigningError α},
      Avoids .invalidPublicKey (second key) →
        Avoids .invalidPublicKey
          (ofResult id (rsaPublicKey library modulus exponent) >>= second) := by
    intro α second hsecond hanswer
    rw [hbuilt, answer_bind_of_ok (answer_ofResult _ _)] at hanswer
    exact hsecond hanswer
  refine
    { validate := ?_
      verifyMessage := fun algorithm message signature ↦ avoids_ite
        (hvalue (avoids_verifyRsaMessage hkey _ _ _)) (avoids_throw (by decide))
      verifyPrehash := fun algorithm prehash signature ↦ avoids_ite
        (hvalue (avoids_verifyRsaPrehash hkey _ _ _ _)) (avoids_throw (by decide))
      verifyRsaPssPrehash := fun algorithm prehash saltLength signature ↦
        hvalue (avoids_verifyRsaPrehash hkey _ _ _ _)
      verifyRsaRaw := ?_
      encryptRsaPkcs1v15 := ?_
      encryptRsaOaepDigest := fun fill plaintext labelDigest mgfHash ↦ hvalue
        (avoids_liftPanicking fun error' herror ↦ absurd herror (mapRsaSigningError_ne error')) }
  · show (rsaPublicKey library modulus exponent).map _ = _
    rw [hbuilt]
    rfl
  · intro input signature
    have hraw : rsaVerifyRaw library.rsaEncrypt key input signature ≠ .error .invalidKey :=
      rsaVerifyRaw_ne_invalidKey input signature
    show (rsaPublicKey library modulus exponent >>= _) ≠ _
    rw [hbuilt, FallibleResult.ok_bind]
    cases hverified : rsaVerifyRaw library.rsaEncrypt key input signature with
    | ok value => exact fun hfailed ↦ nomatch hfailed
    | error error =>
      intro hfailed
      rw [hverified, mapRsaVerificationError_eq_iff.mp (Except.error.inj hfailed)] at hraw
      exact hraw rfl
  · intro σ source plaintext state outcome houtcome
    unfold SoftwarePublicKey.encryptRsaPkcs1v15 at houtcome
    dsimp only at houtcome
    rw [hbuilt] at houtcome
    dsimp only at houtcome
    obtain ⟨padded, -, hpadded⟩ := Fuelled.returns_bind.mp houtcome
    rw [← Fuelled.returns_pure.mp hpadded]
    intro hfailed
    obtain ⟨result, -, hresult⟩ := Option.map_eq_some_iff.mp hfailed
    cases result with
    | ok value => exact nomatch hresult
    | error error => exact mapRsaSigningError_ne error (Except.error.inj hresult)

/-- A key whose modulus is too large for `RsaPublicKey::new` is not valid. -/
theorem rsaPublicKey_of_large (hlarge : RsaPublicKey.maxSize < Nat.size (fromBeBytes modulus)) :
    rsaPublicKey library modulus exponent = .error .invalidPublicKey := by
  unfold rsaPublicKey RsaPublicKey.new RsaPublicKey.newWithMaxSize
  rw [if_neg fun haccepted ↦ absurd haccepted.1 (not_le.mpr hlarge)]
  rfl

end

/-- An imported public key is usable, in any encoding of its numbers, exactly when its modulus has
at most 4096 bits.

The third-party checks of a public key are any function of its numbers, the same for the import
and the use; the random source is any. -/
theorem isUsable_iff (library : PublicKeyLibrary) (σ : Type) (estimate : ℕ → ℕ)
    (osRng : RandomSource σ) (n e : ℕ) (state state' : σ) (key : RsaPublicKey)
    (himported : importPublic estimate library.rsaChecks osRng n e state = (.ok key, state')) :
    (∀ modulus exponent, fromBeBytes modulus = n → fromBeBytes exponent = e →
      IsUsable library (.rsa modulus exponent)) ↔ Nat.size n ≤ 4096 := by
  obtain ⟨⟨-, hchecks⟩, -, hvalidated⟩ := importPublic_eq_ok himported
  have hodd := ((validateWithRng_eq_ok hvalidated).1).2
  rw [fromBeBytes_toBytesBe] at hodd
  constructor
  · intro husable
    by_contra hlarge
    have hvalid := (husable (toBytesBe n) (toBytesBe e) (fromBeBytes_toBytesBe n)
      (fromBeBytes_toBytesBe e)).validate
    have hrefused : rsaPublicKey library (toBytesBe n) (toBytesBe e) =
        .error .invalidPublicKey := by
      apply rsaPublicKey_of_large
      rw [fromBeBytes_toBytesBe]
      exact not_le.mp hlarge
    rw [SoftwarePublicKey.validate, hrefused] at hvalid
    exact nomatch hvalid
  · intro hsize modulus exponent hmodulus hexponent
    have hbuilt : rsaPublicKey library modulus exponent = .ok ⟨n, e⟩ := by
      rw [rsaPublicKey, hmodulus, hexponent, FallibleResult.orError_eq_ok_iff]
      exact RsaPublicKey.newWithMaxSize_eq_some_iff.mpr ⟨⟨hsize, hchecks⟩, rfl⟩
    refine isUsable_of_rsaPublicKey ?_ hbuilt
    show n ≠ 0
    omega

/-- A crate that takes odd moduli and exponents of at least 2 and at most 33 bits, with hash
functions whose digests are zero. -/
def openLibrary : PublicKeyLibrary where
  rsaChecks n e := decide (2 ≤ e ∧ e < 2 ^ 33 ∧ n % 2 = 1)
  rsaEncrypt key message := some (modpow message key.e key.n)
  hashes := zeroHashes
  validateOther _ := .error .algorithmMismatch
  verifyMessageOther _ _ _ _ := throw .algorithmMismatch
  verifyPrehashOther _ _ _ _ := throw .algorithmMismatch

/-- An odd number of 512 bits that the base two accepts is imported. -/
theorem importPublic_of_512_bits :
    importPublic (fun _ ↦ 14) openLibrary.rsaChecks twoSource (2 ^ 511 + 35) 3 () =
      (.ok ⟨2 ^ 511 + 35, 3⟩, ()) := by
  refine importPublic_of_validated (by decide +kernel) (by decide +kernel) ?_
  have hcoprime : Nat.gcd (fromBeBytes (toBytesBe (2 ^ 511 + 35))) smallFactors = 1 :=
    gcd_smallFactors_eq_one (by decide +kernel)
  rw [validateWithRng_of_coprime hcoprime]
  decide +kernel

/-- A key of 512 bits is usable. -/
theorem isUsable_at_512_bits :
    IsUsable openLibrary (.rsa (toBytesBe (2 ^ 511 + 35)) [3]) :=
  (isUsable_iff openLibrary Unit (fun _ ↦ 14) twoSource (2 ^ 511 + 35) 3 () () ⟨2 ^ 511 + 35, 3⟩
    importPublic_of_512_bits).mpr (by decide +kernel) (toBytesBe (2 ^ 511 + 35)) [3]
    (fromBeBytes_toBytesBe (2 ^ 511 + 35)) (by decide)

/-- An odd number of 4097 bits that the base two accepts is imported. -/
theorem importPublic_of_4097_bits :
    importPublic (fun _ ↦ 14) openLibrary.rsaChecks twoSource (2 ^ 4096 + 3) 3 () =
      (.ok ⟨2 ^ 4096 + 3, 3⟩, ()) := by
  refine importPublic_of_validated (by decide +kernel) (by decide +kernel) ?_
  have hcoprime : Nat.gcd (fromBeBytes (toBytesBe (2 ^ 4096 + 3))) smallFactors = 1 :=
    gcd_smallFactors_eq_one (by decide +kernel)
  rw [validateWithRng_of_coprime hcoprime]
  decide +kernel

/-- A key of 4097 bits is imported, and then it is not valid and verifies no message. -/
theorem not_isUsable_of_4097_bits :
    importPublic (fun _ ↦ 14) openLibrary.rsaChecks twoSource (2 ^ 4096 + 3) 3 () =
        (.ok ⟨2 ^ 4096 + 3, 3⟩, ()) ∧
      SoftwarePublicKey.validate openLibrary (.rsa (toBytesBe (2 ^ 4096 + 3)) [3]) =
        .error .invalidPublicKey ∧
      answer (SoftwarePublicKey.verifyMessage openLibrary (.rsa (toBytesBe (2 ^ 4096 + 3)) [3])
        .rsaPssSha256 [] []) = some (.error .invalidPublicKey) := by
  have hrefused : rsaPublicKey openLibrary (toBytesBe (2 ^ 4096 + 3)) [3] =
      .error .invalidPublicKey := by
    apply rsaPublicKey_of_large
    rw [fromBeBytes_toBytesBe]
    decide +kernel
  refine ⟨importPublic_of_4097_bits, ?_, ?_⟩
  · rw [SoftwarePublicKey.validate, hrefused]
    rfl
  · rw [SoftwarePublicKey.verifyMessage, hrefused]
    rfl

end SoftwareKeyCore.SoftwareSigning
