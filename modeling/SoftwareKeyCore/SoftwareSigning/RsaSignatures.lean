import SoftwareKeyCore.RsaSigning.PrivateOperations
import SoftwareKeyCore.RsaSigning.PssLengths
import SoftwareKeyCore.SoftwareSigning.PublicKey

/-!
# RSA-PSS signatures with a salt length of the caller

`software_signing.rs`: the methods that pass on a salt length, `sign_rsa_pss_prehash` and
`sign_rsa_pss_digest` of a signing key beside `verify_rsa_pss_prehash` of a public key. The modular
power of a private key is a parameter, as is the random source of the salt.

A salt length near the end of the words makes them panic. `pssLengthArithmetic_iff` is the exact
condition, for the encoder, the verifier and each of the methods.
-/

set_option autoImplicit false
set_option relaxedAutoImplicit false

namespace SoftwareKeyCore.SoftwareSigning

open ByteString CallbackSession CheckedSlice Panicking RsaKeys RsaSigning

variable (hashes : HashFunctions) (fill : RandomFill) (rsaDecryptAndCheck : RsaDecryptAndCheck)

/-! ### Signing -/

/-- `rsa_sign_prehash`. -/
def rsaSignPrehash (algorithm : SignatureScheme) (key : RsaPrivateKey) (prehash : ByteString)
    (pssSaltLength : Option ℕ) : Panicking SoftwareSigningError ByteString :=
  match rsaProfile algorithm with
  | none => throw .algorithmMismatch
  | some (hash, pss) =>
    liftPanicking mapRsaSigningError <|
      if pss then
        rsaSignPssDigest hashes fill rsaDecryptAndCheck key
          { hash := hash, mgfHash := hash, saltLength := pssSaltLength.getD hash.outputLength }
          prehash
      else rsaSignPkcs1v15Digest rsaDecryptAndCheck key hash prehash

namespace SoftwareSigningKey

variable {libraries : KeyLibraries}

/-- `SoftwareSigningKey::sign_rsa_pss_prehash`. -/
def signRsaPssPrehash (key : SoftwareSigningKey libraries) (algorithm : SignatureScheme)
    (prehash : ByteString) (saltLength : ℕ) : Panicking SoftwareSigningError ByteString :=
  match key with
  | .rsa key =>
    rsaSignPrehash hashes fill rsaDecryptAndCheck algorithm key.key prehash (some saltLength)
  | _ => throw .algorithmMismatch

/-- `SoftwareSigningKey::sign_rsa_pss_digest`. -/
def signRsaPssDigest (key : SoftwareSigningKey libraries) (hash mgfHash : HashAlgorithm)
    (saltLength : ℕ) (digest : ByteString) : Panicking SoftwareSigningError ByteString :=
  match key with
  | .rsa key =>
    liftPanicking mapRsaSigningError
      (rsaSignPssDigest hashes fill rsaDecryptAndCheck key.key
        { hash := hash, mgfHash := mgfHash, saltLength := saltLength } digest)
  | _ => throw .algorithmMismatch

end SoftwareSigningKey

/-! ### Panics of the parts -/

/-- Wrapping errors does not change whether a computation panics. -/
theorem answer_liftPanicking_eq_none_iff {ε ε' α : Type} {wrap : ε → ε'}
    {computation : Panicking ε α} :
    answer (liftPanicking wrap computation : Panicking ε' α) = none ↔
      answer computation = none := by
  unfold liftPanicking
  cases answer computation with
  | none => exact iff_of_true rfl rfl
  | some result =>
    cases result with
    | ok value => exact iff_of_false (Option.some_ne_none _) (Option.some_ne_none _)
    | error error => exact iff_of_false (Option.some_ne_none _) (Option.some_ne_none _)

section

variable {hashes fill rsaDecryptAndCheck} {library : PublicKeyLibrary} {hash : HashAlgorithm}
  {digest signature : ByteString}

/-- A payload with bytes is encoded without a panic, for a modulus of any size. -/
theorem answer_pkcs1v15EncodedPayload_ne_none {payload : ByteString} (hpayload : payload ≠ [])
    (modulusSize : ℕ) : answer (pkcs1v15EncodedPayload modulusSize payload) ≠ none := by
  have hpositive := List.length_pos_iff.mpr hpayload
  by_cases hmodulus : 0 < modulusSize
  · obtain ⟨result, hresult⟩ := exists_answer_pkcs1v15EncodedPayload hmodulus payload
    rw [hresult]
    exact Option.some_ne_none result
  · rw [pkcs1v15EncodedPayload, if_pos (by omega)]
    exact Option.some_ne_none _

theorem digestInfo_ne_nil {payload : ByteString} (hinfo : digestInfo hash digest = .ok payload) :
    payload ≠ [] := by
  unfold digestInfo at hinfo
  split_ifs at hinfo
  rw [← Except.ok.inj hinfo]
  cases hash <;> exact List.cons_ne_nil _ _

theorem answer_rsaSignPkcs1v15Digest_ne_none (key : RsaPrivateKey) :
    answer (rsaSignPkcs1v15Digest rsaDecryptAndCheck key hash digest) ≠ none := by
  unfold rsaSignPkcs1v15Digest
  cases hinfo : digestInfo hash digest with
  | error error => exact fun hpanic ↦ nomatch hpanic
  | ok payload =>
    rw [answer_bind_of_ok (answer_ofResult _ _), rsaSignPkcs1v15Payload, Ne,
      answer_bind_ofResult_eq_none_iff]
    exact answer_pkcs1v15EncodedPayload_ne_none (digestInfo_ne_nil hinfo) key.size

theorem answer_rsaVerifyPkcs1v15Digest_ne_none {rsaEncrypt : RsaEncrypt} (key : RsaPublicKey) :
    answer (rsaVerifyPkcs1v15Digest rsaEncrypt key hash digest signature) ≠ none := by
  unfold rsaVerifyPkcs1v15Digest
  cases hinfo : digestInfo hash digest with
  | error error => exact fun hpanic ↦ nomatch hpanic
  | ok payload =>
    rw [answer_bind_of_ok (answer_ofResult _ _)]
    have hencode := answer_pkcs1v15EncodedPayload_ne_none (digestInfo_ne_nil hinfo) key.size
    obtain ⟨result, hresult⟩ := Option.ne_none_iff_exists'.mp hencode
    have hsafe : Safe (rsaVerifyPkcs1v15Payload rsaEncrypt key payload signature) fun _ ↦ True :=
      Safe.bind ⟨result, hresult, fun _ _ ↦ trivial⟩ fun expected _ ↦
        (safe_ofResult _ _).bind fun recovered _ ↦ (safe_throwIf _ _).mono fun _ _ ↦ trivial
    exact hsafe.answer_ne_none

theorem answer_rsaSignPssDigest_eq_none_iff {key : RsaPrivateKey} {parameters : RsaPssParameters} :
    answer (rsaSignPssDigest hashes fill rsaDecryptAndCheck key parameters digest) = none ↔
      OverflowsEncoding key.bits parameters digest :=
  answer_bind_ofResult_eq_none_iff.trans answer_pssEncodedDigest_eq_none_iff

/-! ### Panics of the methods -/

/-- The signing calls of an RSA key that overflow. -/
theorem answer_signRsaPssDigest_eq_none_iff {libraries : KeyLibraries}
    {key : SoftwareSigningKey libraries} {mgfHash : HashAlgorithm} {saltLength : ℕ} :
    answer (key.signRsaPssDigest hashes fill rsaDecryptAndCheck hash mgfHash saltLength digest) =
        none ↔
      ∃ rsaKey : RsaKey, key = .rsa rsaKey ∧ OverflowsEncoding rsaKey.key.bits
        { hash := hash, mgfHash := mgfHash, saltLength := saltLength } digest := by
  cases key with
  | rsa rsaKey =>
    refine (answer_liftPanicking_eq_none_iff.trans answer_rsaSignPssDigest_eq_none_iff).trans ?_
    simp
  | ec key => exact iff_of_false (fun hpanic ↦ nomatch hpanic) (by simp)
  | edwards key => exact iff_of_false (fun hpanic ↦ nomatch hpanic) (by simp)
  | mlDsa key => exact iff_of_false (fun hpanic ↦ nomatch hpanic) (by simp)

/-- The same for a signature scheme, which has to be one of PSS. -/
theorem answer_signRsaPssPrehash_eq_none_iff {libraries : KeyLibraries}
    {key : SoftwareSigningKey libraries} {algorithm : SignatureScheme} {saltLength : ℕ} :
    answer (key.signRsaPssPrehash hashes fill rsaDecryptAndCheck algorithm digest saltLength) =
        none ↔
      ∃ (rsaKey : RsaKey) (hash : HashAlgorithm), key = .rsa rsaKey ∧
        rsaProfile algorithm = some (hash, true) ∧ OverflowsEncoding rsaKey.key.bits
          { hash := hash, mgfHash := hash, saltLength := saltLength } digest := by
  cases key with
  | rsa rsaKey =>
    unfold SoftwareSigningKey.signRsaPssPrehash rsaSignPrehash
    dsimp only
    cases hprofile : rsaProfile algorithm with
    | none => exact iff_of_false (fun hpanic ↦ nomatch hpanic) (by simp)
    | some profile =>
      obtain ⟨hash, pss⟩ := profile
      rw [answer_liftPanicking_eq_none_iff]
      cases pss with
      | false => exact iff_of_false (answer_rsaSignPkcs1v15Digest_ne_none rsaKey.key) (by simp)
      | true =>
        rw [if_pos rfl, answer_rsaSignPssDigest_eq_none_iff]
        simp
  | ec key => exact iff_of_false (fun hpanic ↦ nomatch hpanic) (by simp)
  | edwards key => exact iff_of_false (fun hpanic ↦ nomatch hpanic) (by simp)
  | mlDsa key => exact iff_of_false (fun hpanic ↦ nomatch hpanic) (by simp)

/-- The keys that the crate builds have moduli of at most 4096 bits. -/
theorem bits_le_of_rsaPublicKey {modulus exponent : ByteString} {key : RsaPublicKey}
    (hbuilt : rsaPublicKey library modulus exponent = .ok key) : key.bits ≤ 4096 := by
  rw [rsaPublicKey, FallibleResult.orError_eq_ok_iff] at hbuilt
  obtain ⟨⟨hsize, -⟩, rfl⟩ := RsaPublicKey.newWithMaxSize_eq_some_iff.mp hbuilt
  exact hsize

end

/-- The verification calls that overflow: those of an RSA key that the crate builds and a scheme of
PSS, with a digest of its hash, a salt length whose sum with the other lengths is past the words,
and a signature of the key whose public power fits the encoded message. -/
def OverflowsVerifyPrehash (library : PublicKeyLibrary) (key : SoftwarePublicKey)
    (algorithm : SignatureScheme) (prehash : ByteString) (saltLength : ℕ) (signature : ByteString) :
    Prop :=
  ∃ modulus exponent built hash value, key = .rsa modulus exponent ∧
    rsaPublicKey library modulus exponent = .ok built ∧
    rsaProfile algorithm = some (hash, true) ∧
    signature.length = built.size ∧ fromBeBytes signature < built.n ∧
    library.rsaEncrypt built (fromBeBytes signature) = some value ∧
    value < 256 ^ ((built.bits - 1) ⌈/⌉ 8) ∧
    prehash.length = hash.outputLength ∧ 2 ^ 64 ≤ hash.outputLength + saltLength + 2

/-- The verification of a digest panics on these calls and on no others. -/
theorem answer_verifyRsaPssPrehash_eq_none_iff {library : PublicKeyLibrary}
    {key : SoftwarePublicKey} {algorithm : SignatureScheme} {prehash : ByteString} {saltLength : ℕ}
    {signature : ByteString} :
    answer (key.verifyRsaPssPrehash library algorithm prehash saltLength signature) = none ↔
      OverflowsVerifyPrehash library key algorithm prehash saltLength signature := by
  unfold OverflowsVerifyPrehash
  cases key with
  | rsa modulus exponent =>
    unfold SoftwarePublicKey.verifyRsaPssPrehash
    dsimp only
    cases hbuilt : rsaPublicKey library modulus exponent with
    | error error =>
      refine iff_of_false (fun hpanic ↦ nomatch hpanic) ?_
      rintro ⟨modulus', exponent', built, hash, value, ⟨⟩, hbuilt', -⟩
      exact nomatch hbuilt.symm.trans hbuilt'
    | ok built =>
      rw [answer_bind_of_ok (answer_ofResult _ _), verifyRsaPrehash]
      cases hprofile : rsaProfile algorithm with
      | none => exact iff_of_false (fun hpanic ↦ nomatch hpanic) (by simp)
      | some profile =>
        obtain ⟨hash, pss⟩ := profile
        dsimp only
        rw [answer_liftPanicking_eq_none_iff]
        cases pss with
        | false => exact iff_of_false (answer_rsaVerifyPkcs1v15Digest_ne_none built) (by simp)
        | true =>
          have hbits : built.bits < 2 ^ 60 :=
            (bits_le_of_rsaPublicKey hbuilt).trans_lt (by norm_num)
          rw [if_pos rfl, answer_rsaVerifyPssDigest_eq_none_iff hbits]
          constructor
          · rintro ⟨hlength, hlt, ⟨value, hvalue, hshort⟩, hdigest, hsum⟩
            exact ⟨modulus, exponent, built, hash, value, rfl, hbuilt, rfl, hlength, hlt, hvalue,
              hshort, hdigest, hsum⟩
          · rintro ⟨modulus', exponent', built', hash', value, ⟨⟩, hbuilt', hprofile', hlength, hlt,
              hvalue, hshort, hdigest, hsum⟩
            obtain rfl := Except.ok.inj (hbuilt.symm.trans hbuilt')
            obtain ⟨rfl, -⟩ := Prod.mk.inj (Option.some.inj hprofile')
            exact ⟨hlength, hlt, ⟨value, hvalue, hshort⟩, hdigest, hsum⟩
  | ec curve uncompressed => exact iff_of_false (fun hpanic ↦ nomatch hpanic) (by simp)
  | edwards curve publicKey => exact iff_of_false (fun hpanic ↦ nomatch hpanic) (by simp)
  | mlDsa parameterSet publicKey => exact iff_of_false (fun hpanic ↦ nomatch hpanic) (by simp)

/-- The length arithmetic of PSS is safe exactly where its sum of lengths, and in the verifier of an
encoding also the number of bits of the encoded message, does not overflow.

The additions are those of 64-bit words. Nothing is assumed of the hash functions, the random
source or the third-party powers. -/
theorem pssLengthArithmetic_iff (hashes : HashFunctions) (fill : RandomFill)
    (rsaDecryptAndCheck : RsaDecryptAndCheck) (library : PublicKeyLibrary)
    (libraries : KeyLibraries) (modulusBits : ℕ) (parameters : RsaPssParameters)
    (digest encoded signature : ByteString) (signingKey : SoftwareSigningKey libraries)
    (publicKey : SoftwarePublicKey) (algorithm : SignatureScheme) (hash mgfHash : HashAlgorithm)
    (saltLength : ℕ) :
    (EncodesSafely hashes fill modulusBits parameters digest ↔
      ¬ OverflowsEncoding modulusBits parameters digest) ∧
    (VerifiesSafely hashes encoded modulusBits parameters digest ↔
      ¬ OverflowsVerification encoded modulusBits parameters digest) ∧
    (answer (signingKey.signRsaPssPrehash hashes fill rsaDecryptAndCheck algorithm digest
        saltLength) ≠ none ↔
      ¬ ∃ (rsaKey : RsaKey) (hash : HashAlgorithm), signingKey = .rsa rsaKey ∧
        rsaProfile algorithm = some (hash, true) ∧ OverflowsEncoding rsaKey.key.bits
          { hash := hash, mgfHash := hash, saltLength := saltLength } digest) ∧
    (answer (signingKey.signRsaPssDigest hashes fill rsaDecryptAndCheck hash mgfHash saltLength
        digest) ≠ none ↔
      ¬ ∃ rsaKey : RsaKey, signingKey = .rsa rsaKey ∧ OverflowsEncoding rsaKey.key.bits
        { hash := hash, mgfHash := mgfHash, saltLength := saltLength } digest) ∧
    (answer (publicKey.verifyRsaPssPrehash library algorithm digest saltLength signature) ≠ none ↔
      ¬ OverflowsVerifyPrehash library publicKey algorithm digest saltLength signature) :=
  ⟨encodesSafely_iff, verifiesSafely_iff, answer_signRsaPssPrehash_eq_none_iff.not,
    answer_signRsaPssDigest_eq_none_iff.not, answer_verifyRsaPssPrehash_eq_none_iff.not⟩

/-- The largest salt length makes the encoder and the verifier of a modulus of 2048 bits panic, and
the verification of a digest with a zero signature and a public key of 512 bits. -/
theorem not_pssLengthArithmetic_of_max_saltLength :
    answer (pssEncodedDigest zeroHashes (fun length ↦ some (List.Vector.replicate length 0)) 2048
        { hash := .sha256, mgfHash := .sha256, saltLength := 2 ^ 64 - 1 }
        (List.replicate 32 0)) = none ∧
      answer (verifyPssEncodedDigest zeroHashes (List.replicate 256 0) 2048
        { hash := .sha256, mgfHash := .sha256, saltLength := 2 ^ 64 - 1 }
        (List.replicate 32 0)) = none ∧
      answer (SoftwarePublicKey.verifyRsaPssPrehash openLibrary
        (.rsa (toBytesBe (2 ^ 511 + 35)) [3]) .rsaPssSha256 (List.replicate 32 0) (2 ^ 64 - 1)
        (List.replicate 64 0)) = none :=
  ⟨by decide +kernel, by decide +kernel, by decide +kernel⟩

end SoftwareKeyCore.SoftwareSigning
