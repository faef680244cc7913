import SoftwareKeyCore.RsaSigning.PrivateOperations

/-!
# The signatures that are accepted

For a key whose exponents undo each other the raw operations of `rsa_signing.rs` are inverse to each
other on the byte strings of the size of the modulus (`publicOperation_eq_ok_iff_private`). The
verifiers therefore accept no signature besides those that the private key makes:
`signatures_exact` says so for every scheme, with the salt of a PSS signature determined by the
signature.
-/

set_option autoImplicit false
set_option relaxedAutoImplicit false

namespace SoftwareKeyCore.RsaSigning

open ByteString CallbackSession CheckedSlice MaskedBytes Panicking RsaKeys

/-! ### The raw operations -/

section

variable {rsaDecryptAndCheck : RsaDecryptAndCheck} {rsaEncrypt : RsaEncrypt} {key : RsaPrivateKey}
  (hinvert : OperationsInvert rsaDecryptAndCheck rsaEncrypt key)
include hinvert

/-- The private exponent undoes the public one as well. -/
theorem OperationsInvert.private_inverse {x : ℕ} (hx : x < key.n) :
    (x ^ key.e % key.n) ^ key.d % key.n = x := by
  calc (x ^ key.e % key.n) ^ key.d % key.n = (x ^ key.e) ^ key.d % key.n := (Nat.pow_mod _ _ _).symm
    _ = (x ^ key.d) ^ key.e % key.n := by rw [← pow_mul, ← pow_mul, mul_comm]
    _ = x := hinvert.inverse x hx

/-- What is signed is what the public operation recovers of its signature, without the zero bytes
before it. -/
theorem privateOperation_eq_ok_iff_recovered {input signature : ByteString} :
    privateOperation rsaDecryptAndCheck key input = .ok signature ↔
      input.length ≤ key.size ∧ publicOperation rsaEncrypt key.toPublicKey signature =
        .ok (List.replicate (key.size - input.length) 0 ++ input) := by
  constructor
  · intro hsigned
    exact ⟨((privateOperation_eq_ok_iff hinvert).mp hsigned).1.1,
      (publicOperation_of_privateOperation hinvert hsigned).2⟩
  · rintro ⟨hlength, hrecovered⟩
    obtain ⟨hsize, hlt, value, hvalue, -, hpadded⟩ := publicOperation_eq_ok_iff.mp hrecovered
    rw [key.size_toPublicKey] at hsize hpadded
    rw [hinvert.encrypt _ hlt, Option.some.injEq] at hvalue
    have hn : 0 < key.n := Nat.zero_lt_of_lt hlt
    have hpower : value < key.n := hvalue ▸ Nat.mod_lt _ hn
    have hinput : fromBeBytes input = value := by
      have hnumber := congrArg fromBeBytes hpadded
      rwa [fromBeBytes_replicate_zero_append, fromBeBytes_toBeBytes_of_lt
        (hpower.trans key.n_lt)] at hnumber
    refine (privateOperation_eq_ok_iff hinvert).mpr ⟨⟨hlength, hinput.symm ▸ hpower⟩, ?_⟩
    rw [hinput, ← hvalue, hinvert.private_inverse hlt, ← hsize, toBeBytes_fromBeBytes]

/-- On byte strings of the size of the modulus the operations are inverse to each other. -/
theorem publicOperation_eq_ok_iff_private {encoded ciphertext : ByteString} :
    publicOperation rsaEncrypt key.toPublicKey encoded = .ok ciphertext ↔
      ciphertext.length = key.size ∧
        privateOperation rsaDecryptAndCheck key ciphertext = .ok encoded := by
  rw [privateOperation_eq_ok_iff_recovered hinvert]
  constructor
  · intro hencrypted
    obtain ⟨-, -, value, -, -, hciphertext⟩ := publicOperation_eq_ok_iff.mp hencrypted
    have hlength : ciphertext.length = key.size := by
      rw [hciphertext, length_toBeBytes, key.size_toPublicKey]
    refine ⟨hlength, hlength.le, ?_⟩
    rw [hlength, Nat.sub_self, List.replicate_zero, List.nil_append]
    exact hencrypted
  · rintro ⟨hlength, -, hencrypted⟩
    rwa [hlength, Nat.sub_self, List.replicate_zero, List.nil_append] at hencrypted

end

/-- A byte string of the size of the modulus that starts with a zero byte is below the modulus. -/
theorem fromBeBytes_lt_of_zero {key : RsaPrivateKey} (hn : 0 < key.n) {rest : ByteString}
    (hlength : (0 :: rest).length = key.size) : fromBeBytes (0 :: rest) < key.n := by
  have hbits : 0 < key.bits := Nat.size_pos.mpr hn
  have hrest : 8 * rest.length < key.bits := by
    rw [List.length_cons, RsaPrivateKey.size] at hlength
    omega
  calc fromBeBytes (0 :: rest) = fromBeBytes rest := fromBeBytes_replicate_zero_append 1 rest
    _ < 256 ^ rest.length := fromBeBytes_lt rest
    _ = 2 ^ (8 * rest.length) := by rw [pow_mul]; norm_num
    _ ≤ key.n := key.two_pow_le hrest

/-! ### Encodings -/

/-- A `PKCS #1` encoding has the size of the modulus, however short the modulus is. -/
theorem length_of_pkcs1v15EncodedPayload {modulusSize : ℕ} {payload encoded : ByteString}
    (hencoded : answer (pkcs1v15EncodedPayload modulusSize payload) = some (.ok encoded)) :
    encoded.length = modulusSize := by
  unfold pkcs1v15EncodedPayload at hencoded
  obtain ⟨-, hencoded⟩ := answer_ite_throw_eq_ok_iff.mp hencoded
  obtain ⟨withoutPayload, hwithoutPayload, hencoded⟩ := answer_bind_eq_ok_iff.mp hencoded
  obtain ⟨separator, hseparator, hencoded⟩ := answer_bind_eq_ok_iff.mp hencoded
  rw [answer_pure_eq_ok_iff] at hencoded
  have hpayload : payload.length ≤ modulusSize ∧ modulusSize - payload.length = withoutPayload := by
    by_cases hle : payload.length ≤ modulusSize
    · rw [answer_checkedSub_of_le hle] at hwithoutPayload
      exact ⟨hle, Except.ok.inj (Option.some.inj hwithoutPayload)⟩
    · rw [answer_checkedSub_of_lt (not_le.mp hle)] at hwithoutPayload
      exact nomatch hwithoutPayload
  have hone : 1 ≤ withoutPayload ∧ withoutPayload - 1 = separator := by
    by_cases hle : 1 ≤ withoutPayload
    · rw [answer_checkedSub_of_le hle] at hseparator
      exact ⟨hle, Except.ok.inj (Option.some.inj hseparator)⟩
    · rw [answer_checkedSub_of_lt (not_le.mp hle)] at hseparator
      exact nomatch hseparator
  rw [← hencoded]
  simp only [List.length_append, length_resize, List.length_singleton]
  omega

section

variable {hashes : HashFunctions}

/-- The salt of an encoded message is determined by the message. -/
theorem IsPssMessage.salt_unique {modulusBits emBits : ℕ} {parameters : RsaPssParameters}
    {digest salt salt' message : ByteString}
    (hfits : FitsPss modulusBits emBits parameters digest)
    (hsalt : salt.length = parameters.saltLength) (hsalt' : salt'.length = parameters.saltLength)
    (hmessage : IsPssMessage hashes emBits parameters digest salt message)
    (hmessage' : IsPssMessage hashes emBits parameters digest salt' message) : salt = salt' := by
  obtain ⟨-, maskedDb, mask, hsplit, -, hmask, hblock⟩ := (passesPss_iff hfits hsalt).mpr hmessage
  obtain ⟨-, maskedDb', mask', hsplit', -, hmask', hblock'⟩ :=
    (passesPss_iff hfits hsalt').mpr hmessage'
  have hsame := hsplit.symm.trans hsplit'
  obtain ⟨hfront, -⟩ := List.append_inj' hsame rfl
  obtain ⟨rfl, hhash⟩ := List.append_inj' hfront (by rw [length_pssHash, length_pssHash])
  rw [← hhash] at hmask'
  obtain rfl := Except.ok.inj (hmask.symm.trans hmask')
  have hblocks := hblock.symm.trans hblock'
  exact (List.cons.inj (List.append_cancel_left hblocks)).2

end

/-! ### The schemes -/

section

variable {hashes : HashFunctions} {rsaDecryptAndCheck : RsaDecryptAndCheck}
  {rsaEncrypt : RsaEncrypt} {key : RsaPrivateKey}
  (hinvert : OperationsInvert rsaDecryptAndCheck rsaEncrypt key)
include hinvert

/-- The verifier of raw inputs accepts the signature of the input, and no other. -/
theorem rsaVerifyRaw_eq_ok_iff_sign {input signature : ByteString} :
    rsaVerifyRaw rsaEncrypt key.toPublicKey input signature = .ok () ↔
      rsaSignRaw rsaDecryptAndCheck key input = .ok signature := by
  unfold rsaVerifyRaw rsaSignRaw
  dsimp only
  rw [FallibleResult.ite_error_eq_ok_iff, privateOperation_eq_ok_iff_recovered hinvert,
    key.size_toPublicKey, not_lt]
  refine and_congr_right fun _ ↦ ?_
  rw [FallibleResult.bind_eq_ok_iff]
  simp only [FallibleResult.ite_ok_eq_ok_iff]
  constructor
  · rintro ⟨recovered, hrecovered, rfl⟩
    exact hrecovered
  · exact fun hrecovered ↦ ⟨_, hrecovered, rfl⟩

/-- The verifier of a payload accepts the signature of the payload, and no other. -/
theorem rsaVerifyPkcs1v15Payload_eq_ok_iff_sign {payload signature : ByteString} :
    answer (rsaVerifyPkcs1v15Payload rsaEncrypt key.toPublicKey payload signature) =
        some (.ok ()) ↔
      answer (rsaSignPkcs1v15Payload rsaDecryptAndCheck key payload) = some (.ok signature) := by
  unfold rsaVerifyPkcs1v15Payload rsaSignPkcs1v15Payload
  rw [answer_bind_eq_ok_iff, answer_bind_eq_ok_iff, key.size_toPublicKey]
  refine exists_congr fun encoded ↦ and_congr_right fun hencoded ↦ ?_
  have hlength := length_of_pkcs1v15EncodedPayload hencoded
  rw [answer_bind_eq_ok_iff, answer_ofResult_id_eq_ok_iff,
    privateOperation_eq_ok_iff_recovered hinvert, hlength, and_iff_right le_rfl, Nat.sub_self,
    List.replicate_zero, List.nil_append]
  simp only [answer_ofResult_id_eq_ok_iff, answer_throwIf_eq_ok_iff, not_not]
  constructor
  · rintro ⟨recovered, hrecovered, rfl⟩
    exact hrecovered
  · exact fun hrecovered ↦ ⟨encoded, hrecovered, rfl⟩

/-- The verifier of a digest accepts the signature of the digest, and no other. -/
theorem rsaVerifyPkcs1v15Digest_eq_ok_iff_sign {hash : HashAlgorithm}
    {digest signature : ByteString} :
    answer (rsaVerifyPkcs1v15Digest rsaEncrypt key.toPublicKey hash digest signature) =
        some (.ok ()) ↔
      answer (rsaSignPkcs1v15Digest rsaDecryptAndCheck key hash digest) = some (.ok signature) := by
  unfold rsaVerifyPkcs1v15Digest rsaSignPkcs1v15Digest
  rw [answer_bind_eq_ok_iff, answer_bind_eq_ok_iff]
  exact exists_congr fun payload ↦ and_congr_right fun _ ↦
    rsaVerifyPkcs1v15Payload_eq_ok_iff_sign hinvert

/-- What signs with a salt. -/
theorem rsaSignPssDigest_eq_ok_iff {parameters : RsaPssParameters} {digest signature : ByteString}
    {salt : List.Vector UInt8 parameters.saltLength} :
    answer (rsaSignPssDigest hashes (seedFill salt) rsaDecryptAndCheck key parameters digest) =
        some (.ok signature) ↔
      ∃ emBits message, FitsPss key.bits emBits parameters digest ∧
        IsPssMessage hashes emBits parameters digest salt.toList message ∧
        publicOperation rsaEncrypt key.toPublicKey signature =
          .ok (List.replicate (key.size - message.length) 0 ++ message) := by
  unfold rsaSignPssDigest
  rw [answer_bind_eq_ok_iff]
  simp only [answer_ofResult_id_eq_ok_iff]
  constructor
  · rintro ⟨message, hencoded, hsigned⟩
    obtain ⟨emBits, salt', hfits, hfill, hmessage⟩ := answer_pssEncodedDigest_eq_ok_iff.mp hencoded
    rw [seedFill_self, Option.some.injEq] at hfill
    subst hfill
    exact ⟨emBits, message, hfits, hmessage,
      ((privateOperation_eq_ok_iff_recovered hinvert).mp hsigned).2⟩
  · rintro ⟨emBits, message, hfits, hmessage, hrecovered⟩
    have hencoded : answer (pssEncodedDigest hashes (seedFill salt) key.bits parameters digest) =
        some (.ok message) :=
      answer_pssEncodedDigest_eq_ok_iff.mpr ⟨emBits, salt, hfits, seedFill_self _, hmessage⟩
    exact ⟨message, hencoded, (privateOperation_eq_ok_iff_recovered hinvert).mpr
      ⟨(encoded_lt_of_pss hencoded).1, hrecovered⟩⟩

/-- A PSS signature is made with one salt only. -/
theorem rsaSignPssDigest_salt_unique {parameters : RsaPssParameters} {digest signature : ByteString}
    {salt salt' : List.Vector UInt8 parameters.saltLength}
    (hsigned : answer (rsaSignPssDigest hashes (seedFill salt) rsaDecryptAndCheck key parameters
      digest) = some (.ok signature))
    (hsigned' : answer (rsaSignPssDigest hashes (seedFill salt') rsaDecryptAndCheck key parameters
      digest) = some (.ok signature)) : salt = salt' := by
  obtain ⟨emBits, message, hfits, hmessage, hrecovered⟩ :=
    (rsaSignPssDigest_eq_ok_iff hinvert).mp hsigned
  obtain ⟨emBits', message', hfits', hmessage', hrecovered'⟩ :=
    (rsaSignPssDigest_eq_ok_iff hinvert).mp hsigned'
  obtain rfl : emBits = emBits' := by
    have hbits := hfits.bits_eq
    have hbits' := hfits'.bits_eq
    omega
  have hlength := ((passesPss_iff hfits salt.toList_length).mpr hmessage).1
  have hlength' := ((passesPss_iff hfits salt'.toList_length).mpr hmessage').1
  have hsame := Except.ok.inj (hrecovered.symm.trans hrecovered')
  rw [hlength, hlength'] at hsame
  obtain rfl := List.append_cancel_left hsame
  exact Subtype.ext (IsPssMessage.salt_unique hfits salt.toList_length salt'.toList_length hmessage
    hmessage')

/-- The PSS verifier accepts the signatures of the digest, each with one salt, and no other. -/
theorem rsaVerifyPssDigest_eq_ok_iff_sign {parameters : RsaPssParameters}
    {digest signature : ByteString} :
    answer (rsaVerifyPssDigest hashes rsaEncrypt key.toPublicKey parameters digest signature) =
        some (.ok ()) ↔
      ∃! salt : List.Vector UInt8 parameters.saltLength,
        answer (rsaSignPssDigest hashes (seedFill salt) rsaDecryptAndCheck key parameters digest) =
          some (.ok signature) := by
  unfold rsaVerifyPssDigest
  rw [answer_bind_eq_ok_iff]
  simp only [answer_ofResult_id_eq_ok_iff, answer_verifyPssEncodedDigest_eq_ok_iff]
  constructor
  · rintro ⟨recovered, hrecovered, emBits, zeros, message, salt, hfits, rfl, hsalt, hmessage⟩
    obtain ⟨-, -, value, -, -, hbytes⟩ := publicOperation_eq_ok_iff.mp hrecovered
    have hzeros : zeros = key.size - message.length := by
      have hlength := congrArg List.length hbytes
      rw [List.length_append, List.length_replicate, length_toBeBytes, key.size_toPublicKey]
        at hlength
      omega
    rw [hzeros] at hrecovered
    have hsigned : answer (rsaSignPssDigest hashes (seedFill ⟨salt, hsalt⟩) rsaDecryptAndCheck key
        parameters digest) = some (.ok signature) :=
      (rsaSignPssDigest_eq_ok_iff hinvert).mpr ⟨emBits, message, hfits, hmessage, hrecovered⟩
    exact ⟨⟨salt, hsalt⟩, hsigned,
      fun salt' hsigned' ↦ rsaSignPssDigest_salt_unique hinvert hsigned' hsigned⟩
  · rintro ⟨salt, hsigned, -⟩
    obtain ⟨emBits, message, hfits, hmessage, hrecovered⟩ :=
      (rsaSignPssDigest_eq_ok_iff hinvert).mp hsigned
    exact ⟨_, hrecovered, emBits, _, message, salt.toList, hfits, rfl, salt.toList_length, hmessage⟩

end

/-- For a key whose exponents undo each other the verifier of every scheme accepts exactly the
signatures that the key makes, the deterministic schemes one for each input, and PSS one for each
salt.

Assumes that the third-party powers are powers and that the exponents undo each other on every
residue (`OperationsInvert`). No law of the hash functions and no bound on the modulus is
assumed. -/
theorem signatures_exact (hashes : HashFunctions) (rsaDecryptAndCheck : RsaDecryptAndCheck)
    (rsaEncrypt : RsaEncrypt) (key : RsaPrivateKey)
    (hinvert : OperationsInvert rsaDecryptAndCheck rsaEncrypt key) (signature : ByteString) :
    (∀ input, rsaVerifyRaw rsaEncrypt key.toPublicKey input signature = .ok () ↔
      rsaSignRaw rsaDecryptAndCheck key input = .ok signature) ∧
    (∀ payload, answer (rsaVerifyPkcs1v15Payload rsaEncrypt key.toPublicKey payload signature) =
        some (.ok ()) ↔
      answer (rsaSignPkcs1v15Payload rsaDecryptAndCheck key payload) = some (.ok signature)) ∧
    (∀ hash digest,
      answer (rsaVerifyPkcs1v15Digest rsaEncrypt key.toPublicKey hash digest signature) =
        some (.ok ()) ↔
      answer (rsaSignPkcs1v15Digest rsaDecryptAndCheck key hash digest) = some (.ok signature)) ∧
    ∀ (parameters : RsaPssParameters) (digest : ByteString),
      answer (rsaVerifyPssDigest hashes rsaEncrypt key.toPublicKey parameters digest signature) =
        some (.ok ()) ↔
      ∃! salt : List.Vector UInt8 parameters.saltLength,
        answer (rsaSignPssDigest hashes (seedFill salt) rsaDecryptAndCheck key parameters digest) =
          some (.ok signature) :=
  ⟨fun _ ↦ rsaVerifyRaw_eq_ok_iff_sign hinvert,
    fun _ ↦ rsaVerifyPkcs1v15Payload_eq_ok_iff_sign hinvert,
    fun _ _ ↦ rsaVerifyPkcs1v15Digest_eq_ok_iff_sign hinvert,
    fun _ _ ↦ rsaVerifyPssDigest_eq_ok_iff_sign hinvert⟩

/-- Under the key of 633 bits and the exponent 5 the signature of 32 is 2. -/
theorem signatures_exact_oddSizeKey :
    rsaSignRaw (fun key x ↦ some (ModularPower.modpow x key.d key.n)) oddSizeKey [32] =
      .ok (toBeBytes 80 2) :=
  ((signatures_exact zeroHashes _ (fun key x ↦ some (ModularPower.modpow x key.e key.n)) oddSizeKey
    operationsInvert_oddSizeKey (toBeBytes 80 2)).1 [32]).mp (by decide +kernel)

end SoftwareKeyCore.RsaSigning
