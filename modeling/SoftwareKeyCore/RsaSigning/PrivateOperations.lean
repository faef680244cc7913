import SoftwareKeyCore.Foundation.ExponentInverse
import SoftwareKeyCore.Foundation.PrimalityCertificate
import SoftwareKeyCore.RsaKeys
import SoftwareKeyCore.RsaSigning.PublicOperations

/-!
# RSA operations of a private key

`rsa_signing.rs`: the raw private operation and the signatures built over it (`rsa_sign_raw`,
`rsa_sign_pkcs1v15_digest`, `rsa_sign_pss_digest`). The modular power of the third-party crate is a
parameter (`RsaDecryptAndCheck`), which answers a number or fails.

`OperationsInvert` is what is known of a key whose exponents undo each other. An encoding below the
modulus is then signed, and the public operation gives it back after the zero bytes that fill the
size of the modulus (`publicOperation_of_privateOperation`). `encoded_lt_of_pkcs1v15` and
`encoded_lt_of_pss` are that the encodings are below the modulus, and `signatures_verify` is what
follows for the signatures.
-/

set_option autoImplicit false
set_option relaxedAutoImplicit false

namespace SoftwareKeyCore

namespace RsaKeys.RsaPrivateKey

/-- `RsaPrivateKey::to_public_key`. -/
def toPublicKey (key : RsaPrivateKey) : RsaPublicKey :=
  { n := key.n, e := key.e }

@[simp] theorem n_toPublicKey (key : RsaPrivateKey) : key.toPublicKey.n = key.n :=
  rfl

@[simp] theorem size_toPublicKey (key : RsaPrivateKey) : key.toPublicKey.size = key.size :=
  rfl

/-- The modulus has its highest bit. -/
theorem two_pow_le (key : RsaPrivateKey) {bits : ℕ} (hbits : bits < key.bits) :
    2 ^ bits ≤ key.n :=
  Nat.lt_size.mp hbits

/-- The modulus fits its size in bytes. -/
theorem n_lt (key : RsaPrivateKey) : key.n < 256 ^ key.size := by
  have hsize : key.bits ≤ 8 * key.size := by
    unfold size
    omega
  calc key.n < 2 ^ key.bits := Nat.lt_size_self key.n
    _ ≤ 2 ^ (8 * key.size) := Nat.pow_le_pow_right (by omega) hsize
    _ = 256 ^ key.size := by rw [pow_mul]; norm_num

end RsaKeys.RsaPrivateKey

namespace RsaSigning

open ByteString CallbackSession CheckedSlice MaskedBytes Panicking RsaKeys

/-- `rsa::hazmat::rsa_decrypt_and_check`. -/
abbrev RsaDecryptAndCheck := RsaPrivateKey → ℕ → Option ℕ

/-! ### The raw operation -/

/-- `private_operation`. -/
def privateOperation (rsaDecryptAndCheck : RsaDecryptAndCheck) (key : RsaPrivateKey)
    (encoded : ByteString) : Except RsaConstructionError ByteString :=
  if key.size < encoded.length then .error .inputTooLong
  else
    let value := fromBeBytes encoded
    if key.n ≤ value then .error .inputOutOfRange
    else do
      let value ← FallibleResult.orError .operationFailed (rsaDecryptAndCheck key value)
      leftPad (toBytesBe value) key.size

/-! ### Signatures -/

/-- `rsa_sign_raw`. -/
def rsaSignRaw (rsaDecryptAndCheck : RsaDecryptAndCheck) (key : RsaPrivateKey)
    (input : ByteString) : Except RsaConstructionError ByteString :=
  privateOperation rsaDecryptAndCheck key input

/-- `rsa_sign_pkcs1v15_payload`. -/
def rsaSignPkcs1v15Payload (rsaDecryptAndCheck : RsaDecryptAndCheck) (key : RsaPrivateKey)
    (payload : ByteString) : Panicking RsaConstructionError ByteString := do
  let encoded ← pkcs1v15EncodedPayload key.size payload
  ofResult id (privateOperation rsaDecryptAndCheck key encoded)

/-- `rsa_sign_pkcs1v15_digest`. -/
def rsaSignPkcs1v15Digest (rsaDecryptAndCheck : RsaDecryptAndCheck) (key : RsaPrivateKey)
    (hash : HashAlgorithm) (digest : ByteString) : Panicking RsaConstructionError ByteString := do
  let payload ← ofResult id (digestInfo hash digest)
  rsaSignPkcs1v15Payload rsaDecryptAndCheck key payload

/-- `rsa_sign_pss_digest`. -/
def rsaSignPssDigest (hashes : HashFunctions) (fill : RandomFill)
    (rsaDecryptAndCheck : RsaDecryptAndCheck) (key : RsaPrivateKey) (parameters : RsaPssParameters)
    (digest : ByteString) : Panicking RsaConstructionError ByteString := do
  let encoded ← pssEncodedDigest hashes fill key.bits parameters digest
  ofResult id (privateOperation rsaDecryptAndCheck key encoded)

/-! ### Operations that undo each other -/

/-- The operations of a key are the powers of its exponents modulo its modulus, and the public one
undoes the private one. -/
structure OperationsInvert (rsaDecryptAndCheck : RsaDecryptAndCheck) (rsaEncrypt : RsaEncrypt)
    (key : RsaPrivateKey) : Prop where
  decrypt : ∀ x < key.n, rsaDecryptAndCheck key x = some (x ^ key.d % key.n)
  encrypt : ∀ x < key.n, rsaEncrypt key.toPublicKey x = some (x ^ key.e % key.n)
  inverse : ∀ x < key.n, (x ^ key.d) ^ key.e % key.n = x

section

variable {hashes : HashFunctions} {fill : RandomFill} {rsaDecryptAndCheck : RsaDecryptAndCheck}
  {rsaEncrypt : RsaEncrypt} {key : RsaPrivateKey} {encoded signature : ByteString}

/-- What the private operation answers. -/
theorem privateOperation_eq_ok_iff (hinvert : OperationsInvert rsaDecryptAndCheck rsaEncrypt key) :
    privateOperation rsaDecryptAndCheck key encoded = .ok signature ↔
      (encoded.length ≤ key.size ∧ fromBeBytes encoded < key.n) ∧
        signature = toBeBytes key.size (fromBeBytes encoded ^ key.d % key.n) := by
  unfold privateOperation
  dsimp only
  rw [FallibleResult.ite_error_eq_ok_iff, FallibleResult.ite_error_eq_ok_iff, not_lt, not_le,
    ← and_assoc]
  refine and_congr_right fun hfits ↦ ?_
  have hn : 0 < key.n := Nat.zero_lt_of_lt hfits.2
  have hpower : fromBeBytes encoded ^ key.d % key.n < 256 ^ key.size :=
    (Nat.mod_lt _ hn).trans key.n_lt
  have hsize : 1 ≤ key.size := one_le_size key.toPublicKey hn
  rw [hinvert.decrypt _ hfits.2, FallibleResult.orError_some, FallibleResult.ok_bind,
    leftPad_toBytesBe hsize hpower, Except.ok.injEq, eq_comm]

/-- The public operation takes a signature back to what was signed, after zero bytes. -/
theorem publicOperation_of_privateOperation
    (hinvert : OperationsInvert rsaDecryptAndCheck rsaEncrypt key)
    (hsigned : privateOperation rsaDecryptAndCheck key encoded = .ok signature) :
    signature.length = key.size ∧ publicOperation rsaEncrypt key.toPublicKey signature =
      .ok (List.replicate (key.size - encoded.length) 0 ++ encoded) := by
  obtain ⟨⟨hlength, hlt⟩, rfl⟩ := (privateOperation_eq_ok_iff hinvert).mp hsigned
  have hn : 0 < key.n := Nat.zero_lt_of_lt hlt
  have hpower : fromBeBytes encoded ^ key.d % key.n < key.n := Nat.mod_lt _ hn
  have hvalue : fromBeBytes (toBeBytes key.size (fromBeBytes encoded ^ key.d % key.n)) =
      fromBeBytes encoded ^ key.d % key.n :=
    fromBeBytes_toBeBytes_of_lt (hpower.trans key.n_lt)
  have hrecovered : (fromBeBytes encoded ^ key.d % key.n) ^ key.e % key.n =
      fromBeBytes encoded := by
    rw [← Nat.pow_mod]
    exact hinvert.inverse _ hlt
  refine ⟨length_toBeBytes _ _, publicOperation_eq_ok_iff.mpr ⟨length_toBeBytes _ _, ?_, ?_⟩⟩
  · rw [hvalue]
    exact hpower
  · refine ⟨fromBeBytes encoded, ?_, hlt.trans key.n_lt, ?_⟩
    · rw [hvalue, hinvert.encrypt _ hpower, hrecovered]
    · rw [key.size_toPublicKey, toBeBytes_fromBeBytes_of_le hlength]

/-! ### Encodings fit the modulus -/

/-- A `PKCS #1` encoding is as long as the modulus and below it. -/
theorem encoded_lt_of_pkcs1v15 (hbits : 512 ≤ key.bits) {payload : ByteString}
    (hencoded : answer (pkcs1v15EncodedPayload key.size payload) = some (.ok encoded)) :
    encoded.length = key.size ∧ fromBeBytes encoded < key.n := by
  have hsize : 64 ≤ key.size := by
    unfold RsaPrivateKey.size
    omega
  unfold pkcs1v15EncodedPayload at hencoded
  obtain ⟨hroom, hencoded⟩ := answer_ite_throw_eq_ok_iff.mp hencoded
  rw [answer_bind_of_ok (answer_checkedSub_of_le (by omega)),
    answer_bind_of_ok (answer_checkedSub_of_le (by omega)), answer_pure_eq_ok_iff,
    resize_of_le (by simp only [List.length_cons, List.length_nil]; omega)] at hencoded
  have hlength : encoded.length = key.size := by
    rw [← hencoded]
    simp only [List.length_append, List.length_replicate, List.length_cons, List.length_nil]
    omega
  refine ⟨hlength, ?_⟩
  -- The encoding is a zero byte, a one, and the bytes after them.
  obtain ⟨rest, hrest⟩ : ∃ rest, encoded = [0, 1] ++ rest :=
    ⟨_, by rw [← hencoded, List.append_assoc, List.append_assoc]⟩
  have hrestLength : rest.length + 2 = key.size := by
    rw [← hlength, hrest, List.length_append]
    exact Nat.add_comm _ _
  have hbound : 2 ^ (8 * rest.length + 1) ≤ key.n := key.two_pow_le (by
    unfold RsaPrivateKey.size at hrestLength
    omega)
  have hfirst : fromBeBytes [0, 1] = 1 := by decide
  calc fromBeBytes encoded = 256 ^ rest.length + fromBeBytes rest := by
        rw [hrest, fromBeBytes_append, hfirst, one_mul]
    _ < 256 ^ rest.length + 256 ^ rest.length := Nat.add_lt_add_left (fromBeBytes_lt rest) _
    _ = 2 ^ (8 * rest.length + 1) := by rw [pow_succ, pow_mul, mul_two]; norm_num
    _ ≤ key.n := hbound

/-- A PSS encoding is a message of the bits before the highest of the modulus. -/
theorem encoded_lt_of_pss {parameters : RsaPssParameters} {digest : ByteString}
    (hencoded : answer (pssEncodedDigest hashes fill key.bits parameters digest) =
      some (.ok encoded)) :
    encoded.length ≤ key.size ∧ fromBeBytes encoded < key.n := by
  obtain ⟨emBits, salt, hfits, -, hmessage⟩ := answer_pssEncodedDigest_eq_ok_iff.mp hencoded
  obtain ⟨hlength, -⟩ := (passesPss_iff hfits salt.toList_length).mpr hmessage
  obtain ⟨mask, hmask, rfl⟩ := hmessage
  obtain ⟨hle, hunused⟩ := unused_lt emBits
  have hbits := hfits.bits_eq
  refine ⟨?_, ?_⟩
  · rw [hlength, RsaPrivateKey.size, hbits, Nat.ceilDiv_eq_add_pred_div]
    omega
  · have hblock : xorBytes (pssDataBlock (emBits ⌈/⌉ 8) parameters salt.toList) mask ≠ [] := by
      rw [← List.length_pos_iff, length_xorBytes, length_mgf1_eq hashes hmask, min_self]
      simp [pssDataBlock]
    have hcleared : clearTop (topMask (8 * (emBits ⌈/⌉ 8) - emBits))
          (xorBytes (pssDataBlock (emBits ⌈/⌉ 8) parameters salt.toList) mask) ++
            pssHash hashes parameters digest salt.toList ++ [0xbc] =
        clearTop (topMask (8 * (emBits ⌈/⌉ 8) - emBits))
          (xorBytes (pssDataBlock (emBits ⌈/⌉ 8) parameters salt.toList) mask ++
            (pssHash hashes parameters digest salt.toList ++ [0xbc])) := by
      rw [List.append_assoc, clearTop_append hblock]
    rw [hcleared] at hlength ⊢
    rw [length_clearTop] at hlength
    have hvalue := fromBeBytes_clearTop_lt hunused
      (List.append_ne_nil_of_left_ne_nil hblock
        (pssHash hashes parameters digest salt.toList ++ [0xbc]))
    rw [hlength, Nat.sub_sub_self hle] at hvalue
    exact hvalue.trans_le (key.two_pow_le (by omega))

/-! ### Signatures verify -/

/-- The encoder does not answer with the errors of the raw operation. -/
theorem avoids_pssEncodedDigest {error : RsaConstructionError}
    (herror : error = .inputOutOfRange ∨ error = .operationFailed) (modulusBits : ℕ)
    (parameters : RsaPssParameters) (digest : ByteString) :
    Avoids error (pssEncodedDigest hashes fill modulusBits parameters digest) := by
  have hne : ∀ error', error' ≠ .inputOutOfRange → error' ≠ .operationFailed → error' ≠ error := by
    rintro error' hrange hfailed rfl
    exact herror.elim hrange hfailed
  refine avoids_ite (avoids_throw (hne _ (by decide) (by decide))) ?_
  cases subtract modulusBits 1 with
  | none => exact avoids_throw (hne _ (by decide) (by decide))
  | some emBits =>
    refine (avoids_orPanic _).bind fun withSalt ↦ (avoids_orPanic _).bind fun required ↦ ?_
    refine avoids_ite (avoids_throw (hne _ (by decide) (by decide))) ?_
    cases fill parameters.saltLength with
    | none => exact avoids_throw (hne _ (by decide) (by decide))
    | some salt =>
      refine (avoids_checkedSub _ _ _).bind fun _ ↦ (avoids_checkedSub _ _ _).bind fun _ ↦ ?_
      refine (avoids_checkedSub _ _ _).bind fun _ ↦ ?_
      refine (avoids_ofResult (mgf1_ne (hne _ (by decide) (by decide)) _ _ _)).bind fun _ ↦ ?_
      refine (avoids_orPanic _).bind fun _ ↦ (avoids_checkedSub _ _ _).bind fun _ ↦ ?_
      exact (avoids_orPanic _).bind fun _ ↦ (avoids_orPanic _).bind fun _ ↦ avoids_pure _ _

end

/-- A signature scheme of a key signs whatever it encodes, with what it verifies: its encodings are
below the modulus, signing does not answer with the errors of the raw operation, and signatures
have the size of the modulus and are accepted. -/
structure SignsWhatVerifies (key : RsaPrivateKey)
    (encode sign : Panicking RsaConstructionError ByteString)
    (verify : ByteString → Panicking RsaConstructionError Unit) : Prop where
  encoded_lt : ∀ encoded, answer encode = some (.ok encoded) → fromBeBytes encoded < key.n
  answers : ∀ encoded, answer encode = some (.ok encoded) →
    ∃ signature, answer sign = some (.ok signature)
  avoids_inputOutOfRange : Avoids .inputOutOfRange sign
  avoids_operationFailed : Avoids .operationFailed sign
  length_signature : ∀ signature, answer sign = some (.ok signature) → signature.length = key.size
  verifies : ∀ signature, answer sign = some (.ok signature) → answer (verify signature) =
    some (.ok ())

/-- A scheme signs what it verifies when its encodings fit the modulus, and it verifies what the
public operation recovers of them. -/
theorem signsWhatVerifies_of_encode {rsaDecryptAndCheck : RsaDecryptAndCheck}
    {rsaEncrypt : RsaEncrypt} {key : RsaPrivateKey}
    (hinvert : OperationsInvert rsaDecryptAndCheck rsaEncrypt key)
    {encode : Panicking RsaConstructionError ByteString}
    {verify : ByteString → Panicking RsaConstructionError Unit}
    (hfits : ∀ encoded, answer encode = some (.ok encoded) →
      encoded.length ≤ key.size ∧ fromBeBytes encoded < key.n)
    (havoids : ∀ error, error = .inputOutOfRange ∨ error = .operationFailed →
      Avoids error encode)
    (hverify : ∀ encoded signature, answer encode = some (.ok encoded) →
      publicOperation rsaEncrypt key.toPublicKey signature =
        .ok (List.replicate (key.size - encoded.length) 0 ++ encoded) →
      answer (verify signature) = some (.ok ())) :
    SignsWhatVerifies key encode
      (encode >>= fun encoded ↦ ofResult id (privateOperation rsaDecryptAndCheck key encoded))
      verify := by
  have hsign : ∀ encoded, answer encode = some (.ok encoded) →
      ∃ signature, privateOperation rsaDecryptAndCheck key encoded = .ok signature :=
    fun encoded hencoded ↦
      ⟨_, (privateOperation_eq_ok_iff hinvert).mpr ⟨hfits encoded hencoded, rfl⟩⟩
  have hsigned : ∀ signature, answer (encode >>= fun encoded ↦
      ofResult id (privateOperation rsaDecryptAndCheck key encoded)) = some (.ok signature) →
        ∃ encoded, answer encode = some (.ok encoded) ∧
          privateOperation rsaDecryptAndCheck key encoded = .ok signature := by
    intro signature hanswer
    obtain ⟨encoded, hencoded, hoperation⟩ := answer_bind_eq_ok_iff.mp hanswer
    rw [answer_ofResult, Option.some.injEq, FallibleResult.mapError_eq_ok_iff] at hoperation
    exact ⟨encoded, hencoded, hoperation⟩
  have hoperation : ∀ error, error = .inputOutOfRange ∨ error = .operationFailed →
      Avoids error (encode >>= fun encoded ↦
        ofResult id (privateOperation rsaDecryptAndCheck key encoded)) := by
    intro error herror hanswer
    rw [answer_bind] at hanswer
    split at hanswer
    · rename_i encoded hencoded
      obtain ⟨signature, hsignature⟩ := hsign encoded hencoded
      rw [hsignature] at hanswer
      exact nomatch hanswer
    · rename_i error' hencoded
      rw [Except.error.inj (Option.some.inj hanswer)] at hencoded
      exact havoids error herror hencoded
    · exact nomatch hanswer
  refine
    { encoded_lt := fun encoded hencoded ↦ (hfits encoded hencoded).2
      answers := fun encoded hencoded ↦ ?_
      avoids_inputOutOfRange := hoperation _ (.inl rfl)
      avoids_operationFailed := hoperation _ (.inr rfl)
      length_signature := fun signature hanswer ↦ ?_
      verifies := fun signature hanswer ↦ ?_ }
  · obtain ⟨signature, hsignature⟩ := hsign encoded hencoded
    refine ⟨signature, ?_⟩
    rw [answer_bind_of_ok hencoded, hsignature]
    rfl
  · obtain ⟨encoded, -, hsignature⟩ := hsigned signature hanswer
    exact (publicOperation_of_privateOperation hinvert hsignature).1
  · obtain ⟨encoded, hencoded, hsignature⟩ := hsigned signature hanswer
    exact hverify encoded signature hencoded
      (publicOperation_of_privateOperation hinvert hsignature).2

section

variable {hashes : HashFunctions} {fill : RandomFill} {rsaDecryptAndCheck : RsaDecryptAndCheck}
  {rsaEncrypt : RsaEncrypt} {key : RsaPrivateKey}

/-- The verifier of a payload accepts a signature when the encoding is recovered. -/
theorem answer_rsaVerifyPkcs1v15Payload_of_recovered (hbits : 512 ≤ key.bits)
    {payload encoded signature : ByteString}
    (hencoded : answer (pkcs1v15EncodedPayload key.size payload) = some (.ok encoded))
    (hrecovered : publicOperation rsaEncrypt key.toPublicKey signature =
      .ok (List.replicate (key.size - encoded.length) 0 ++ encoded)) :
    answer (rsaVerifyPkcs1v15Payload rsaEncrypt key.toPublicKey payload signature) =
      some (.ok ()) := by
  rw [(encoded_lt_of_pkcs1v15 hbits hencoded).1, Nat.sub_self, List.replicate_zero,
    List.nil_append] at hrecovered
  unfold rsaVerifyPkcs1v15Payload
  rw [key.size_toPublicKey, answer_bind_of_ok hencoded, hrecovered,
    answer_bind_of_ok (answer_ofResult _ _), answer_throwIf_eq_ok_iff]
  exact not_not.mpr rfl

theorem signsWhatVerifies_pkcs1v15Payload
    (hinvert : OperationsInvert rsaDecryptAndCheck rsaEncrypt key) (hbits : 512 ≤ key.bits)
    (payload : ByteString) :
    SignsWhatVerifies key (pkcs1v15EncodedPayload key.size payload)
      (rsaSignPkcs1v15Payload rsaDecryptAndCheck key payload)
      (rsaVerifyPkcs1v15Payload rsaEncrypt key.toPublicKey payload) := by
  refine signsWhatVerifies_of_encode hinvert (fun encoded hencoded ↦ ?_) (fun error herror ↦ ?_)
    fun encoded signature ↦ answer_rsaVerifyPkcs1v15Payload_of_recovered hbits
  · obtain ⟨hlength, hlt⟩ := encoded_lt_of_pkcs1v15 hbits hencoded
    exact ⟨hlength.le, hlt⟩
  · apply avoids_pkcs1v15EncodedPayload
    rcases herror with rfl | rfl
    · decide
    · decide

theorem signsWhatVerifies_pkcs1v15Digest
    (hinvert : OperationsInvert rsaDecryptAndCheck rsaEncrypt key) (hbits : 512 ≤ key.bits)
    (hash : HashAlgorithm) (digest : ByteString) :
    SignsWhatVerifies key
      (ofResult id (digestInfo hash digest) >>= pkcs1v15EncodedPayload key.size)
      (rsaSignPkcs1v15Digest rsaDecryptAndCheck key hash digest)
      (rsaVerifyPkcs1v15Digest rsaEncrypt key.toPublicKey hash digest) := by
  unfold rsaSignPkcs1v15Digest rsaVerifyPkcs1v15Digest
  cases hinfo : digestInfo hash digest with
  | ok payload => exact signsWhatVerifies_pkcs1v15Payload hinvert hbits payload
  | error error =>
    -- The digest is refused before anything is encoded.
    have hrefused : ∀ error', error' = .inputOutOfRange ∨ error' = .operationFailed →
        error ≠ error' := by
      rintro error' herror rfl
      refine digestInfo_ne ?_ hash digest hinfo
      rcases herror with rfl | rfl
      · decide
      · decide
    exact
      { encoded_lt := fun encoded hencoded ↦ nomatch hencoded
        answers := fun encoded hencoded ↦ nomatch hencoded
        avoids_inputOutOfRange := avoids_throw (hrefused _ (.inl rfl))
        avoids_operationFailed := avoids_throw (hrefused _ (.inr rfl))
        length_signature := fun signature hanswer ↦ nomatch hanswer
        verifies := fun signature hanswer ↦ nomatch hanswer }

/-- The verifier of an encoded message skips the zero bytes that the public operation recovers
before one that is shorter than the modulus. -/
theorem signsWhatVerifies_pss (hinvert : OperationsInvert rsaDecryptAndCheck rsaEncrypt key)
    (parameters : RsaPssParameters) (digest : ByteString) :
    SignsWhatVerifies key (pssEncodedDigest hashes fill key.bits parameters digest)
      (rsaSignPssDigest hashes fill rsaDecryptAndCheck key parameters digest)
      (rsaVerifyPssDigest hashes rsaEncrypt key.toPublicKey parameters digest) := by
  refine signsWhatVerifies_of_encode hinvert (fun encoded ↦ encoded_lt_of_pss)
    (fun error herror ↦ avoids_pssEncodedDigest herror _ _ _) ?_
  intro encoded signature hencoded hrecovered
  obtain ⟨emBits, salt, hfits, -, hmessage⟩ := answer_pssEncodedDigest_eq_ok_iff.mp hencoded
  unfold rsaVerifyPssDigest
  rw [hrecovered, answer_bind_of_ok (answer_ofResult _ _)]
  exact answer_verifyPssEncodedDigest_eq_ok_iff.mpr
    ⟨emBits, _, encoded, salt.toList, hfits, rfl, salt.toList_length, hmessage⟩

/-- The verifier of raw inputs extends them with zero bytes, as the public operation does. -/
theorem rsaVerifyRaw_of_rsaSignRaw (hinvert : OperationsInvert rsaDecryptAndCheck rsaEncrypt key)
    {input signature : ByteString}
    (hsigned : rsaSignRaw rsaDecryptAndCheck key input = .ok signature) :
    rsaVerifyRaw rsaEncrypt key.toPublicKey input signature = .ok () := by
  have hlength := ((privateOperation_eq_ok_iff hinvert).mp hsigned).1.1
  unfold rsaVerifyRaw
  rw [key.size_toPublicKey, if_neg (not_lt.mpr hlength)]
  dsimp only
  rw [(publicOperation_of_privateOperation hinvert hsigned).2, FallibleResult.ok_bind, if_pos rfl]

end

/-- For a key of at least 512 bits whose exponents undo each other, every signature scheme signs
whatever it encodes, with what it verifies.

Assumes that the third-party powers are powers and that the exponents of the key undo each other
(`OperationsInvert`). No law of the hash functions is assumed. -/
theorem signatures_verify (hashes : HashFunctions) (fill : RandomFill)
    (rsaDecryptAndCheck : RsaDecryptAndCheck) (rsaEncrypt : RsaEncrypt) (key : RsaPrivateKey)
    (hbits : 512 ≤ key.bits) (hinvert : OperationsInvert rsaDecryptAndCheck rsaEncrypt key) :
    (∀ payload, SignsWhatVerifies key (pkcs1v15EncodedPayload key.size payload)
      (rsaSignPkcs1v15Payload rsaDecryptAndCheck key payload)
      (rsaVerifyPkcs1v15Payload rsaEncrypt key.toPublicKey payload)) ∧
    (∀ hash digest, SignsWhatVerifies key
      (ofResult id (digestInfo hash digest) >>= pkcs1v15EncodedPayload key.size)
      (rsaSignPkcs1v15Digest rsaDecryptAndCheck key hash digest)
      (rsaVerifyPkcs1v15Digest rsaEncrypt key.toPublicKey hash digest)) ∧
    (∀ parameters digest, SignsWhatVerifies key
      (pssEncodedDigest hashes fill key.bits parameters digest)
      (rsaSignPssDigest hashes fill rsaDecryptAndCheck key parameters digest)
      (rsaVerifyPssDigest hashes rsaEncrypt key.toPublicKey parameters digest)) ∧
    ∀ input signature, input.length ≤ key.size →
      rsaSignRaw rsaDecryptAndCheck key input = .ok signature →
        rsaVerifyRaw rsaEncrypt key.toPublicKey input signature = .ok () :=
  ⟨signsWhatVerifies_pkcs1v15Payload hinvert hbits, signsWhatVerifies_pkcs1v15Digest hinvert hbits,
    signsWhatVerifies_pss hinvert, fun _ _ _ ↦ rsaVerifyRaw_of_rsaSignRaw hinvert⟩

/-- A key of 633 bits with two prime factors of the form `3 * 2 ^ m + 1`. Its PSS encodings have 79
bytes and its signatures 80. -/
def oddSizeKey : RsaPrivateKey where
  n := (3 * 2 ^ 276 + 1) * (3 * 2 ^ 353 + 1)
  e := 5
  d := (12 * 2 ^ 353 + 1) / 5
  primes := [3 * 2 ^ 276 + 1, 3 * 2 ^ 353 + 1]
  prod_primes := by decide +kernel

/-- The factors of the key are prime. -/
theorem prime_of_mem_oddSizeKey_primes : ∀ prime ∈ oddSizeKey.primes, prime.Prime := by
  have hcheck : PrimalityCertificate.checkPratt [2, 3]
      [⟨3 * 2 ^ 276 + 1, 19, 3 :: List.replicate 276 2⟩,
        ⟨3 * 2 ^ 353 + 1, 5, 3 :: List.replicate 353 2⟩] = true := by
    decide +kernel
  refine PrimalityCertificate.prime_of_mem_of_checkPratt hcheck ?_ rfl
  simp only [List.forall_mem_cons]
  norm_num

/-- The exponents of the key undo each other. -/
theorem oddSizeKey_pow_modEq (x : ℕ) :
    x ^ (oddSizeKey.d * oddSizeKey.e) ≡ x [MOD oddSizeKey.n] := by
  have hprimes := prime_of_mem_oddSizeKey_primes
  unfold oddSizeKey at hprimes
  rw [List.forall_mem_cons, List.forall_mem_singleton] at hprimes
  have hone : oddSizeKey.d * oddSizeKey.e ≡ 1
      [MOD Nat.lcm (3 * 2 ^ 276 + 1 - 1) (3 * 2 ^ 353 + 1 - 1)] := by
    unfold Nat.ModEq
    decide +kernel
  exact ExponentInverse.pow_modEq_self_of_lcm hprimes.1 hprimes.2 (by decide +kernel)
    (by decide +kernel) hone x

/-- Its operations by repeated squaring. -/
theorem operationsInvert_oddSizeKey :
    OperationsInvert (fun key x ↦ some (ModularPower.modpow x key.d key.n))
      (fun key x ↦ some (ModularPower.modpow x key.e key.n)) oddSizeKey where
  decrypt x _ := congrArg some (ModularPower.modpow_eq x _ _)
  encrypt x _ := congrArg some (ModularPower.modpow_eq x _ _)
  inverse x hx := by
    rw [← pow_mul]
    exact Eq.trans (oddSizeKey_pow_modEq x) (Nat.mod_eq_of_lt hx)

/-- A PSS signature of the key has one byte more than its encoding, and it verifies. -/
theorem signatures_verify_oddSizeKey :
    ∃ signature,
      answer (rsaSignPssDigest zeroHashes (fun length ↦ some (List.Vector.replicate length 0))
        (fun key x ↦ some (ModularPower.modpow x key.d key.n)) oddSizeKey
        { hash := .sha256, mgfHash := .sha256, saltLength := 4 } (List.replicate 32 7)) =
          some (.ok signature) ∧
      signature.length = 80 ∧
      answer (rsaVerifyPssDigest zeroHashes
        (fun key x ↦ some (ModularPower.modpow x key.e key.n)) oddSizeKey.toPublicKey
        { hash := .sha256, mgfHash := .sha256, saltLength := 4 } (List.replicate 32 7) signature) =
          some (.ok ()) := by
  have hscheme := (signatures_verify zeroHashes (fun length ↦ some (List.Vector.replicate length 0))
    _ _ oddSizeKey (by decide +kernel) operationsInvert_oddSizeKey).2.2.1
      { hash := .sha256, mgfHash := .sha256, saltLength := 4 } (List.replicate 32 7)
  have hencoded : answer (pssEncodedDigest zeroHashes
      (fun length ↦ some (List.Vector.replicate length 0)) oddSizeKey.bits
      { hash := .sha256, mgfHash := .sha256, saltLength := 4 } (List.replicate 32 7)) =
        some (.ok (List.replicate 41 0 ++ [1] ++ List.replicate 36 0 ++ [0xbc])) := by
    decide +kernel
  obtain ⟨signature, hsignature⟩ := hscheme.answers _ hencoded
  have hsize : oddSizeKey.size = 80 := by decide +kernel
  exact ⟨signature, hsignature, (hscheme.length_signature signature hsignature).trans hsize,
    hscheme.verifies signature hsignature⟩

end RsaSigning

end SoftwareKeyCore
