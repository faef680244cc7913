import SoftwareKeyCore.RsaSigning.Decryption

/-!
# The constructions over the operations of a key

`rsa_signing.rs` has its signatures and its encryption twice, over a key and over a raw operation of
the caller. `constructions_agree` says that the constructions over the raw operations of a key do
what the functions of the key do, error for error, for every behaviour of the third-party powers
(`cause` forgets at which stage of a construction an error arose). They differ in two places only:
the functions of the key restrict the length of the label digest, and their ciphertexts have the
size of the modulus, where the construction takes a shorter one as if zero bytes stood before it.
-/

set_option autoImplicit false
set_option relaxedAutoImplicit false

namespace SoftwareKeyCore.RsaSigning

open ByteString CallbackSession CheckedSlice Panicking RsaKeys

/-- The error that a stage of a construction met, when one did. -/
def cause : AsymmetricConstructionError RsaConstructionError → Option RsaConstructionError
  | .encoding error => some error
  | .operation error => some error
  | .invalidOperationOutput => none

/-- A construction answers, or panics, as a function does. -/
def Agrees (construction : Panicking (AsymmetricConstructionError RsaConstructionError) ByteString)
    (direct : Option (Except RsaConstructionError ByteString)) : Prop :=
  (answer construction).map (Except.mapError cause) = direct.map (Except.mapError some)

/-! ### The raw operations -/

section

variable {rsaDecryptAndCheck : RsaDecryptAndCheck} {rsaEncrypt : RsaEncrypt}

theorem length_of_leftPad {value padded : ByteString} {length : ℕ}
    (hpadded : leftPad value length = .ok padded) : padded.length = length := by
  obtain ⟨hlength, hpadded⟩ := FallibleResult.ite_error_eq_ok_iff.mp hpadded
  rw [← Except.ok.inj hpadded, List.length_append, List.length_replicate]
  omega

/-- The private operation answers as many bytes as the modulus has, whatever the powers are. -/
theorem length_of_privateOperation {key : RsaPrivateKey} {encoded output : ByteString}
    (houtput : privateOperation rsaDecryptAndCheck key encoded = .ok output) :
    output.length = key.size := by
  obtain ⟨-, houtput⟩ := FallibleResult.ite_error_eq_ok_iff.mp houtput
  obtain ⟨-, houtput⟩ := FallibleResult.ite_error_eq_ok_iff.mp houtput
  obtain ⟨value, -, hpadded⟩ := FallibleResult.bind_eq_ok_iff.mp houtput
  exact length_of_leftPad hpadded

/-- The public operation answers as many bytes as the modulus has, whatever the powers are. -/
theorem length_of_publicOperation {key : RsaPublicKey} {encoded output : ByteString}
    (houtput : publicOperation rsaEncrypt key encoded = .ok output) :
    output.length = key.size := by
  obtain ⟨-, houtput⟩ := FallibleResult.ite_error_eq_ok_iff.mp houtput
  obtain ⟨-, houtput⟩ := FallibleResult.ite_error_eq_ok_iff.mp houtput
  obtain ⟨value, -, hpadded⟩ := FallibleResult.bind_eq_ok_iff.mp houtput
  exact length_of_leftPad hpadded

/-- The private operation reads a number, so that zero bytes before a shorter input do not
matter. -/
theorem privateOperation_zero_extended (key : RsaPrivateKey) (input : ByteString) :
    privateOperation rsaDecryptAndCheck key
        (List.replicate (key.size - input.length) 0 ++ input) =
      privateOperation rsaDecryptAndCheck key input := by
  unfold privateOperation
  dsimp only
  rw [fromBeBytes_replicate_zero_append, List.length_append, List.length_replicate]
  refine if_congr ?_ rfl rfl
  omega

end

/-! ### Encoding before the operation -/

/-- An encoding and an operation whose outputs have a length, in both forms. -/
theorem agrees_of_encode {encode : Panicking RsaConstructionError ByteString}
    {operation : ByteString → Except RsaConstructionError ByteString} {length : ℕ}
    (hlength : ∀ encoded output, operation encoded = .ok output → output.length = length) :
    Agrees (liftPanicking .encoding encode >>= fun encoded ↦
        checkedCall .operation .invalidOperationOutput length (answering operation encoded))
      (answer (encode >>= fun encoded ↦ ofResult id (operation encoded))) := by
  unfold Agrees
  rw [answer_bind, answer_bind, answer_liftPanicking]
  cases answer encode with
  | none => rfl
  | some result =>
    cases result with
    | error error => rfl
    | ok encoded =>
      change Option.map _ (answer (checkedCall _ _ _ _)) = Option.map _ (answer (ofResult _ _))
      rw [answer_checkedCall_of_length _ _ (hlength encoded), answer_ofResult]
      cases operation encoded with
      | error error => rfl
      | ok output => rfl

section

variable (hashes : HashFunctions) (fill : RandomFill) (rsaDecryptAndCheck : RsaDecryptAndCheck)
  (rsaEncrypt : RsaEncrypt) (key : RsaPrivateKey) (publicKey : RsaPublicKey)

theorem agrees_pkcs1v15SignWith (payload : ByteString) :
    Agrees (pkcs1v15SignWith key.size payload (answering (privateOperation rsaDecryptAndCheck key)))
      (answer (rsaSignPkcs1v15Payload rsaDecryptAndCheck key payload)) :=
  agrees_of_encode fun _ _ ↦ length_of_privateOperation

theorem agrees_pssSignWith (parameters : RsaPssParameters) (digest : ByteString) :
    Agrees (pssSignWith hashes fill key.bits parameters digest
        (answering (privateOperation rsaDecryptAndCheck key)))
      (answer (rsaSignPssDigest hashes fill rsaDecryptAndCheck key parameters digest)) := by
  have hsize : key.bits ⌈/⌉ 8 = key.size := by
    rw [Nat.ceilDiv_eq_add_pred_div, RsaPrivateKey.size]
    rfl
  unfold pssSignWith
  rw [hsize]
  exact agrees_of_encode fun _ _ ↦ length_of_privateOperation

/-- Encryption over the operation takes every label digest. -/
theorem agrees_oaepEncryptWith {labelDigest : ByteString}
    (hlabel : labelDigest.length ∈ [20, 28, 32, 48, 64]) (plaintext : ByteString)
    (mgfHash : HashAlgorithm) :
    Agrees (oaepEncryptWith hashes fill publicKey.size plaintext labelDigest mgfHash
        (answering (publicOperation rsaEncrypt publicKey)))
      (answer (rsaEncryptOaepDigest hashes fill rsaEncrypt publicKey plaintext labelDigest
        mgfHash)) := by
  unfold rsaEncryptOaepDigest
  rw [if_neg (not_not.mpr hlabel)]
  exact agrees_of_encode fun _ _ ↦ length_of_publicOperation

/-! ### Decoding after the operation -/

/-- Decryption over the operation takes every label digest, and a ciphertext that is shorter than
the modulus as if zero bytes stood before it. -/
theorem agrees_oaepDecryptWith {labelDigest : ByteString}
    (hlabel : labelDigest.length ∈ [20, 28, 32, 48, 64]) (ciphertext : ByteString)
    (mgfHash : HashAlgorithm) :
    Agrees (oaepDecryptWith hashes key.size ciphertext labelDigest mgfHash
        (answering (privateOperation rsaDecryptAndCheck key)))
      (some (rsaDecryptOaepDigest hashes rsaDecryptAndCheck key
        (List.replicate (key.size - ciphertext.length) 0 ++ ciphertext) labelDigest mgfHash)) := by
  unfold Agrees oaepDecryptWith
  rw [answer_bind, answer_checkedCall_of_length _ _ fun _ ↦ length_of_privateOperation]
  by_cases hlong : key.size < ciphertext.length
  · -- A ciphertext that is longer than the modulus is refused with the same error on both sides.
    have hrefused : rsaDecryptOaepDigest hashes rsaDecryptAndCheck key
        (List.replicate (key.size - ciphertext.length) 0 ++ ciphertext) labelDigest mgfHash =
          .error .inputTooLong := by
      unfold rsaDecryptOaepDigest
      refine if_pos (Or.inl ?_)
      rw [List.length_append, List.length_replicate]
      omega
    have hoperation : privateOperation rsaDecryptAndCheck key ciphertext = .error .inputTooLong := by
      unfold privateOperation
      exact if_pos hlong
    rw [hrefused, hoperation]
    rfl
  · have hadmitted : ¬ ((List.replicate (key.size - ciphertext.length) 0 ++ ciphertext).length ≠
        key.size ∨ labelDigest.length ∉ [20, 28, 32, 48, 64]) := by
      rw [not_or, not_not, not_not, List.length_append, List.length_replicate]
      exact ⟨by omega, hlabel⟩
    unfold rsaDecryptOaepDigest
    rw [if_neg hadmitted, privateOperation_zero_extended]
    cases privateOperation rsaDecryptAndCheck key ciphertext with
    | error error => rfl
    | ok encoded =>
      rw [FallibleResult.ok_bind]
      dsimp only [Except.mapError]
      rw [answer_liftPanicking, answer_checked_rsaOaepUnpadDigest]
      cases rsaOaepUnpadDigest hashes encoded labelDigest mgfHash with
      | error error => rfl
      | ok plaintext => rfl

end

/-- For every key and every behaviour of the third-party powers, the constructions over the raw
operations of the key answer, or panic, as the functions of the key do: signatures always, and OAEP
for the label digests that the functions take, with zero bytes before a shorter ciphertext.

Assumes no law of the powers, so that the key need be neither valid nor of prime factors, and of the
hash functions only the lengths of their digests. Both sides are given the same random bytes. -/
theorem constructions_agree (hashes : HashFunctions) (fill : RandomFill)
    (rsaDecryptAndCheck : RsaDecryptAndCheck) (rsaEncrypt : RsaEncrypt) (key : RsaPrivateKey)
    (publicKey : RsaPublicKey) :
    (∀ payload, Agrees
      (pkcs1v15SignWith key.size payload (answering (privateOperation rsaDecryptAndCheck key)))
      (answer (rsaSignPkcs1v15Payload rsaDecryptAndCheck key payload))) ∧
    (∀ parameters digest, Agrees
      (pssSignWith hashes fill key.bits parameters digest
        (answering (privateOperation rsaDecryptAndCheck key)))
      (answer (rsaSignPssDigest hashes fill rsaDecryptAndCheck key parameters digest))) ∧
    ∀ (labelDigest : ByteString) (mgfHash : HashAlgorithm),
      labelDigest.length ∈ [20, 28, 32, 48, 64] →
      (∀ plaintext, Agrees
        (oaepEncryptWith hashes fill publicKey.size plaintext labelDigest mgfHash
          (answering (publicOperation rsaEncrypt publicKey)))
        (answer (rsaEncryptOaepDigest hashes fill rsaEncrypt publicKey plaintext labelDigest
          mgfHash))) ∧
      ∀ ciphertext, Agrees
        (oaepDecryptWith hashes key.size ciphertext labelDigest mgfHash
          (answering (privateOperation rsaDecryptAndCheck key)))
        (some (rsaDecryptOaepDigest hashes rsaDecryptAndCheck key
          (List.replicate (key.size - ciphertext.length) 0 ++ ciphertext) labelDigest mgfHash)) :=
  ⟨agrees_pkcs1v15SignWith rsaDecryptAndCheck key,
    agrees_pssSignWith hashes fill rsaDecryptAndCheck key,
    fun _ mgfHash hlabel ↦
      ⟨fun plaintext ↦ agrees_oaepEncryptWith hashes fill rsaEncrypt publicKey hlabel plaintext
        mgfHash,
      fun ciphertext ↦ agrees_oaepDecryptWith hashes rsaDecryptAndCheck key hlabel ciphertext
        mgfHash⟩⟩

/-- A ciphertext of six bytes under the key of 633 bits: over the operation it answers what the
function of the key does for the ciphertext with the zero bytes, the plaintext. -/
theorem constructions_agree_oddSizeKey :
    (answer (oaepDecryptWith zeroHashes oddSizeKey.size (toBeBytes 6 (263 ^ 5))
        (List.replicate 20 0) .sha1 (answering (privateOperation
          (fun key x ↦ some (ModularPower.modpow x key.d key.n)) oddSizeKey)))).map
      (Except.mapError cause) = some (.ok [7]) :=
  (((constructions_agree zeroHashes (fun length ↦ some (List.Vector.replicate length 0))
    (fun key x ↦ some (ModularPower.modpow x key.d key.n))
    (fun key x ↦ some (ModularPower.modpow x key.e key.n)) oddSizeKey
    oddSizeKey.toPublicKey).2.2 (List.replicate 20 0) .sha1 (by decide)).2
      (toBeBytes 6 (263 ^ 5))).trans (by decide +kernel)

end SoftwareKeyCore.RsaSigning
