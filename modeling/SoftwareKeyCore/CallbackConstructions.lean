import SoftwareKeyCore.RsaSigning.CallbackConstructions
import SoftwareKeyCore.SoftwareSymmetric.CallbackFailures

/-!
# Every construction over a callback fails closed

The thirteen constructions of `software_symmetric.rs` and `rsa_signing.rs` that drive a block
operation or a raw RSA operation of the caller. `FailClosed` collects what `FailsClosed` says of
each of them, and `constructions_failClosed` proves it: for every callback with a state of its
own, which may answer any byte string or any error at every call, no index is out of range, and a
call with an error or with an output of an undocumented length is the last call and decides the
result.
-/

set_option autoImplicit false
set_option relaxedAutoImplicit false

namespace SoftwareKeyCore.CallbackConstructions

open CallbackSession RsaSigning SoftwareSymmetric

/-- What is documented of the outputs, and the errors that report a call: for each construction,
and for all other arguments. -/
structure FailClosed (σ ε : Type) : Prop where
  cbcWith : ∀ blockSize iv input encrypting,
    FailsClosed (fun query ↦ query.1.length) BlockCipherModeError.blockOperation
      .invalidBlockOutput fun callback : ObservedCallback σ (ByteString × Bool) ε ↦
        SoftwareSymmetric.cbcWith blockSize iv input encrypting fun block encrypting ↦
          callback (block, encrypting)
  ctrWith : ∀ counterBits counterBlock input,
    FailsClosed List.length BlockCipherModeError.blockOperation .invalidBlockOutput
      fun callback : ObservedCallback σ ByteString ε ↦
        SoftwareSymmetric.ctrWith counterBits counterBlock input callback
  cmacWith : ∀ blockSize data,
    FailsClosed List.length BlockCipherModeError.blockOperation .invalidBlockOutput
      fun callback : ObservedCallback σ ByteString ε ↦ Cmac.cmacWith blockSize data callback
  cmacWithCbc : ∀ blockSize data,
    FailsClosed cmacDocumented BlockCipherModeError.blockOperation .invalidBlockOutput
      fun callback : ObservedCallback σ (ByteString ⊕ ByteString) ε ↦
        Cmac.cmacWithCbc blockSize data (fun block ↦ callback (.inl block))
          fun input ↦ callback (.inr input)
  ccmWith : ∀ dataLength nonce aad tagLength input encrypting,
    FailsClosed ccmDocumented Ccm.CcmError.blockOperation .invalidBlockOutput
      fun callback : ObservedCallback σ (Ccm.CcmOperation × ByteString) ε ↦
        Ccm.ccmWith dataLength nonce aad tagLength input encrypting fun operation input ↦
          callback (operation, input)
  gcmWith : ∀ universalHash iv aad tagBits input encrypting,
    FailsClosed List.length Gcm.GcmError.blockOperation .invalidBlockOutput
      fun callback : ObservedCallback σ ByteString ε ↦
        Gcm.gcmWith (Gcm.ghash universalHash) iv aad tagBits input encrypting callback
  keyWrapWith : ∀ input encrypting initialValue,
    FailsClosed keyWrapDocumented KeyWrap.KeyWrapError.blockOperation .invalidBlockOutput
      fun callback : ObservedCallback σ (ByteString × Bool) ε ↦
        KeyWrap.Checked.keyWrapWith input encrypting initialValue fun block encrypting ↦
          callback (block, encrypting)
  keyWrapWithPaddingWith : ∀ input encrypting alternativeInitialValue,
    FailsClosed keyWrapDocumented KeyWrap.KeyWrapError.blockOperation .invalidBlockOutput
      fun callback : ObservedCallback σ (ByteString × Bool) ε ↦
        KeyWrap.Checked.keyWrapWithPaddingWith input encrypting alternativeInitialValue
          fun block encrypting ↦ callback (block, encrypting)
  pkcs1v15SignWith : ∀ modulusSize payload, 64 ≤ modulusSize →
    FailsClosed (fun _ ↦ modulusSize) AsymmetricConstructionError.operation
      .invalidOperationOutput fun callback : ObservedCallback σ ByteString ε ↦
        RsaSigning.pkcs1v15SignWith modulusSize payload callback
  pssSignWith : ∀ hashes fill modulusBits (parameters : RsaPssParameters) digest,
    parameters.saltLength < 2 ^ 32 →
      FailsClosed (fun _ ↦ modulusBits ⌈/⌉ 8) AsymmetricConstructionError.operation
        .invalidOperationOutput fun callback : ObservedCallback σ ByteString ε ↦
          RsaSigning.pssSignWith hashes fill modulusBits parameters digest callback
  oaepEncryptWith : ∀ hashes fill modulusSize plaintext (labelDigest : ByteString) mgfHash,
    2 * labelDigest.length + 2 ≤ modulusSize →
      FailsClosed (fun _ ↦ modulusSize) AsymmetricConstructionError.operation
        .invalidOperationOutput fun callback : ObservedCallback σ ByteString ε ↦
          RsaSigning.oaepEncryptWith hashes fill modulusSize plaintext labelDigest mgfHash callback
  oaepDecryptWith : ∀ hashes modulusSize ciphertext labelDigest mgfHash,
    FailsClosed (fun _ ↦ modulusSize) AsymmetricConstructionError.operation
      .invalidOperationOutput fun callback : ObservedCallback σ ByteString ε ↦
        RsaSigning.oaepDecryptWith hashes modulusSize ciphertext labelDigest mgfHash callback
  pkcs1v15DecryptWith : ∀ modulusSize ciphertext,
    FailsClosed (fun _ ↦ modulusSize) AsymmetricConstructionError.operation
      .invalidOperationOutput fun callback : ObservedCallback σ ByteString ε ↦
        RsaSigning.pkcs1v15DecryptWith modulusSize ciphertext callback

/-- Every construction over a callback fails closed, whatever the callback answers.

The callback keeps a state of any type, and at every call it may answer, answer at a wrong
length, or fail. -/
theorem constructions_failClosed (σ ε : Type) : FailClosed σ ε where
  cbcWith blockSize iv input encrypting := failsClosed_of_stops fun callback ↦
    stops_cbcWith callback blockSize iv input encrypting
  ctrWith counterBits counterBlock input := failsClosed_of_stops fun callback ↦
    stops_ctrWith callback counterBits counterBlock input
  cmacWith blockSize data := failsClosed_of_stops fun callback ↦
    stops_cmacWith callback blockSize data
  cmacWithCbc blockSize data := failsClosed_of_stops fun callback ↦
    stops_cmacWithCbc callback blockSize data
  ccmWith dataLength nonce aad tagLength input encrypting := failsClosed_of_stops fun callback ↦
    stops_ccmWith callback dataLength nonce aad tagLength input encrypting
  gcmWith universalHash iv aad tagBits input encrypting := failsClosed_of_stops fun callback ↦
    stops_gcmWith callback (Gcm.ghash universalHash) iv aad tagBits input encrypting
  keyWrapWith input encrypting initialValue := failsClosed_of_stops fun callback ↦
    stops_keyWrapWith callback input encrypting initialValue
  keyWrapWithPaddingWith input encrypting alternativeInitialValue :=
    failsClosed_of_stops fun callback ↦
      stops_keyWrapWithPaddingWith callback input encrypting alternativeInitialValue
  pkcs1v15SignWith _ payload hmodulus := failsClosed_of_stops fun callback ↦
    stops_pkcs1v15SignWith callback (Nat.zero_lt_of_lt hmodulus) payload
  pssSignWith hashes fill modulusBits _ digest hsalt :=
    failsClosed_of_stops fun callback ↦
      stops_pssSignWith hashes callback fill modulusBits hsalt digest
  oaepEncryptWith hashes fill _ plaintext labelDigest mgfHash hmodulus :=
    failsClosed_of_stops fun callback ↦
      stops_oaepEncryptWith hashes callback fill plaintext labelDigest hmodulus mgfHash
  oaepDecryptWith hashes modulusSize ciphertext labelDigest mgfHash :=
    failsClosed_of_stops fun callback ↦
      stops_oaepDecryptWith hashes callback modulusSize ciphertext labelDigest mgfHash
  pkcs1v15DecryptWith modulusSize ciphertext := failsClosed_of_stops fun callback ↦
    stops_pkcs1v15DecryptWith callback modulusSize ciphertext

/-- A signature with the smallest of the moduli. -/
theorem constructions_failClosed_pkcs1v15 :
    FailsClosed (fun _ ↦ 64) AsymmetricConstructionError.operation .invalidOperationOutput
      fun callback : ObservedCallback ℕ ByteString Unit ↦
        RsaSigning.pkcs1v15SignWith 64 [0x61] callback :=
  (constructions_failClosed ℕ Unit).pkcs1v15SignWith 64 [0x61] le_rfl

end SoftwareKeyCore.CallbackConstructions
