import SoftwareKeyCore.Foundation.CheckedSlice
import SoftwareKeyCore.RsaKeys
import SoftwareKeyCore.SoftwareSigning.KeyKind

/-!
# Software signing keys and their restoration

`software_signing.rs`: the private signing keys of all kinds, their exports, and their restoration
from an export under a requested kind. The scalar and PKCS #8 codecs of the curves are third-party
code. `PrivateKeyCodec` is one of them, with the law that an export is read back.

The kind of an RSA key is the exact bit length of its modulus. The restorations under a kind
compare the requested bit length with eight times the byte length. The two agree when the bit
length is a multiple of eight.
-/

set_option autoImplicit false
set_option relaxedAutoImplicit false

namespace SoftwareKeyCore.SoftwareSigning

open ByteString CheckedSlice FallibleResult PostQuantum RsaKeys RsaValidation

/-- The private keys of one curve. -/
structure PrivateKeyCodec where
  SecretKey : Type
  fromSlice : ByteString → Option SecretKey
  toBytes : SecretKey → ByteString
  fromPkcs8Der : ByteString → Option SecretKey
  toPkcs8Der : SecretKey → Option ByteString
  publicKey : SecretKey → ByteString
  fromSlice_toBytes : ∀ key, fromSlice (toBytes key) = some key
  exists_toPkcs8Der : ∀ key, ∃ encoded, toPkcs8Der key = some encoded ∧
    fromPkcs8Der encoded = some key

/-- The third-party implementations behind the keys. For Ed25519 `fromSlice` is the conversion to
an array of 32 bytes followed by `from_bytes`. -/
structure KeyLibraries where
  ec : EcCurve → PrivateKeyCodec
  edwards : EdwardsCurve → PrivateKeyCodec
  rsa : RsaLibrary
  mlDsa : (parameterSet : MlDsaParameterSet) → MlDsaLibrary parameterSet
  der : DerLibrary
  estimate : ℕ → ℕ

variable (libraries : KeyLibraries)

/-! ### Keys -/

/-- `SoftwareEcKey`, a key of one of the curves. -/
structure SoftwareEcKey where
  curve : EcCurve
  key : (libraries.ec curve).SecretKey

/-- `SoftwareEdwardsKey`, a key of one of the curves. -/
structure SoftwareEdwardsKey where
  curve : EdwardsCurve
  key : (libraries.edwards curve).SecretKey

/-- `SoftwareSigningKey`. -/
inductive SoftwareSigningKey
  | ec (key : SoftwareEcKey libraries)
  | edwards (key : SoftwareEdwardsKey libraries)
  | rsa (key : RsaKey)
  | mlDsa (key : MlDsaPrivateKey libraries.mlDsa)

/-- `SoftwarePublicKey`. -/
inductive SoftwarePublicKey
  | ec (curve : EcCurve) (uncompressed : ByteString)
  | edwards (curve : EdwardsCurve) (publicKey : ByteString)
  | rsa (modulus exponent : ByteString)
  | mlDsa (parameterSet : MlDsaParameterSet) (publicKey : ByteString)
  deriving DecidableEq, Repr

/-- `rsa_key_error`. -/
def rsaKeyError : RsaPrivateValidationError → SoftwareSigningError
  | .invalidPrivateKey => .invalidPrivateKey
  | .randomnessUnavailable => .randomnessUnavailable

namespace SoftwareEcKey

/-- `SoftwareEcKey::from_serialized`. -/
def fromSerialized (curve : EcCurve) (serialized : ByteString) :
    Except SoftwareSigningError (SoftwareEcKey libraries) := do
  let key ← orError .invalidPrivateKey ((libraries.ec curve).fromSlice serialized)
  return { curve := curve, key := key }

/-- `SoftwareEcKey::from_pkcs8_der`. -/
def fromPkcs8Der (curve : EcCurve) (serialized : ByteString) :
    Except SoftwareSigningError (SoftwareEcKey libraries) := do
  let key ← orError .invalidPrivateKey ((libraries.ec curve).fromPkcs8Der serialized)
  return { curve := curve, key := key }

variable {libraries}

/-- `SoftwareEcKey::to_pkcs8_der`. -/
def toPkcs8Der (key : SoftwareEcKey libraries) : Except SoftwareSigningError ByteString :=
  orError .invalidPrivateKey ((libraries.ec key.curve).toPkcs8Der key.key)

/-- `SoftwareEcKey::serialized`. -/
def serialized (key : SoftwareEcKey libraries) : ByteString :=
  (libraries.ec key.curve).toBytes key.key

/-- `SoftwareEcKey::public_key`. -/
def publicKey (key : SoftwareEcKey libraries) : ByteString :=
  (libraries.ec key.curve).publicKey key.key

end SoftwareEcKey

namespace SoftwareEdwardsKey

/-- `SoftwareEdwardsKey::from_serialized`. -/
def fromSerialized (curve : EdwardsCurve) (serialized : ByteString) :
    Except SoftwareSigningError (SoftwareEdwardsKey libraries) := do
  let key ← orError .invalidPrivateKey ((libraries.edwards curve).fromSlice serialized)
  return { curve := curve, key := key }

/-- `SoftwareEdwardsKey::from_pkcs8_der`. -/
def fromPkcs8Der (curve : EdwardsCurve) (serialized : ByteString) :
    Except SoftwareSigningError (SoftwareEdwardsKey libraries) := do
  let key ← orError .invalidPrivateKey ((libraries.edwards curve).fromPkcs8Der serialized)
  return { curve := curve, key := key }

variable {libraries}

/-- `SoftwareEdwardsKey::to_pkcs8_der`. -/
def toPkcs8Der (key : SoftwareEdwardsKey libraries) : Except SoftwareSigningError ByteString :=
  orError .invalidPrivateKey ((libraries.edwards key.curve).toPkcs8Der key.key)

/-- `SoftwareEdwardsKey::serialized`. -/
def serialized (key : SoftwareEdwardsKey libraries) : ByteString :=
  (libraries.edwards key.curve).toBytes key.key

/-- `SoftwareEdwardsKey::public_key`. -/
def publicKey (key : SoftwareEdwardsKey libraries) : ByteString :=
  (libraries.edwards key.curve).publicKey key.key

end SoftwareEdwardsKey

namespace SoftwareSigningKey

variable {libraries}

/-- `SoftwareSigningKey::key_kind`. -/
def keyKind : SoftwareSigningKey libraries → KeyKind
  | ec key => .ec key.curve
  | edwards key => .edwards key.curve
  | rsa key => .rsa key.key.bits
  | mlDsa key => .mlDsa key.parameterSet

/-- `SoftwareSigningKey::rsa_size`. -/
def rsaSize : SoftwareSigningKey libraries → Except SoftwareSigningError ℕ
  | rsa key => .ok key.key.size
  | _ => .error .algorithmMismatch

/-- `SoftwareSigningKey::to_pkcs8_der`. -/
def toPkcs8Der : SoftwareSigningKey libraries → Except SoftwareSigningError ByteString
  | ec key => key.toPkcs8Der
  | edwards key => key.toPkcs8Der
  | rsa key => orError .invalidPrivateKey (libraries.rsa.toPkcs8Der key.key)
  | mlDsa key => (key.toPkcs8Der libraries.der).mapError fun _ ↦ .invalidPrivateKey

/-- `SoftwareSigningKey::serialized`. -/
def serialized : SoftwareSigningKey libraries → Except SoftwareSigningError ByteString
  | ec key => .ok key.serialized
  | edwards key => .ok key.serialized
  | rsa key => orError .invalidPrivateKey (libraries.rsa.toPkcs8Der key.key)
  | mlDsa key => .ok key.serialized

/-- `SoftwareSigningKey::public_key`. -/
def publicKey : SoftwareSigningKey libraries → SoftwarePublicKey
  | ec key => .ec key.curve key.publicKey
  | edwards key => .edwards key.curve key.publicKey
  | rsa key => .rsa (toBytesBe key.key.n) (toBytesBe key.key.e)
  | mlDsa key => .mlDsa key.parameterSet key.publicKey

variable (libraries)

/-- `SoftwareSigningKey::from_serialized`. -/
def fromSerialized (algorithm : SignatureScheme) (serialized : ByteString) :
    Except SoftwareSigningError (SoftwareSigningKey libraries) :=
  match algorithm.ecCurve with
  | some curve => (SoftwareEcKey.fromSerialized libraries curve serialized).map ec
  | none =>
    match algorithm with
    | .ed25519 => (SoftwareEdwardsKey.fromSerialized libraries .ed25519 serialized).map edwards
    | .ed448 => (SoftwareEdwardsKey.fromSerialized libraries .ed448 serialized).map edwards
    | .rsaPssSha256 | .rsaPssSha384 | .rsaPssSha512 | .rsaPkcs1Sha256 | .rsaPkcs1Sha384
    | .rsaPkcs1Sha512 =>
      ((restorePkcs8 libraries.rsa serialized).mapError rsaKeyError).map rsa
    | .mlDsa parameterSet =>
      ((MlDsaPrivateKey.fromSerialized libraries.mlDsa parameterSet serialized).mapError
        fun _ ↦ .invalidPrivateKey).map mlDsa
    | _ => .error .algorithmMismatch

/-- `SoftwareSigningKey::from_pkcs8_der`. -/
def fromPkcs8Der (algorithm : SignatureScheme) (serialized : ByteString) :
    Except SoftwareSigningError (SoftwareSigningKey libraries) :=
  match algorithm.ecCurve with
  | some curve => (SoftwareEcKey.fromPkcs8Der libraries curve serialized).map ec
  | none =>
    match algorithm with
    | .ed25519 => (SoftwareEdwardsKey.fromPkcs8Der libraries .ed25519 serialized).map edwards
    | .ed448 => (SoftwareEdwardsKey.fromPkcs8Der libraries .ed448 serialized).map edwards
    | .rsaPssSha256 | .rsaPssSha384 | .rsaPssSha512 | .rsaPkcs1Sha256 | .rsaPkcs1Sha384
    | .rsaPkcs1Sha512 =>
      ((importPkcs8 libraries.estimate libraries.rsa serialized).mapError rsaKeyError).map rsa
    | .mlDsa parameterSet =>
      ((MlDsaPrivateKey.fromPkcs8Der libraries.der libraries.mlDsa parameterSet
        serialized).mapError fun _ ↦ .invalidPrivateKey).map mlDsa
    | _ => .error .algorithmMismatch

/-- The body that `from_pkcs8_der_for_kind` and `from_serialized_for_kind` share, over the
restoration under a signature scheme. -/
def restoreForKind
    (restore : SignatureScheme → ByteString →
      Except SoftwareSigningError (SoftwareSigningKey libraries)) (kind : KeyKind)
    (serialized : ByteString) : Except SoftwareSigningError (SoftwareSigningKey libraries) :=
  match kind with
  | .ec curve => restore curve.signatureScheme serialized
  | .edwards curve => restore curve.signatureScheme serialized
  | .rsa modulusBits => do
    let key ← restore .rsaPssSha256 serialized
    let size ← key.rsaSize
    if checkedMul size 8 ≠ some modulusBits then .error .invalidPrivateKey else return key
  | .mlDsa parameterSet => restore (.mlDsa parameterSet) serialized

/-- `SoftwareSigningKey::from_serialized_for_kind`. -/
def fromSerializedForKind : (kind : KeyKind) → (serialized : ByteString) →
    Except SoftwareSigningError (SoftwareSigningKey libraries) :=
  restoreForKind libraries (fromSerialized libraries)

/-- `SoftwareSigningKey::from_pkcs8_der_for_kind`. -/
def fromPkcs8DerForKind : (kind : KeyKind) → (serialized : ByteString) →
    Except SoftwareSigningError (SoftwareSigningKey libraries) :=
  restoreForKind libraries (fromPkcs8Der libraries)

end SoftwareSigningKey

end SoftwareKeyCore.SoftwareSigning
