import SoftwareKeyCore.PostQuantum.MlDsaPrivateKey

/-!
# Key kinds and signature schemes

`software_signing.rs`: the curves, the signature schemes, and the identity of a private key. A
curve has one scheme, and the scheme gives the curve back (`ecCurve_signatureScheme`).
-/

set_option autoImplicit false
set_option relaxedAutoImplicit false

namespace SoftwareKeyCore.SoftwareSigning

open PostQuantum

/-- `EcCurve`. -/
inductive EcCurve
  | p224
  | p256
  | p384
  | p521
  | secp256k1
  | brainpoolP256
  | brainpoolP384
  | brainpoolP512
  deriving DecidableEq, Repr

/-- `EdwardsCurve`. -/
inductive EdwardsCurve
  | ed25519
  | ed448
  deriving DecidableEq, Repr

/-- `SignatureScheme`. -/
inductive SignatureScheme
  | ecdsaP224Sha224
  | ecdsaP256Sha256
  | ed25519
  | ed448
  | ecdsaP384Sha384
  | ecdsaP521Sha512
  | ecdsaSecp256k1Sha256
  | ecdsaBrainpoolP256Sha256
  | ecdsaBrainpoolP384Sha384
  | ecdsaBrainpoolP512Sha512
  | rsaPssSha256
  | rsaPssSha384
  | rsaPssSha512
  | rsaPkcs1Sha256
  | rsaPkcs1Sha384
  | rsaPkcs1Sha512
  | mlDsa (parameterSet : MlDsaParameterSet)
  deriving DecidableEq, Repr

/-- `SoftwareSigningError`. -/
inductive SoftwareSigningError
  | algorithmMismatch
  | invalidPublicKey
  | invalidPrivateKey
  | invalidSignature
  | randomnessUnavailable
  | signingFailed
  deriving DecidableEq, Repr

/-- `KeyKind`. -/
inductive KeyKind
  | ec (curve : EcCurve)
  | edwards (curve : EdwardsCurve)
  | rsa (modulusBits : ℕ)
  | mlDsa (parameterSet : MlDsaParameterSet)
  deriving DecidableEq, Repr

/-- `SignatureScheme::ec_curve`. -/
def SignatureScheme.ecCurve : SignatureScheme → Option EcCurve
  | ecdsaP224Sha224 => some .p224
  | ecdsaP256Sha256 => some .p256
  | ecdsaP384Sha384 => some .p384
  | ecdsaP521Sha512 => some .p521
  | ecdsaSecp256k1Sha256 => some .secp256k1
  | ecdsaBrainpoolP256Sha256 => some .brainpoolP256
  | ecdsaBrainpoolP384Sha384 => some .brainpoolP384
  | ecdsaBrainpoolP512Sha512 => some .brainpoolP512
  | _ => none

/-- `EcCurve::signature_scheme`. -/
def EcCurve.signatureScheme : EcCurve → SignatureScheme
  | p224 => .ecdsaP224Sha224
  | p256 => .ecdsaP256Sha256
  | p384 => .ecdsaP384Sha384
  | p521 => .ecdsaP521Sha512
  | secp256k1 => .ecdsaSecp256k1Sha256
  | brainpoolP256 => .ecdsaBrainpoolP256Sha256
  | brainpoolP384 => .ecdsaBrainpoolP384Sha384
  | brainpoolP512 => .ecdsaBrainpoolP512Sha512

/-- `EdwardsCurve::signature_scheme`. -/
def EdwardsCurve.signatureScheme : EdwardsCurve → SignatureScheme
  | ed25519 => .ed25519
  | ed448 => .ed448

/-- The scheme of a curve is a scheme on the curve. -/
@[simp] theorem ecCurve_signatureScheme (curve : EcCurve) :
    curve.signatureScheme.ecCurve = some curve := by
  cases curve <;> rfl

end SoftwareKeyCore.SoftwareSigning
