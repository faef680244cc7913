import SoftwareKeyCore.Foundation.ByteString
import SoftwareKeyCore.Foundation.FallibleResult
import SoftwareKeyCore.RsaValidation.Strength

/-!
# The RSA key boundary

`rsa_keys.rs`: the restoration and the import of PKCS #8 keys. A private key is what the third-party
RSA implementation compares keys by, its numbers; values precomputed from them are not part of
it. `RsaLibrary` has the operations with the laws of their documentation: a two-prime key is
encoded, an encoded key decodes to itself, and a key made of two primes and an exponent has
them. The validation of `rsa_private_validation.rs` is a parameter: one outcome
of it for each key.

`finishImport_eq_ok` says that an import keeps the modulus and the exponent of the decoded key.
-/

set_option autoImplicit false
set_option relaxedAutoImplicit false

namespace SoftwareKeyCore.RsaKeys

open ByteString FallibleResult RsaValidation

/-- The numbers of an RSA private key. Every constructor checks that the primes multiply to the
modulus. -/
structure RsaPrivateKey where
  n : ℕ
  e : ℕ
  d : ℕ
  primes : List ℕ
  prod_primes : primes.prod = n
  deriving DecidableEq

namespace RsaPrivateKey

/-- The key of two factors and two exponents. -/
def ofFactors (p q e d : ℕ) : RsaPrivateKey :=
  ⟨p * q, e, d, [p, q], by rw [List.prod_cons, List.prod_singleton]⟩

/-- `key.n().bits()`. -/
def bits (key : RsaPrivateKey) : ℕ :=
  Nat.size key.n

/-- `PublicKeyParts::size`, the modulus size in bytes. -/
def size (key : RsaPrivateKey) : ℕ :=
  (key.bits + 7) / 8

end RsaPrivateKey

/-- The RSA implementation. -/
structure RsaLibrary where
  fromPkcs8Der : ByteString → Option RsaPrivateKey
  toPkcs8Der : RsaPrivateKey → Option ByteString
  fromPq : (p q e : ℕ) → Option RsaPrivateKey
  precompute : RsaPrivateKey → Option Unit
  validateRsaPrivateKey : RsaPrivateKey → (bits : ℕ) → Except RsaPrivateValidationError Unit
  exists_toPkcs8Der : ∀ {key : RsaPrivateKey}, key.primes.length = 2 →
    ∃ encoded, toPkcs8Der key = some encoded
  fromPkcs8Der_toPkcs8Der : ∀ {key encoded}, toPkcs8Der key = some encoded →
    fromPkcs8Der encoded = some key
  fromPq_eq : ∀ {p q e key}, fromPq p q e = some key → key.n = p * q ∧ key.e = e

/-- `RsaKey`. -/
structure RsaKey where
  key : RsaPrivateKey
  validated : Bool
  deriving DecidableEq

variable (estimate : ℕ → ℕ) (rsa : RsaLibrary)

/-- `RsaKey::admit_normalized`. -/
def admitNormalized (key : RsaPrivateKey) : Except RsaPrivateValidationError RsaKey := do
  rsa.validateRsaPrivateKey key key.bits
  return { key := key, validated := true }

/-- `RsaKey::finish_import`. -/
def finishImport (key : RsaPrivateKey) : Except RsaPrivateValidationError RsaKey := do
  let _ ← orError .invalidPrivateKey (validationStrength estimate key.bits)
  match key.primes with
  | [p, q] => do
    let normalized ← orError .invalidPrivateKey (rsa.fromPq p q key.e)
    orError .invalidPrivateKey (rsa.precompute normalized)
    admitNormalized rsa normalized
  | _ => .error .invalidPrivateKey

/-- `RsaKey::restore_pkcs8`. -/
def restorePkcs8 (encoded : ByteString) : Except RsaPrivateValidationError RsaKey := do
  let key ← orError .invalidPrivateKey (rsa.fromPkcs8Der encoded)
  return { key := key, validated := false }

/-- `RsaKey::import_pkcs8`. -/
def importPkcs8 (encoded : ByteString) : Except RsaPrivateValidationError RsaKey := do
  let restored ← restorePkcs8 rsa encoded
  finishImport estimate rsa restored.key

variable {estimate rsa}

theorem restorePkcs8_eq_ok_iff {encoded : ByteString} {key : RsaKey} :
    restorePkcs8 rsa encoded = .ok key ↔
      rsa.fromPkcs8Der encoded = some key.key ∧ key.validated = false := by
  obtain ⟨key, validated⟩ := key
  unfold restorePkcs8
  simp only [bind_eq_ok_iff, orError_eq_ok_iff, pure_eq_ok_iff, RsaKey.mk.injEq]
  constructor
  · rintro ⟨key', hkey, rfl, rfl⟩
    exact ⟨hkey, rfl⟩
  · rintro ⟨hkey, rfl⟩
    exact ⟨key, hkey, rfl, rfl⟩

/-- An import keeps the public key, and it imports two-prime keys only. -/
theorem finishImport_eq_ok {key : RsaPrivateKey} {imported : RsaKey}
    (himported : finishImport estimate rsa key = .ok imported) :
    key.primes.length = 2 ∧ imported.key.n = key.n ∧ imported.key.e = key.e := by
  obtain ⟨-, -, himported⟩ := bind_eq_ok_iff.mp himported
  split at himported
  · rename_i p q hpq
    obtain ⟨normalized, hnormalized, himported⟩ := bind_eq_ok_iff.mp himported
    obtain ⟨⟨⟩, -, himported⟩ := bind_eq_ok_iff.mp himported
    obtain ⟨⟨⟩, -, himported⟩ := bind_eq_ok_iff.mp himported
    obtain rfl := pure_eq_ok_iff.mp himported
    obtain ⟨hn, he⟩ := rsa.fromPq_eq (orError_eq_ok_iff.mp hnormalized)
    have hprimes := key.prod_primes
    rw [hpq, List.prod_cons, List.prod_singleton] at hprimes
    exact ⟨by rw [hpq]; rfl, hn.trans hprimes, he⟩
  · cases himported

/-- What a successful import consists of. -/
theorem importPkcs8_eq_ok_iff {encoded : ByteString} {imported : RsaKey} :
    importPkcs8 estimate rsa encoded = .ok imported ↔
      ∃ key, rsa.fromPkcs8Der encoded = some key ∧
        finishImport estimate rsa key = .ok imported := by
  unfold importPkcs8
  rw [bind_eq_ok_iff]
  constructor
  · rintro ⟨restored, hrestored, himported⟩
    exact ⟨restored.key, (restorePkcs8_eq_ok_iff.mp hrestored).1, himported⟩
  · rintro ⟨key, hkey, himported⟩
    exact ⟨⟨key, false⟩, restorePkcs8_eq_ok_iff.mpr ⟨hkey, rfl⟩, himported⟩

/-- The size in bytes is the size in bits exactly when the latter is a multiple of eight. -/
theorem size_mul_eight_eq_bits_iff (key : RsaPrivateKey) :
    key.size * 8 = key.bits ↔ 8 ∣ key.bits := by
  unfold RsaPrivateKey.size
  omega

end SoftwareKeyCore.RsaKeys
