import SoftwareKeyCore.RsaKeys.Admission
import SoftwareKeyCore.RsaSigning.CallbackAgreement

/-!
# The operations of admitted keys

What `rsa_signing.rs` relies on of a key, that its exponents undo each other, is what the validation
of `rsa_private_validation.rs` establishes for prime factors. `operationsInvert_of_reachable` joins
the two: the operations of every key that is flagged as validated, on every run of the constructors
of `rsa_keys.rs`, invert each other, so that `signatures_exact` and the theorems about decryption are
about it.
-/

set_option autoImplicit false
set_option relaxedAutoImplicit false

namespace SoftwareKeyCore.RsaSigning

open RsaKeys RsaPrivateValidation

/-- The third-party powers: the private one, which is computed modulo the factors and therefore asks
for prime ones, is checked with the public exponent, and the public one is for odd moduli. -/
structure ComputesPowers (rsaDecryptAndCheck : RsaDecryptAndCheck) (rsaEncrypt : RsaEncrypt) :
    Prop where
  decrypt : ∀ key : RsaPrivateKey, (∀ prime ∈ key.primes, prime.Prime) → ∀ x < key.n,
    (x ^ key.d % key.n) ^ key.e % key.n = x → rsaDecryptAndCheck key x = some (x ^ key.d % key.n)
  encrypt : ∀ key : RsaPublicKey, Odd key.n → ∀ x < key.n,
    rsaEncrypt key x = some (x ^ key.e % key.n)

section

variable {σ : Type} {estimate : ℕ → ℕ} {crate : RsaCrate}
  {rsaDecryptAndCheck : RsaDecryptAndCheck} {rsaEncrypt : RsaEncrypt}

/-- A key that passes the validation is admissible. -/
theorem isAdmissible_of_validate {call : ValidationCall σ} {key : RsaPrivateKey} {bits : ℕ}
    (hvalidate : call.validate estimate key bits = .ok ()) : IsAdmissible key.parts bits := by
  obtain ⟨result, hresult, -⟩ := FallibleResult.map_eq_ok_iff.mp hvalidate
  have hanswer : Panicking.answer (validateRsaPrivateKey estimate call.rsaDecryptAndCheck call.osRng
      key.parts bits call.state) = some (.ok result) := by
    rw [← hresult, Option.some_get]
  exact (safe_validateWithRng call.state).of_answer_eq_ok hanswer

/-- An admissible key has an odd modulus. -/
theorem odd_of_isAdmissible {key : PrivateKeyParts} {bits : ℕ}
    (hadmissible : IsAdmissible key bits) : Odd key.n := by
  obtain ⟨p, q, -, -, hpair, -⟩ := hadmissible
  rw [← hpair.mul_eq]
  exact (Nat.odd_iff.mpr hpair.odd_left).mul (Nat.odd_iff.mpr hpair.odd_right)

/-- The operations of a key with prime factors that passes the validation invert each other. -/
theorem operationsInvert_of_validate (hpowers : ComputesPowers rsaDecryptAndCheck rsaEncrypt)
    {call : ValidationCall σ} {key : RsaPrivateKey} {bits : ℕ}
    (hvalidate : call.validate estimate key bits = .ok ())
    (hprimes : ∀ prime ∈ key.primes, prime.Prime) :
    OperationsInvert rsaDecryptAndCheck rsaEncrypt key := by
  have hadmissible := isAdmissible_of_validate hvalidate
  have hinverse : ∀ x < key.n, (x ^ key.d) ^ key.e % key.n = x :=
    fun x hx ↦ (hadmissible.pow_pow_mod hprimes hx).2
  exact
    { decrypt := fun x hx ↦
        hpowers.decrypt key hprimes x hx (by rw [← Nat.pow_mod]; exact hinverse x hx)
      encrypt := fun x hx ↦ hpowers.encrypt key.toPublicKey (odd_of_isAdmissible hadmissible) x hx
      inverse := hinverse }

/-- On every run of the constructors the operations of the keys that are flagged as validated, with
prime factors, invert each other. -/
theorem operationsInvert_of_reachable (hpowers : ComputesPowers rsaDecryptAndCheck rsaEncrypt)
    {keys : List RsaKey} (hreachable : (admission estimate crate σ).Reachable keys) {key : RsaKey}
    (hkey : key ∈ keys) (hvalidated : key.validated = true)
    (hprimes : ∀ prime ∈ key.key.primes, prime.Prime) :
    OperationsInvert rsaDecryptAndCheck rsaEncrypt key.key := by
  obtain ⟨call, hvalidate⟩ := forall_mem_of_reachableBy (FlagIsEarned estimate σ)
    (fun _ _ _ _ ↦ flagIsEarned_of_perform) hreachable key hkey hvalidated
  exact operationsInvert_of_validate hpowers hvalidate hprimes

end

end SoftwareKeyCore.RsaSigning
