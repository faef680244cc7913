import Mathlib

/-!
# Work bounds of RSA validation

`rsa_private_validation.rs`: the modulus sizes the implementation works on, and
`validation_strength`. The strength is a floating-point estimate; it enters as a parameter, the
estimate in bytes rounded to an integer. Whether a size has a strength does not depend on it
(`isSome_validationStrength`).
-/

set_option autoImplicit false
set_option relaxedAutoImplicit false

namespace SoftwareKeyCore.RsaValidation

/-- `RsaPrivateValidationError`. -/
inductive RsaPrivateValidationError
  | invalidPrivateKey
  | randomnessUnavailable
  deriving DecidableEq, Repr

/-- `MIN_RSA_BITS`. -/
def minRsaBits : ℕ := 512

/-- `MAX_RSA_BITS`. -/
def maxRsaBits : ℕ := 16384

/-- `validation_strength`, for the rounded estimate of a modulus size in bytes. -/
def validationStrength (estimate : ℕ → ℕ) (bits : ℕ) : Option ℕ :=
  if minRsaBits ≤ bits ∧ bits ≤ maxRsaBits then some (max (estimate bits * 8) 112) else none

/-- The sizes with a strength are those within the work bounds. -/
theorem isSome_validationStrength (estimate : ℕ → ℕ) (bits : ℕ) :
    (validationStrength estimate bits).isSome ↔ minRsaBits ≤ bits ∧ bits ≤ maxRsaBits := by
  unfold validationStrength
  split <;> simp_all

end SoftwareKeyCore.RsaValidation
