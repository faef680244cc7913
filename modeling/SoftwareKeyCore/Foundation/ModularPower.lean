import Mathlib

/-!
# Modular powers

The residue of a power by repeated squaring (`modpow`), which is how a big-integer library
computes it. `modpow_eq` says that it is the residue of the power.
-/

set_option autoImplicit false
set_option relaxedAutoImplicit false

namespace SoftwareKeyCore.ModularPower

/-- Square and multiply over the bits of an exponent of at most `steps` bits, least significant
first. -/
def modpowLoop (modulus : ℕ) : (steps base exponent result : ℕ) → ℕ
  | 0, _, _, result => result
  | steps + 1, base, exponent, result =>
    modpowLoop modulus steps (base * base % modulus) (exponent / 2)
      (if exponent % 2 = 1 then result * base % modulus else result)

/-- The residue of a power. -/
def modpow (base exponent modulus : ℕ) : ℕ :=
  modpowLoop modulus (Nat.log2 exponent + 1) base exponent (1 % modulus)

/-- The loop multiplies the result by the power. -/
theorem modpowLoop_eq {modulus steps exponent result : ℕ} (base : ℕ)
    (hexponent : exponent < 2 ^ steps) (hresult : result % modulus = result) :
    modpowLoop modulus steps base exponent result = result * base ^ exponent % modulus := by
  induction steps generalizing base exponent result with
  | zero =>
    obtain rfl : exponent = 0 := by simpa using hexponent
    rw [modpowLoop, pow_zero, mul_one, hresult]
  | succ steps ih =>
    have hhalf : exponent / 2 < 2 ^ steps := by
      rw [pow_succ] at hexponent
      omega
    have hpower : (base * base % modulus) ^ (exponent / 2) % modulus =
        base ^ (2 * (exponent / 2)) % modulus := by
      rw [← Nat.pow_mod, ← sq, ← pow_mul]
    rw [modpowLoop]
    split_ifs with hbit
    · have hsplit : exponent = 2 * (exponent / 2) + 1 := by omega
      rw [ih _ hhalf (Nat.mod_mod _ _), Nat.mul_mod, hpower, Nat.mod_mod, ← Nat.mul_mod]
      conv_rhs => rw [hsplit, pow_succ]
      congr 1
      ring
    · have hsplit : exponent = 2 * (exponent / 2) := by omega
      rw [ih _ hhalf hresult, Nat.mul_mod, hpower, ← Nat.mul_mod, ← hsplit]

/-- Repeated squaring computes the residue of the power. -/
theorem modpow_eq (base exponent modulus : ℕ) :
    modpow base exponent modulus = base ^ exponent % modulus := by
  rw [modpow, modpowLoop_eq base Nat.lt_log2_self (Nat.mod_mod _ _), Nat.mod_mul_mod,
    one_mul]

end SoftwareKeyCore.ModularPower
