import Mathlib

/-!
# The equation of ECDSA

Signatures over an additive group: a base `g` that a prime `n` kills, a public point that is the
multiple of the base by a secret, and a map from points to residues modulo `n` (on a curve, the
first coordinate of a finite point). A signature is a pair of residues `r`, `s`.

`Accepts` is the equation that a verifier decides, and `IsMadeWith` is how a signer makes a
signature with a nonce. `accepts_iff_existsUnique_nonce` says that what a verifier accepts is what
the signer makes with some nonce, and with one only; `accepts_neg_iff` that the negative of `s`
does as well, when opposite points have the same residue.
-/

set_option autoImplicit false
set_option relaxedAutoImplicit false

namespace SoftwareKeyCore.EcdsaEquation

variable {A : Type*} [AddCommGroup A] {n : ℕ} [Fact n.Prime] {g : A}

/-! ### Multiples by residues -/

section

variable (hg : n • g = 0)
include hg

theorem val_natCast_nsmul (factor : ℕ) : (factor : ZMod n).val • g = factor • g := by
  rw [ZMod.val_natCast, ← nsmul_eq_mod_nsmul _ hg]

theorem val_add_nsmul (a b : ZMod n) : (a + b).val • g = a.val • g + b.val • g := by
  rw [ZMod.val_add, ← nsmul_eq_mod_nsmul _ hg, add_nsmul]

theorem val_mul_nsmul (a b : ZMod n) : (a * b).val • g = a.val • b.val • g := by
  rw [ZMod.val_mul, ← nsmul_eq_mod_nsmul _ hg, mul_comm, mul_nsmul]

theorem val_neg_nsmul (a : ZMod n) : (-a).val • g = -(a.val • g) := by
  rw [eq_neg_iff_add_eq_zero, ← val_add_nsmul hg, neg_add_cancel, ZMod.val_zero, zero_nsmul]

end

/-! ### Signatures -/

variable (residue : A → Option (ZMod n))

/-- The equation that a verifier decides: a point made of the public point and the signature has the
residue `r`. -/
def Accepts (g key : A) (z r s : ZMod n) : Prop :=
  residue ((z * s⁻¹).val • g + (r * s⁻¹).val • key) = some r

/-- A signer with a secret makes the signature with the nonce. -/
structure IsMadeWith (g : A) (secret nonce z r s : ZMod n) : Prop where
  residue_eq : residue (nonce.val • g) = some r
  mul_nonce : s * nonce = z + r * secret

variable {residue} (hg : n • g = 0) {secret z r s : ZMod n}

/-- Two nonces of one signature are the same. -/
theorem IsMadeWith.nonce_unique (hs : s ≠ 0) {nonce nonce' : ZMod n}
    (hmade : IsMadeWith residue g secret nonce z r s)
    (hmade' : IsMadeWith residue g secret nonce' z r s) : nonce = nonce' :=
  mul_left_cancel₀ hs (hmade.mul_nonce.trans hmade'.mul_nonce.symm)

include hg

/-- The point that the verifier makes is the multiple of the base by the nonce. -/
theorem point_eq_nonce_nsmul (hs : s ≠ 0) {nonce : ZMod n} (hnonce : s * nonce = z + r * secret) :
    (z * s⁻¹).val • g + (r * s⁻¹).val • secret.val • g = nonce.val • g := by
  have hsplit : nonce = z * s⁻¹ + r * s⁻¹ * secret := by
    field_simp
    rw [mul_comm, hnonce, mul_comm]
  rw [hsplit, val_add_nsmul hg, val_mul_nsmul hg (r * s⁻¹) secret]

/-- The verifier accepts what the signer makes with some nonce, and with one only. -/
theorem accepts_iff_existsUnique_nonce (hs : s ≠ 0) :
    Accepts residue g (secret.val • g) z r s ↔
      ∃! nonce, IsMadeWith residue g secret nonce z r s := by
  unfold Accepts
  constructor
  · intro haccepted
    have hnonce : s * (s⁻¹ * (z + r * secret)) = z + r * secret := mul_inv_cancel_left₀ hs _
    have hmade : IsMadeWith residue g secret (s⁻¹ * (z + r * secret)) z r s :=
      ⟨by rwa [← point_eq_nonce_nsmul hg hs hnonce], hnonce⟩
    exact ⟨_, hmade, fun nonce hother ↦ hother.nonce_unique hs hmade⟩
  · rintro ⟨nonce, hmade, -⟩
    rw [point_eq_nonce_nsmul hg hs hmade.mul_nonce]
    exact hmade.residue_eq

/-- With the opposite of `s` a signature is accepted as well. -/
theorem accepts_neg_iff (hresidue : ∀ point, residue (-point) = residue point) {key : A}
    (hkey : n • key = 0) :
    Accepts residue g key z r (-s) ↔ Accepts residue g key z r s := by
  unfold Accepts
  rw [inv_neg, mul_neg, mul_neg, val_neg_nsmul hg, val_neg_nsmul hkey, ← neg_add, hresidue]

end SoftwareKeyCore.EcdsaEquation
