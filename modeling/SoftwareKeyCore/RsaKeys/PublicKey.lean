import SoftwareKeyCore.RsaValidation.PublicKey

/-!
# Public RSA keys

`rsa_keys.rs`: the import of a public key. The constructors of the third-party crate's public key
differ in the modulus size they allow and make otherwise the same checks, which are a parameter
(`PublicKeyChecks`).

`importPublic_eq_ok` says what an imported key has passed.
-/

set_option autoImplicit false
set_option relaxedAutoImplicit false

namespace SoftwareKeyCore.RsaKeys

open ByteString RsaValidation

/-- `rsa::RsaPublicKey`. -/
structure RsaPublicKey where
  n : ℕ
  e : ℕ
  deriving DecidableEq, Repr

namespace RsaPublicKey

/-- `key.n().bits()`. -/
def bits (key : RsaPublicKey) : ℕ :=
  Nat.size key.n

/-- `PublicKeyParts::size`, the modulus size in bytes. -/
def size (key : RsaPublicKey) : ℕ :=
  Digest.divCeil key.bits 8

/-- The checks of a modulus and an exponent that all constructors make, beside that of the size. -/
abbrev PublicKeyChecks := (n e : ℕ) → Bool

/-- `RsaPublicKey::new_with_max_size`. -/
def newWithMaxSize (checks : PublicKeyChecks) (n e maxSize : ℕ) : Option RsaPublicKey :=
  if Nat.size n ≤ maxSize ∧ checks n e = true then some ⟨n, e⟩ else none

/-- `RsaPublicKey::MAX_SIZE`. -/
def maxSize : ℕ := 4096

/-- `RsaPublicKey::new`. -/
def new (checks : PublicKeyChecks) (n e : ℕ) : Option RsaPublicKey :=
  newWithMaxSize checks n e maxSize

theorem newWithMaxSize_eq_some_iff {checks : PublicKeyChecks} {n e size : ℕ}
    {key : RsaPublicKey} :
    newWithMaxSize checks n e size = some key ↔
      (Nat.size n ≤ size ∧ checks n e = true) ∧ key = ⟨n, e⟩ := by
  unfold newWithMaxSize
  by_cases haccepted : Nat.size n ≤ size ∧ checks n e = true
  · rw [if_pos haccepted, Option.some.injEq, eq_comm, and_iff_right haccepted]
  · rw [if_neg haccepted]
    exact iff_of_false (Option.some_ne_none key).symm fun hkey ↦ haccepted hkey.1

end RsaPublicKey

open RsaPublicKey

/-- `import_public`, with the state of the operating system's random source. -/
def importPublic {σ : Type} (estimate : ℕ → ℕ) (checks : PublicKeyChecks) (osRng : RandomSource σ)
    (n e : ℕ) (state : σ) : Except RsaPublicValidationError RsaPublicKey × σ :=
  match newWithMaxSize checks n e maxRsaBits with
  | none => (.error .invalidPublicKey, state)
  | some key =>
    match validateWithRng estimate osRng (toBytesBe key.n) (toBytesBe key.e) key.bits state with
    | (.error error, state) => (.error error, state)
    | (.ok (), state) => (.ok key, state)

/-- An imported key has the numbers it was imported from; they passed the checks of the
constructor and the validation. -/
theorem importPublic_eq_ok {σ : Type} {estimate : ℕ → ℕ} {checks : PublicKeyChecks}
    {osRng : RandomSource σ} {n e : ℕ} {state state' : σ} {key : RsaPublicKey}
    (himported : importPublic estimate checks osRng n e state = (.ok key, state')) :
    (Nat.size n ≤ maxRsaBits ∧ checks n e = true) ∧ key = ⟨n, e⟩ ∧
      validateWithRng estimate osRng (toBytesBe n) (toBytesBe e) (Nat.size n) state =
        (.ok (), state') := by
  unfold importPublic at himported
  split at himported
  · simp at himported
  · rename_i accepted haccepted
    obtain ⟨hchecked, rfl⟩ := newWithMaxSize_eq_some_iff.mp haccepted
    split at himported
    · simp at himported
    · rename_i final hvalidated
      simp only [Prod.mk.injEq, Except.ok.injEq] at himported
      obtain ⟨rfl, rfl⟩ := himported
      exact ⟨hchecked, rfl, hvalidated⟩

/-- Numbers that pass the checks and the validation are imported. -/
theorem importPublic_of_validated {σ : Type} {estimate : ℕ → ℕ} {checks : PublicKeyChecks}
    {osRng : RandomSource σ} {n e : ℕ} {state state' : σ} (hsize : Nat.size n ≤ maxRsaBits)
    (hchecks : checks n e = true)
    (hvalidated : validateWithRng estimate osRng (toBytesBe n) (toBytesBe e) (Nat.size n) state =
      (.ok (), state')) :
    importPublic estimate checks osRng n e state = (.ok ⟨n, e⟩, state') := by
  have hbuilt : newWithMaxSize checks n e maxRsaBits = some ⟨n, e⟩ :=
    newWithMaxSize_eq_some_iff.mpr ⟨⟨hsize, hchecks⟩, rfl⟩
  unfold importPublic
  rw [hbuilt]
  dsimp only
  rw [show RsaPublicKey.bits ⟨n, e⟩ = Nat.size n from rfl, hvalidated]

end SoftwareKeyCore.RsaKeys
