import SoftwareKeyCore.Foundation.ByteString

/-!
# Folds over the bits of two numbers

A loop that reads two byte strings in step, most significant bit first. A relation between the
loop's state and two numbers that one pass over a pair of bits carries from `(m, n)` to
`(2 * m + bit, 2 * n + bit')` holds in the end of the numbers that the byte strings encode
(`foldBytes_rel`). Simultaneous double-and-add is the case in mind. `foldBytes_rel_foldBytes` runs
two such loops side by side.
-/

set_option autoImplicit false
set_option relaxedAutoImplicit false

namespace SoftwareKeyCore.BitFolds

open ByteString

variable {α : Type} (step : α → Bool → Bool → α)

/-- A pass over the lowest bits of two numbers, from the highest of them down. -/
def foldBits (count left right : ℕ) (state : α) : α :=
  (List.range count).reverse.foldl
    (fun state bit ↦ step state (left.testBit bit) (right.testBit bit)) state

/-- A pass over two byte strings of a length, given by their bytes. -/
def foldBytes (length : ℕ) (left right : ℕ → UInt8) (state : α) : α :=
  (List.range length).foldl
    (fun state index ↦ foldBits step 8 (left index).toNat (right index).toNat state) state

/-- Two loops whose passes keep a relation between their states end in related states. -/
theorem foldBytes_rel_foldBytes {β : Type} {step' : β → Bool → Bool → β} {R : α → β → Prop}
    (hstep : ∀ state state' bit bit', R state state' →
      R (step state bit bit') (step' state' bit bit'))
    (length : ℕ) (left right : ℕ → UInt8) {state : α} {state' : β} (hstate : R state state') :
    R (foldBytes step length left right state) (foldBytes step' length left right state') := by
  refine List.foldl_rel hstate fun index _ state state' hrel ↦ ?_
  exact List.foldl_rel hrel fun bit _ state state' hrel ↦ hstep state state' _ _ hrel

variable {step} {R : α → ℕ → ℕ → Prop}
  (hstep : ∀ state m n bit bit', R state m n →
    R (step state bit bit') (2 * m + bit.toNat) (2 * n + bit'.toNat))
include hstep

/-- The lowest bits are appended. -/
theorem foldBits_rel {state : α} {m n : ℕ} (count left right : ℕ) (hstate : R state m n) :
    R (foldBits step count left right state) (2 ^ count * m + left % 2 ^ count)
      (2 ^ count * n + right % 2 ^ count) := by
  induction count generalizing state m n with
  | zero => simpa [foldBits, Nat.mod_one] using hstate
  | succ count ih =>
    have hfold : foldBits step (count + 1) left right state =
        foldBits step count left right
          (step state (left.testBit count) (right.testBit count)) := by
      rw [foldBits, List.range_succ, List.reverse_append, List.reverse_singleton,
        List.singleton_append, List.foldl_cons, foldBits]
    have hvalue : ∀ value number : ℕ, 2 ^ (count + 1) * value + number % 2 ^ (count + 1) =
        2 ^ count * (2 * value + (number.testBit count).toNat) + number % 2 ^ count := by
      intro value number
      rw [Nat.mod_pow_succ, Nat.toNat_testBit, pow_succ]
      ring
    rw [hfold, hvalue, hvalue]
    exact ih (hstep _ _ _ _ _ hstate)

/-- A byte is appended. -/
theorem foldBits_byte_rel {state : α} {m n : ℕ} (left right : UInt8) (hstate : R state m n) :
    R (foldBits step 8 left.toNat right.toNat state) (m * 256 + left.toNat)
      (n * 256 + right.toNat) := by
  have hrel := foldBits_rel hstep 8 left.toNat right.toNat hstate
  rw [Nat.mod_eq_of_lt left.toNat_lt, Nat.mod_eq_of_lt right.toNat_lt] at hrel
  rw [Nat.mul_comm m, Nat.mul_comm n]
  exact hrel

/-- In the end the relation holds of the encoded numbers. -/
theorem foldBytes_rel {state : α} (length : ℕ) (left right : ℕ → UInt8) (hstate : R state 0 0) :
    R (foldBytes step length left right state) (fromBeBytes ((List.range length).map left))
      (fromBeBytes ((List.range length).map right)) := by
  induction length with
  | zero => exact hstate
  | succ length ih =>
    have hfold : foldBytes step (length + 1) left right state =
        foldBits step 8 (left length).toNat (right length).toNat
          (foldBytes step length left right state) := by
      rw [foldBytes, List.range_succ, List.foldl_append]
      rfl
    have hvalue : ∀ bytes : ℕ → UInt8, fromBeBytes ((List.range (length + 1)).map bytes) =
        fromBeBytes ((List.range length).map bytes) * 256 + (bytes length).toNat := by
      intro bytes
      rw [List.range_succ, List.map_append, fromBeBytes_append]
      simp [fromBeBytes]
    rw [hfold, hvalue, hvalue]
    exact foldBits_byte_rel hstep _ _ ih

end SoftwareKeyCore.BitFolds
