import SoftwareKeyCore.Foundation.ByteString

/-!
# Binary polynomials

Numbers and byte strings as polynomials over the field of two elements: bit `i` of a number is the
coefficient of `X ^ i` (`binaryPolynomial`), and a byte string stands for the number that it
encodes (`blockPolynomial`).

The exclusive or of two numbers is the sum of their polynomials (`binaryPolynomial_xor`), and
doubling a number multiplies its polynomial by `X` (`binaryPolynomial_two_mul`). `doubleModulo`
doubles a number of a fixed width, and takes the exclusive or with a constant when the top bit is
shifted out; `binaryPolynomial_doubleModulo` is that it multiplies by `X` modulo the polynomial of
that width and constant.

On byte strings `shiftLeft` moves every bit up by one place, with the top bit of a byte carried into
the byte before it (`fromBeBytes_shiftLeft`).
-/

set_option autoImplicit false
set_option relaxedAutoImplicit false

namespace SoftwareKeyCore

open Polynomial

/-! ### Numbers as polynomials -/

/-- The polynomial whose coefficients are the bits of a number. -/
noncomputable def binaryPolynomial (value : ℕ) : (ZMod 2)[X] :=
  ∑ bit ∈ Finset.range (Nat.size value), if value.testBit bit then X ^ bit else 0

theorem coeff_binaryPolynomial (value index : ℕ) :
    (binaryPolynomial value).coeff index = if value.testBit index then 1 else 0 := by
  have hterm : ∀ bit, (if value.testBit bit then (X : (ZMod 2)[X]) ^ bit else 0).coeff index =
      if index = bit then if value.testBit index then 1 else 0 else 0 := by
    intro bit
    by_cases hbit : index = bit
    · subst hbit
      by_cases hset : value.testBit index <;> simp [hset]
    · by_cases hset : value.testBit bit <;> simp [hset, hbit, coeff_X_pow]
  rw [binaryPolynomial, finsetSum_coeff, Finset.sum_congr rfl fun bit _ ↦ hterm bit,
    Finset.sum_ite_eq]
  by_cases hindex : index < Nat.size value
  · rw [if_pos (Finset.mem_range.mpr hindex)]
  · have hclear : value.testBit index = false :=
      Nat.testBit_eq_false_of_lt (Nat.size_le.mp (not_lt.mp hindex))
    rw [if_neg (mt Finset.mem_range.mp hindex), hclear, if_neg Bool.false_ne_true]

@[simp] theorem binaryPolynomial_zero : binaryPolynomial 0 = 0 := by
  ext index
  simp [coeff_binaryPolynomial]

theorem binaryPolynomial_xor (left right : ℕ) :
    binaryPolynomial (left ^^^ right) = binaryPolynomial left + binaryPolynomial right := by
  ext index
  rw [coeff_add, coeff_binaryPolynomial, coeff_binaryPolynomial, coeff_binaryPolynomial,
    Nat.testBit_xor]
  cases left.testBit index <;> cases right.testBit index <;> decide

/-- A bit above a number is a term of its own. -/
theorem binaryPolynomial_two_pow_add {value width : ℕ} (hvalue : value < 2 ^ width) :
    binaryPolynomial (2 ^ width + value) = X ^ width + binaryPolynomial value := by
  ext index
  have hbit := Nat.testBit_two_pow_mul_add 1 hvalue index
  rw [mul_one] at hbit
  rw [coeff_add, coeff_X_pow, coeff_binaryPolynomial, coeff_binaryPolynomial, hbit]
  rcases lt_trichotomy index width with hlt | rfl | hgt
  · simp [hlt, hlt.ne]
  · have hclear : value.testBit index = false := Nat.testBit_eq_false_of_lt hvalue
    simp [hclear]
  · have hclear : value.testBit index = false :=
      Nat.testBit_eq_false_of_lt (hvalue.trans (Nat.pow_lt_pow_right (by decide) hgt))
    have hone : Nat.testBit 1 (index - width) = false :=
      Nat.testBit_eq_false_of_lt (Nat.one_lt_two_pow (by omega))
    simp [hclear, hone, hgt.ne', not_lt.mpr hgt.le]

theorem binaryPolynomial_two_mul (value : ℕ) :
    binaryPolynomial (2 * value) = X * binaryPolynomial value := by
  ext index
  cases index with
  | zero => simp [coeff_binaryPolynomial]
  | succ index =>
    rw [coeff_X_mul, coeff_binaryPolynomial, coeff_binaryPolynomial, Nat.testBit_succ,
      Nat.mul_div_cancel_left _ Nat.two_pos]

theorem degree_binaryPolynomial_lt {value width : ℕ} (hvalue : value < 2 ^ width) :
    (binaryPolynomial value).degree < width := by
  refine (degree_lt_iff_coeff_zero _ _).mpr fun index hindex ↦ ?_
  have hclear : value.testBit index = false :=
    Nat.testBit_eq_false_of_lt (hvalue.trans_le (Nat.pow_le_pow_right Nat.two_pos hindex))
  rw [coeff_binaryPolynomial, hclear, if_neg Bool.false_ne_true]

theorem binaryPolynomial_injective : Function.Injective binaryPolynomial := by
  intro left right hequal
  refine Nat.eq_of_testBit_eq fun index ↦ ?_
  have hcoefficient := congrArg (fun polynomial ↦ polynomial.coeff index) hequal
  simp only [coeff_binaryPolynomial] at hcoefficient
  by_cases hleft : left.testBit index <;> by_cases hright : right.testBit index <;>
    simp_all

/-! ### Doubling modulo a polynomial -/

/-- The double of a number of `width` bits, with the top bit that is shifted out replaced by the
bits of a constant. -/
def doubleModulo (width reduction value : ℕ) : ℕ :=
  2 * value % 2 ^ width ^^^ if 2 ^ width ≤ 2 * value then reduction else 0

theorem doubleModulo_lt {width reduction : ℕ} (hreduction : reduction < 2 ^ width) (value : ℕ) :
    doubleModulo width reduction value < 2 ^ width := by
  have hmod := Nat.mod_lt (2 * value) (Nat.two_pow_pos width)
  unfold doubleModulo
  split_ifs
  · exact Nat.xor_lt_two_pow hmod hreduction
  · rwa [Nat.xor_zero]

/-- The polynomial of a width and a constant. -/
noncomputable def reductionPolynomial (width reduction : ℕ) : (ZMod 2)[X] :=
  X ^ width + binaryPolynomial reduction

variable {width reduction value : ℕ}

theorem degree_reductionPolynomial (hreduction : reduction < 2 ^ width) :
    (reductionPolynomial width reduction).degree = width := by
  rw [reductionPolynomial, degree_add_eq_left_of_degree_lt, degree_X_pow]
  rw [degree_X_pow]
  exact degree_binaryPolynomial_lt hreduction

theorem monic_reductionPolynomial (hreduction : reduction < 2 ^ width) :
    (reductionPolynomial width reduction).Monic :=
  monic_X_pow_add (degree_binaryPolynomial_lt hreduction)

/-- Doubling multiplies by `X`. -/
theorem binaryPolynomial_doubleModulo (hvalue : value < 2 ^ width)
    (hreduction : reduction < 2 ^ width) :
    binaryPolynomial (doubleModulo width reduction value) =
      (X * binaryPolynomial value) %ₘ reductionPolynomial width reduction := by
  have hdegree := degree_binaryPolynomial_lt (doubleModulo_lt hreduction value)
  rw [← degree_reductionPolynomial hreduction] at hdegree
  by_cases hcarry : 2 ^ width ≤ 2 * value
  · have hmod : 2 * value % 2 ^ width = 2 * value - 2 ^ width := by
      rw [Nat.mod_eq_sub_mod hcarry, Nat.mod_eq_of_lt (by omega)]
    have hdouble : X * binaryPolynomial value =
        X ^ width + binaryPolynomial (2 * value - 2 ^ width) := by
      rw [← binaryPolynomial_two_mul, ← binaryPolynomial_two_pow_add (by omega),
        Nat.add_sub_cancel' hcarry]
    refine ((div_modByMonic_unique 1 _ (monic_reductionPolynomial hreduction)
      ⟨?_, hdegree⟩).2).symm
    rw [doubleModulo, if_pos hcarry, hmod, binaryPolynomial_xor, hdouble, mul_one,
      reductionPolynomial]
    linear_combination (CharTwo.add_self_eq_zero (binaryPolynomial reduction))
  · refine ((div_modByMonic_unique 0 _ (monic_reductionPolynomial hreduction)
      ⟨?_, hdegree⟩).2).symm
    rw [doubleModulo, if_neg hcarry, Nat.xor_zero, Nat.mod_eq_of_lt (not_le.mp hcarry),
      binaryPolynomial_two_mul, mul_zero, add_zero]

/-- Two doublings multiply by the square of `X`. -/
theorem binaryPolynomial_doubleModulo_twice (hvalue : value < 2 ^ width)
    (hreduction : reduction < 2 ^ width) :
    binaryPolynomial (doubleModulo width reduction (doubleModulo width reduction value)) =
      (X ^ 2 * binaryPolynomial value) %ₘ reductionPolynomial width reduction := by
  have hmonic := monic_reductionPolynomial hreduction
  have hreduced : (X * binaryPolynomial value %ₘ reductionPolynomial width reduction) %ₘ
      reductionPolynomial width reduction =
        X * binaryPolynomial value %ₘ reductionPolynomial width reduction :=
    (modByMonic_eq_self_iff hmonic).mpr (degree_modByMonic_lt _ hmonic)
  rw [binaryPolynomial_doubleModulo (doubleModulo_lt hreduction value) hreduction,
    binaryPolynomial_doubleModulo hvalue hreduction, mul_modByMonic, hreduced, ← mul_modByMonic,
    ← mul_assoc, ← sq]

/-! ### Byte strings -/

namespace ByteString

/-- The polynomial of a byte string, whose first bit is the highest coefficient. -/
noncomputable def blockPolynomial (block : ByteString) : (ZMod 2)[X] :=
  binaryPolynomial (fromBeBytes block)

/-- Blocks of one length with the same polynomial are equal. -/
theorem blockPolynomial_injective {left right : ByteString} (hlength : left.length = right.length)
    (hequal : blockPolynomial left = blockPolynomial right) : left = right :=
  fromBeBytes_injective hlength (binaryPolynomial_injective hequal)

/-- Every bit of a byte string one place up; the first one is lost. -/
def shiftLeft : ByteString → ByteString
  | [] => []
  | [byte] => [byte <<< 1]
  | byte :: next :: bytes => ((byte <<< 1) ||| (next >>> 7)) :: shiftLeft (next :: bytes)

@[simp] theorem length_shiftLeft (bytes : ByteString) :
    (shiftLeft bytes).length = bytes.length := by
  fun_induction shiftLeft bytes with
  | case1 => rfl
  | case2 => rfl
  | case3 byte next bytes ih => exact congrArg Nat.succ ih

/-- A byte that is shifted, with a bit in its last place. -/
theorem toNat_shiftLeft_or (byte next : UInt8) :
    ((byte <<< 1) ||| (next >>> 7)).toNat = (2 * byte.toNat + next.toNat / 128) % 256 := by
  have hnext : next.toNat / 128 < 2 ^ 1 := Nat.div_lt_of_lt_mul next.toNat_lt
  have hhigh : 2 * byte.toNat % 256 = 2 ^ 1 * (byte.toNat % 128) := by omega
  have hor := Nat.two_pow_add_eq_or_of_lt hnext (byte.toNat % 128)
  calc ((byte <<< 1) ||| (next >>> 7)).toNat
      = byte.toNat <<< 1 % 256 ||| next.toNat >>> 7 := by
        simp [UInt8.toNat_or, UInt8.toNat_shiftLeft, UInt8.toNat_shiftRight]
    _ = 2 * byte.toNat % 256 ||| next.toNat / 128 := by
        rw [Nat.shiftLeft_eq, Nat.shiftRight_eq_div_pow, pow_one, mul_comm]
    _ = 2 ^ 1 * (byte.toNat % 128) + next.toNat / 128 := by rw [hhigh, hor]
    _ = (2 * byte.toNat + next.toNat / 128) % 256 := by omega

/-- The bit that a byte string loses when it is shifted is the first one of its first byte. -/
theorem two_mul_fromBeBytes_div (byte : UInt8) (bytes : ByteString) :
    2 * fromBeBytes (byte :: bytes) / 256 ^ (bytes.length + 1) = byte.toNat / 128 := by
  have hrest := fromBeBytes_lt bytes
  have hpositive : 0 < 256 ^ bytes.length := by positivity
  rw [fromBeBytes_cons, pow_succ, ← Nat.div_div_eq_div_mul, mul_add, ← mul_assoc,
    Nat.mul_comm _ (256 ^ bytes.length), Nat.mul_add_div hpositive]
  have hquotient : 2 * fromBeBytes bytes / 256 ^ bytes.length < 2 :=
    Nat.div_lt_of_lt_mul (by omega)
  generalize 2 * fromBeBytes bytes / 256 ^ bytes.length = carry at hquotient ⊢
  omega

theorem fromBeBytes_shiftLeft (bytes : ByteString) :
    fromBeBytes (shiftLeft bytes) = 2 * fromBeBytes bytes % 256 ^ bytes.length := by
  fun_induction shiftLeft bytes with
  | case1 => rfl
  | case2 byte =>
    have hshift := toNat_shiftLeft_or byte 0
    rw [UInt8.zero_shiftRight, UInt8.or_zero] at hshift
    simpa [fromBeBytes] using hshift
  | case3 byte next bytes ih =>
    have hcarry := two_mul_fromBeBytes_div next bytes
    have hsplit := Nat.div_add_mod (2 * fromBeBytes (next :: bytes)) (256 ^ (bytes.length + 1))
    have hrest := Nat.mod_lt (2 * fromBeBytes (next :: bytes))
      (by positivity : 0 < 256 ^ (bytes.length + 1))
    rw [hcarry] at hsplit
    have hdouble : 2 * fromBeBytes (byte :: next :: bytes) =
        256 ^ (bytes.length + 1) * (2 * byte.toNat + next.toNat / 128) +
          2 * fromBeBytes (next :: bytes) % 256 ^ (bytes.length + 1) := by
      rw [fromBeBytes_cons, List.length_cons, mul_add, ← hsplit, Nat.mul_add_mod,
        Nat.mod_mod]
      ring
    have hlength : (byte :: next :: bytes).length = bytes.length + 1 + 1 := rfl
    rw [fromBeBytes_cons, length_shiftLeft, ih, toNat_shiftLeft_or, hdouble, hlength,
      pow_succ _ (bytes.length + 1), Nat.mod_mul, Nat.mul_add_mod, Nat.mod_eq_of_lt hrest,
      Nat.mul_add_div (by positivity), Nat.div_eq_of_lt hrest, add_zero, List.length_cons]
    ring

/-- The exclusive or with the last byte. -/
theorem fromBeBytes_concat_xor (bytes : ByteString) (byte mask : UInt8) :
    fromBeBytes (bytes ++ [byte ^^^ mask]) = fromBeBytes (bytes ++ [byte]) ^^^ mask.toNat := by
  rw [fromBeBytes_append, fromBeBytes_append, List.length_singleton, List.length_singleton,
    fromBeBytes_cons, fromBeBytes_cons]
  simp only [List.length_nil, pow_zero, mul_one, fromBeBytes_nil, add_zero, UInt8.toNat_xor]
  refine Nat.eq_of_testBit_eq fun bit ↦ ?_
  have hbyte : byte.toNat < 2 ^ 8 := byte.toNat_lt
  have hmask : mask.toNat < 2 ^ 8 := mask.toNat_lt
  rw [mul_comm, pow_one, show (256 : ℕ) = 2 ^ 8 by rfl, Nat.testBit_xor,
    Nat.testBit_two_pow_mul_add _ (Nat.xor_lt_two_pow hbyte hmask),
    Nat.testBit_two_pow_mul_add _ hbyte]
  split_ifs with hbit
  · exact Nat.testBit_xor ..
  · have hclear : mask.toNat.testBit bit = false :=
      Nat.testBit_eq_false_of_lt (hmask.trans_le (Nat.pow_le_pow_right Nat.two_pos (by omega)))
    rw [hclear, Bool.xor_false]

end ByteString

end SoftwareKeyCore
