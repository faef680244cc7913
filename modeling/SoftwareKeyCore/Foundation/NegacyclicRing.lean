import Mathlib

/-!
# Negacyclic polynomial rings

The ring of the polynomials modulo `X ^ size + 1` over a commutative ring (`NegacyclicRing`). Its
elements are the sequences of `size` coefficients: `ofCoefficients` is the element of a sequence,
of which only the first `size` terms matter, and `coefficient` reads a coefficient of an element
(`coefficient_ofCoefficients`, `ofCoefficients_coefficient`).

A point whose power `size` is `-1` evaluates the elements (`evaluation`), which is a ring
homomorphism. `ext_evaluation` is that a family of points determines the elements as soon as it
determines the coefficients.
-/

set_option autoImplicit false
set_option relaxedAutoImplicit false

namespace SoftwareKeyCore

open Polynomial

noncomputable section

/-- The polynomials modulo `X ^ size + 1`. -/
abbrev NegacyclicRing (R : Type) [CommRing R] (size : ℕ) :=
  AdjoinRoot (X ^ size + 1 : R[X])

namespace NegacyclicRing

variable {R : Type} [CommRing R] {size : ℕ}

/-- The polynomial of the first coefficients of a sequence. -/
def toPolynomial (size : ℕ) (coefficients : ℕ → R) : R[X] :=
  ∑ index ∈ Finset.range size, monomial index (coefficients index)

/-- The element of a sequence of coefficients. -/
def ofCoefficients (size : ℕ) (coefficients : ℕ → R) : NegacyclicRing R size :=
  AdjoinRoot.mk (X ^ size + 1) (toPolynomial size coefficients)

theorem coeff_toPolynomial (coefficients : ℕ → R) {index : ℕ} (hindex : index < size) :
    (toPolynomial size coefficients).coeff index = coefficients index := by
  rw [toPolynomial, finsetSum_coeff,
    Finset.sum_eq_single_of_mem index (Finset.mem_range.mpr hindex)]
  · exact coeff_monomial_same index _
  · intro other _ hother
    exact coeff_monomial_of_ne _ hother.symm

theorem degree_toPolynomial_lt (coefficients : ℕ → R) :
    (toPolynomial size coefficients).degree < size := by
  rw [degree_lt_iff_coeff_zero]
  intro index hindex
  rw [toPolynomial, finsetSum_coeff]
  refine Finset.sum_eq_zero fun other hother ↦ ?_
  have hne : other ≠ index := by
    have hlt := Finset.mem_range.mp hother
    omega
  exact coeff_monomial_of_ne _ hne.symm

/-- A polynomial of small degree is the polynomial of its coefficients. -/
theorem toPolynomial_coeff {polynomial : R[X]} (hdegree : polynomial.degree < size) :
    toPolynomial size polynomial.coeff = polynomial := by
  ext index
  by_cases hindex : index < size
  · exact coeff_toPolynomial _ hindex
  · have hle : (size : WithBot ℕ) ≤ index := by exact_mod_cast not_lt.mp hindex
    rw [coeff_eq_zero_of_degree_lt (lt_of_lt_of_le (degree_toPolynomial_lt _) hle),
      coeff_eq_zero_of_degree_lt (lt_of_lt_of_le hdegree hle)]

/-! ### Coefficients -/

section Coefficients

variable [NeZero size]

theorem monic_modulus : (X ^ size + 1 : R[X]).Monic := by
  have hmonic := monic_X_pow_add_C (1 : R) (NeZero.ne size)
  rwa [map_one] at hmonic

/-- A coefficient of an element. -/
def coefficient (element : NegacyclicRing R size) (index : ℕ) : R :=
  (AdjoinRoot.modByMonicHom monic_modulus element).coeff index

theorem degree_modulus [Nontrivial R] : (X ^ size + 1 : R[X]).degree = size := by
  have hdegree := degree_X_pow_add_C (Nat.pos_of_neZero size) (1 : R)
  rwa [map_one] at hdegree

theorem degree_modByMonicHom_lt [Nontrivial R] (element : NegacyclicRing R size) :
    (AdjoinRoot.modByMonicHom monic_modulus element).degree < size := by
  obtain ⟨polynomial, rfl⟩ := AdjoinRoot.mk_surjective element
  have hdegree : (X ^ size + 1 : R[X]).degree = size := degree_modulus
  rw [AdjoinRoot.modByMonicHom_mk, ← hdegree]
  exact degree_modByMonic_lt polynomial monic_modulus

/-- An element is the element of its coefficients. -/
theorem ofCoefficients_coefficient [Nontrivial R] (element : NegacyclicRing R size) :
    ofCoefficients size element.coefficient = element := by
  have hpolynomial := toPolynomial_coeff (degree_modByMonicHom_lt element)
  rw [ofCoefficients]
  exact (congrArg _ hpolynomial).trans (AdjoinRoot.mk_leftInverse monic_modulus element)

/-- The coefficients of the element of a sequence are the first ones of the sequence. -/
theorem coefficient_ofCoefficients [Nontrivial R] (coefficients : ℕ → R) {index : ℕ}
    (hindex : index < size) :
    (ofCoefficients size coefficients).coefficient index = coefficients index := by
  have hsmall : (toPolynomial size coefficients).degree < (X ^ size + 1 : R[X]).degree := by
    rw [degree_modulus]
    exact degree_toPolynomial_lt coefficients
  rw [coefficient, ofCoefficients, AdjoinRoot.modByMonicHom_mk,
    (modByMonic_eq_self_iff monic_modulus).mpr hsmall]
  exact coeff_toPolynomial coefficients hindex

end Coefficients

/-- Sequences that agree on the coefficients have one element. -/
theorem ofCoefficients_congr {first second : ℕ → R}
    (hcoefficients : ∀ index < size, first index = second index) :
    ofCoefficients size first = ofCoefficients size second := by
  rw [ofCoefficients, ofCoefficients, toPolynomial, toPolynomial]
  refine congrArg _ (Finset.sum_congr rfl fun index hindex ↦ ?_)
  rw [hcoefficients index (Finset.mem_range.mp hindex)]

theorem ofCoefficients_add (first second : ℕ → R) :
    ofCoefficients size (fun index ↦ first index + second index) =
      ofCoefficients size first + ofCoefficients size second := by
  rw [ofCoefficients, ofCoefficients, ofCoefficients, ← map_add]
  refine congrArg _ ?_
  simp only [toPolynomial, map_add, Finset.sum_add_distrib]

/-! ### Evaluation -/

/-- The evaluation at a point whose power is `-1`. -/
def evaluation (point : R) (hpoint : point ^ size = -1) : NegacyclicRing R size →+* R :=
  AdjoinRoot.lift (RingHom.id R) point (by simp [hpoint])

/-- The value at a point is the sum of the terms. -/
theorem evaluation_ofCoefficients {point : R} (hpoint : point ^ size = -1)
    (coefficients : ℕ → R) :
    evaluation point hpoint (ofCoefficients size coefficients) =
      ∑ index ∈ Finset.range size, coefficients index * point ^ index := by
  rw [evaluation, ofCoefficients, AdjoinRoot.lift_mk, toPolynomial, eval₂_finsetSum]
  refine Finset.sum_congr rfl fun index _ ↦ ?_
  rw [eval₂_monomial, RingHom.id_apply]

/-- Points that determine the coefficients of a sequence determine the elements of the ring. -/
theorem ext_evaluation [Nontrivial R] [NeZero size] {points : ℕ → R}
    (hpoints : ∀ index < size, points index ^ size = -1)
    (hdetermined : ∀ first second : ℕ → R,
      (∀ index < size, ∑ term ∈ Finset.range size, first term * points index ^ term =
        ∑ term ∈ Finset.range size, second term * points index ^ term) →
      ∀ index < size, first index = second index)
    {left right : NegacyclicRing R size}
    (hvalues : ∀ (index : ℕ) (hindex : index < size),
      evaluation (points index) (hpoints index hindex) left =
        evaluation (points index) (hpoints index hindex) right) : left = right := by
  rw [← ofCoefficients_coefficient left, ← ofCoefficients_coefficient right]
  refine ofCoefficients_congr (hdetermined _ _ fun index hindex ↦ ?_)
  rw [← evaluation_ofCoefficients (hpoints index hindex),
    ← evaluation_ofCoefficients (hpoints index hindex), ofCoefficients_coefficient,
    ofCoefficients_coefficient]
  exact hvalues index hindex

end NegacyclicRing

end

end SoftwareKeyCore
