import SoftwareKeyCore.PostQuantum.MlDsaNtt

/-!
# Convolution by the transform of ML-DSA

`post_quantum/ml_dsa_validation.rs`, `ntt`, on slices of 256 coefficients. `polynomialOf` is the
polynomial modulo `X ^ 256 + 1` of a slice. The transform is the one of `NumberTheoreticTransform`
(`ntt_false_eq`, `ntt_true_eq`), which evaluates polynomials; so multiplying transformed slices
entry by entry multiplies the polynomials, and `ntt_negacyclic` collects what follows for `ntt`.
-/

set_option autoImplicit false
set_option relaxedAutoImplicit false

namespace SoftwareKeyCore.MlDsaValidation

open NegacyclicRing NumberTheoreticTransform TabulatedList

/-- The polynomial of a slice of coefficients. -/
noncomputable def polynomialOf (values : List Elem) : NegacyclicRing Elem (2 ^ 8) :=
  ofCoefficients (2 ^ 8) fun index ↦ values.getD index 0

section

variable {values first second : List Elem}

/-- A slice is the table of its entries. -/
theorem tabulate_entries (hlength : values.length = 256) :
    tabulate 256 (fun index ↦ values.getD index 0) = values := by
  rw [← hlength, tabulate_getD]

theorem ntt_false_eq (hlength : values.length = 256) :
    ntt values false = some (tabulate 256 (twiddles.forward fun index ↦ values.getD index 0)) := by
  rw [← ntt_forward, tabulate_entries hlength]

theorem ntt_true_eq (hlength : values.length = 256) :
    ntt values true = some (tabulate 256 fun index ↦
      8347681 * twiddles.inverse (fun index ↦ values.getD index 0) index) := by
  rw [← ntt_inverse, tabulate_entries hlength]

/-- Slices are added entry by entry. -/
theorem zipWith_add_eq (hfirst : first.length = 256) (hsecond : second.length = 256) :
    List.zipWith (· + ·) first second =
      tabulate 256 fun index ↦ first.getD index 0 + second.getD index 0 := by
  rw [← zipWith_tabulate, tabulate_entries hfirst, tabulate_entries hsecond]

/-- The inverse transform of a product of transformed slices is the product of the polynomials. -/
theorem ntt_mul (first second : List Elem) :
    ntt (List.zipWith (· * ·) (tabulate 256 (twiddles.forward fun index ↦ first.getD index 0))
        (tabulate 256 (twiddles.forward fun index ↦ second.getD index 0))) true =
      some (tabulate 256 (polynomialOf first * polynomialOf second).coefficient) := by
  rw [zipWith_tabulate, ntt_inverse]
  exact congrArg some (tabulate_congr fun index hindex ↦
    twiddles.inverse_mul_forward scale_mul _ _ hindex)

/-- The inverse direction takes a transform back. -/
theorem ntt_true_forward (hlength : values.length = 256) :
    ntt (tabulate 256 (twiddles.forward fun index ↦ values.getD index 0)) true = some values := by
  rw [ntt_inverse, Option.some.injEq]
  refine (tabulate_congr fun index hindex ↦ ?_).trans (tabulate_entries hlength)
  rw [twiddles.inverse_forward _ hindex, ← mul_assoc, scale_mul, one_mul]

/-- The forward direction takes an inverse transform back. -/
theorem ntt_false_inverse (hlength : values.length = 256) :
    ntt (tabulate 256 fun index ↦
        8347681 * twiddles.inverse (fun index ↦ values.getD index 0) index) false =
      some values := by
  rw [ntt_forward, Option.some.injEq]
  refine (tabulate_congr fun index hindex ↦ ?_).trans (tabulate_entries hlength)
  rw [Twiddles.forward, twiddles.forwardLayers_mul]
  show 8347681 * twiddles.forward (twiddles.inverse _) index = _
  rw [twiddles.forward_inverse _ hindex, ← mul_assoc, scale_mul, one_mul]

/-- Both directions transform a sum into the sum of the transforms. -/
theorem ntt_add (inverse : Bool) (hfirst : first.length = 256) (hsecond : second.length = 256) :
    ∃ first' second', ntt first inverse = some first' ∧ ntt second inverse = some second' ∧
      ntt (List.zipWith (· + ·) first second) inverse =
        some (List.zipWith (· + ·) first' second') := by
  rw [zipWith_add_eq hfirst hsecond]
  cases inverse with
  | false =>
    refine ⟨_, _, ntt_false_eq hfirst, ntt_false_eq hsecond, ?_⟩
    rw [ntt_forward, zipWith_tabulate, Twiddles.forward, twiddles.forwardLayers_add]
    rfl
  | true =>
    refine ⟨_, _, ntt_true_eq hfirst, ntt_true_eq hsecond, ?_⟩
    rw [ntt_inverse, zipWith_tabulate, Twiddles.inverse, twiddles.inverseLayers_add]
    simp only [mul_add]
    rfl

end

/-- The transform computes the product modulo `X ^ 256 + 1`, its directions are inverse to each
other, and both are additive, on all slices of 256 coefficients; no index of a slice or of the table
is out of range; and the table holds the powers of the root of unity in bit-reversed order. -/
theorem ntt_negacyclic :
    (∀ f g : List.Vector Elem 256, ∃ f' g' : List Elem, ntt f.toList false = some f' ∧
      ntt g.toList false = some g' ∧ ntt (List.zipWith (· * ·) f' g') true =
        some (tabulate 256 (polynomialOf f.toList * polynomialOf g.toList).coefficient)) ∧
    (∀ f : List.Vector Elem 256, ∃ f', ntt f.toList false = some f' ∧ ntt f' true = some f.toList) ∧
    (∀ f : List.Vector Elem 256, ∃ f', ntt f.toList true = some f' ∧ ntt f' false = some f.toList) ∧
    (∀ (inverse : Bool) (f g : List.Vector Elem 256), ∃ f' g' : List Elem,
      ntt f.toList inverse = some f' ∧ ntt g.toList inverse = some g' ∧
        ntt (List.zipWith (· + ·) f.toList g.toList) inverse =
          some (List.zipWith (· + ·) f' g')) ∧
    ∀ i, 1 ≤ i → i < 256 → zetas[i]? = some (1753 ^ reverseBits i % q) := by
  refine ⟨fun f g ↦ ?_, fun f ↦ ?_, fun f ↦ ?_, fun inverse f g ↦ ?_, fun i hpositive hlt ↦ ?_⟩
  · exact ⟨_, _, ntt_false_eq f.toList_length, ntt_false_eq g.toList_length, ntt_mul _ _⟩
  · exact ⟨_, ntt_false_eq f.toList_length, ntt_true_forward f.toList_length⟩
  · exact ⟨_, ntt_true_eq f.toList_length, ntt_false_inverse f.toList_length⟩
  · exact ntt_add inverse f.toList_length g.toList_length
  · exact getElem?_zetas_eq hpositive hlt

/-- The square of the slice of ones, and the first two entries of the table that are used. -/
theorem ntt_negacyclic_ones :
    (∃ f' g' : List Elem, ntt (List.Vector.replicate 256 (1 : Elem)).toList false = some f' ∧
      ntt (List.Vector.replicate 256 (1 : Elem)).toList false = some g' ∧
        ntt (List.zipWith (· * ·) f' g') true =
          some (tabulate 256 (polynomialOf (List.Vector.replicate 256 1).toList *
            polynomialOf (List.Vector.replicate 256 1).toList).coefficient)) ∧
    zetas[1]? = some (1753 ^ reverseBits 1 % q) ∧ zetas[2]? = some (1753 ^ reverseBits 2 % q) :=
  ⟨ntt_negacyclic.1 _ _, ntt_negacyclic.2.2.2.2 1 (by decide) (by decide),
    ntt_negacyclic.2.2.2.2 2 (by decide) (by decide)⟩

end SoftwareKeyCore.MlDsaValidation
