import SoftwareKeyCore.PostQuantum.MlDsaExpandedKey
import SoftwareKeyCore.PostQuantum.MlDsaSecretEncoding

/-!
# The validation of expanded keys of ML-DSA

`post_quantum/ml_dsa_validation.rs`, `validate`: the codes of the secrets are checked, the public
vector is computed with the transform, one row after the other, and its low parts are packed and
compared with those of the key. The packings are third-party code (`MlDsaParams`) with the laws of
their format, on the values it is made for.

`returns_lowRow` is what a row computes, and `returns_lowRows` collects the rows. The result is
`validate_accepts_consistent_keys`: the validation accepts the consistent keys of
`MlDsaExpandedKey`, and it returns on every stream from which the matrix can be sampled.
-/

set_option autoImplicit false
set_option relaxedAutoImplicit false

namespace SoftwareKeyCore.MlDsaValidation

open BitPacking ByteString Fuelled NegacyclicRing NumberTheoreticTransform PostQuantum TabulatedList

/-- The packings of third-party `MlDsaParams`. Secrets are decoded when their codes are valid, and
low parts are encoded when their codes have 13 bits. -/
structure MlDsaParams (parameterSet : MlDsaParameterSet) where
  splitSk : List.Vector UInt8 parameterSet.expandedPrivateKeyLength → SplitKey
  decodeS1 : ByteString → List (List Elem)
  decodeS2 : ByteString → List (List Elem)
  encodeT0 : List (List Elem) → ByteString
  splitSk_eq : ∀ encoded, splitSk encoded = splitExpanded parameterSet encoded.toList
  decodeS1_eq : ∀ {encoded : ByteString},
    encoded.length = 32 * secretWidth parameterSet * columns parameterSet →
      ValidCodes parameterSet encoded (columns parameterSet) →
        decodeS1 encoded = List.ofFn fun row : Fin (columns parameterSet) ↦
          tabulate 256 (secretCoefficient parameterSet encoded row)
  decodeS2_eq : ∀ {encoded : ByteString},
    encoded.length = 32 * secretWidth parameterSet * rows parameterSet →
      ValidCodes parameterSet encoded (rows parameterSet) →
        decodeS2 encoded = List.ofFn fun row : Fin (rows parameterSet) ↦
          tabulate 256 (secretCoefficient parameterSet encoded row)
  encodeT0_eq : ∀ {values : Fin (rows parameterSet) → ℕ → Elem},
    (∀ row, ∀ index < 256, ((4096 : Elem) - values row index).val < 2 ^ 13) →
      encodeT0 (List.ofFn fun row ↦ tabulate 256 (values row)) =
        (List.ofFn fun row ↦ packFields 13
          (tabulate 256 fun index ↦ ((4096 : Elem) - values row index).val)).flatten

/-- The packings of the format meet the laws. -/
def MlDsaParams.standard (parameterSet : MlDsaParameterSet) : MlDsaParams parameterSet where
  splitSk encoded := splitExpanded parameterSet encoded.toList
  decodeS1 encoded := List.ofFn fun row : Fin (columns parameterSet) ↦
    tabulate 256 (secretCoefficient parameterSet encoded row)
  decodeS2 encoded := List.ofFn fun row : Fin (rows parameterSet) ↦
    tabulate 256 (secretCoefficient parameterSet encoded row)
  encodeT0 t := (t.map fun row ↦
    packFields 13 (row.map fun coefficient ↦ ((4096 : Elem) - coefficient).val)).flatten
  splitSk_eq _ := rfl
  decodeS1_eq _ _ := rfl
  decodeS2_eq _ _ := rfl
  encodeT0_eq _ := by
    simp only [List.map_ofFn, Function.comp_def, map_tabulate]

/-! ### The validation -/

/-- `Elem::new`, of a reduced value. -/
def newElem (value : ℕ) : Option Elem :=
  if value < q then some (value : Elem) else none

/-- The low part of `Power2Round`. -/
def power2RoundLow (value : Elem) : Option Elem := do
  let high := (value.val + 4095) >>> 13
  let rounded ← newElem (high <<< 13)
  some (value - rounded)

section Validate

variable {parameterSet : MlDsaParameterSet} (params : MlDsaParams parameterSet)
  (shake128 : ByteString → ℕ → UInt8)

/-- The product of a row of the matrix and the transformed secret. -/
def rowProduct (rho : ByteString) (s1Hat : List (List Elem)) (rowIndex : ℕ)
    (product : List Elem) : Fuelled (List Elem) :=
  s1Hat.zipIdx.foldlM (fun product (column, columnIndex) ↦
    accumulateColumn (shake128 (rho ++ [UInt8.ofNat columnIndex, UInt8.ofNat rowIndex])) 0
      (product.zip column)) product

/-- The body of the loop over the rows. -/
def lowRow (rho : ByteString) (s1Hat : List (List Elem)) (rowIndex : ℕ) (row : List Elem) :
    Fuelled (List Elem) := do
  let product ← rowProduct shake128 rho s1Hat rowIndex (List.replicate row.length 0)
  let product ← ofOption (ntt product true)
  (row.zip product).mapM fun (coefficient, product) ↦
    ofOption (power2RoundLow (coefficient + product))

/-- `validate`. -/
def validate (encoded : List.Vector UInt8 parameterSet.expandedPrivateKeyLength) :
    Fuelled (Except MlDsaError Unit) := do
  let key := params.splitSk encoded
  let validS1 ← validSmallSecretEncoding key.s1 (eta parameterSet)
  if !validS1 then
    return .error .invalidExpandedPrivateKey
  let validS2 ← validSmallSecretEncoding key.s2 (eta parameterSet)
  if !validS2 then
    return .error .invalidExpandedPrivateKey
  let s1Hat ← (params.decodeS1 key.s1).mapM fun polynomial ↦ ofOption (ntt polynomial false)
  let t ← (params.decodeS2 key.s2).zipIdx.mapM fun (row, rowIndex) ↦
    lowRow shake128 key.rho s1Hat rowIndex row
  if params.encodeT0 t = key.t0 then
    return .ok ()
  else
    return .error .invalidExpandedPrivateKey

end Validate

/-! ### Rounding -/

theorem q_eq : q = 8380417 :=
  rfl

instance : NeZero q :=
  ⟨by rw [q_eq]; norm_num⟩

/-- The rounded values are reduced, up to the largest one. -/
theorem rounded_lt (value : Elem) : (value.val + 4095) / 2 ^ 13 * 2 ^ 13 < q := by
  have hvalue : value.val < q := ZMod.val_lt value
  have hq := q_eq
  omega

/-- The rounding computes the low part. -/
theorem power2RoundLow_eq (value : Elem) :
    power2RoundLow value = some ((lowPart value : ℤ) : Elem) := by
  have hrounded : ((value.val + 4095) >>> 13) <<< 13 = (value.val + 4095) / 2 ^ 13 * 2 ^ 13 := by
    rw [Nat.shiftLeft_eq, Nat.shiftRight_eq_div_pow]
  have hlow : (value.val : ℤ) - ((value.val + 4095) / 2 ^ 13 * 2 ^ 13 : ℕ) = lowPart value := by
    rw [lowPart, centeredMod]
    split_ifs
    · omega
    · omega
  have hcast : ((value.val : ℤ) : Elem) = value := by
    rw [Int.cast_natCast, ZMod.natCast_zmod_val]
  simp only [power2RoundLow, newElem, hrounded, if_pos (rounded_lt value), Option.bind_eq_bind,
    Option.bind_some]
  rw [← hlow, Int.cast_sub, hcast, Int.cast_natCast]

/-- The code of a low part, computed with residues. -/
theorem val_sub_lowPart (value : Elem) :
    ((4096 : Elem) - ((lowPart value : ℤ) : Elem)).val = lowPartCode (lowPart value) := by
  obtain ⟨hlower, hupper⟩ := lowPart_bounds value
  have hcode : ((lowPartCode (lowPart value) : ℕ) : ℤ) = 4096 - lowPart value :=
    Int.toNat_of_nonneg (by omega)
  have hcast : (4096 : Elem) - ((lowPart value : ℤ) : Elem) =
      ((lowPartCode (lowPart value) : ℕ) : Elem) := by
    rw [← Int.cast_natCast, hcode, Int.cast_sub]
    rfl
  have hlt : lowPartCode (lowPart value) < q := by
    rw [lowPartCode, q_eq]
    omega
  rw [hcast, ZMod.val_natCast_of_lt hlt]

theorem lowPartCode_lt (value : Elem) : lowPartCode (lowPart value) < 2 ^ 13 := by
  have hbounds := lowPart_bounds value
  rw [lowPartCode]
  omega

/-! ### The ring -/

/-- The values of an element at the points of the transform. -/
theorem evaluation_point {index : ℕ} (hindex : index < 256) (element : Polynomials) :
    evaluation (twiddles.point index) (twiddles.point_pow hindex) element =
      evaluation (nttPoint index) (nttPoint_pow index) element := by
  have hpoint : twiddles.point index = nttPoint index := point_eq hindex
  congr 1
  congr 1

/-- The inverse direction of `ntt` gives the coefficients of the element of some values. -/
theorem eq_ofCoefficients_inverse {element : Polynomials} {values : ℕ → Elem}
    (hvalues : ∀ index < 256,
      evaluation (nttPoint index) (nttPoint_pow index) element = values index) :
    element = ofCoefficients (2 ^ 8) fun index ↦ 8347681 * twiddles.inverse values index := by
  refine twiddles.eq_ofCoefficients_inverse scale_mul fun index hindex ↦ ?_
  rw [evaluation_point hindex, hvalues index hindex]

/-- Every sequence of values is that of an element. -/
theorem exists_evaluation_nttPoint (values : ℕ → Elem) :
    ∃ element : Polynomials, ∀ index < 256,
      evaluation (nttPoint index) (nttPoint_pow index) element = values index := by
  obtain ⟨element, helement⟩ := twiddles.exists_evaluation_eq isUnit_two_pow values
  refine ⟨element, fun index hindex ↦ ?_⟩
  rw [← evaluation_point hindex]
  exact helement index hindex

/-! ### The rows -/

section Rows

variable {shake128 : ByteString → ℕ → UInt8} {rho : ByteString} {columnCount : ℕ}

/-- The last column of a row. -/
theorem rowProduct_succ (rowIndex : ℕ) (hat : Fin (columnCount + 1) → List Elem)
    (product : List Elem) :
    rowProduct shake128 rho (List.ofFn hat) rowIndex product =
      rowProduct shake128 rho (List.ofFn fun column ↦ hat column.castSucc) rowIndex product >>=
        fun product ↦ accumulateColumn
          (shake128 (rho ++ [UInt8.ofNat (Fin.last columnCount), UInt8.ofNat rowIndex])) 0
            (product.zip (hat (Fin.last columnCount))) := by
  rw [rowProduct, List.ofFn_succ_last, List.zipIdx_append, List.foldlM_append, List.length_ofFn,
    zero_add, rowProduct]
  refine congrArg _ (funext fun product ↦ ?_)
  rw [List.zipIdx_singleton, List.foldlM_cons]
  exact bind_pure _

/-- The sum of the columns of a row, with rejection samples of their streams. -/
theorem returns_rowProduct {rowIndex : ℕ} (hat : Fin columnCount → ℕ → Elem)
    {result : List Elem} :
    (rowProduct shake128 rho (List.ofFn fun column ↦ tabulate 256 (hat column)) rowIndex
        (tabulate 256 fun _ ↦ 0)).Returns result ↔
      ∃ values : Fin columnCount → ℕ → ℕ,
        (∀ column : Fin columnCount, IsRejectionSample
          (shake128 (rho ++ [UInt8.ofNat column, UInt8.ofNat rowIndex])) (values column)) ∧
        result = tabulate 256 fun index ↦
          ∑ column, (values column index : Elem) * hat column index := by
  induction columnCount generalizing result with
  | zero =>
    have hempty : ∀ values : Fin 0 → ℕ → ℕ, (tabulate 256 fun index ↦
        ∑ column, (values column index : Elem) * hat column index) =
          tabulate 256 fun _ ↦ (0 : Elem) := by
      intro values
      simp only [Finset.univ_eq_empty, Finset.sum_empty]
    show (pure _ : Fuelled (List Elem)).Returns result ↔ _
    rw [returns_pure]
    constructor
    · rintro rfl
      exact ⟨fun _ _ ↦ 0, fun column ↦ column.elim0, (hempty _).symm⟩
    · rintro ⟨values, -, rfl⟩
      exact (hempty values).symm
  | succ columnCount ih =>
    rw [rowProduct_succ, returns_bind]
    simp only [Fin.sum_univ_castSucc]
    constructor
    · rintro ⟨middle, hmiddle, hlast⟩
      obtain ⟨values, hsamples, rfl⟩ := (ih fun column ↦ hat column.castSucc).mp hmiddle
      obtain ⟨last, hsample, rfl⟩ := returns_accumulateColumn_tabulate.mp hlast
      let extended : Fin (columnCount + 1) → ℕ → ℕ := Fin.snoc values last
      have hbefore : ∀ column : Fin columnCount, extended column.castSucc = values column :=
        fun column ↦ Fin.snoc_castSucc (α := fun _ ↦ ℕ → ℕ) last values column
      have hlastColumn : extended (Fin.last columnCount) = last :=
        Fin.snoc_last (α := fun _ ↦ ℕ → ℕ) last values
      refine ⟨extended, fun column ↦ ?_, ?_⟩
      · refine Fin.lastCases ?_ (fun column ↦ ?_) column
        · rwa [hlastColumn]
        · rw [hbefore]
          exact hsamples column
      · simp only [hbefore, hlastColumn]
    · rintro ⟨values, hsamples, rfl⟩
      refine ⟨_, (ih fun column ↦ hat column.castSucc).mpr
        ⟨fun column ↦ values column.castSucc, fun column ↦ hsamples column.castSucc, rfl⟩, ?_⟩
      exact returns_accumulateColumn_tabulate.mpr
        ⟨values (Fin.last columnCount), hsamples (Fin.last columnCount), rfl⟩

/-- The element with the values of a row is the product with the secret. -/
theorem sum_eq_ofCoefficients {row : Fin columnCount → Polynomials}
    {values : Fin columnCount → ℕ → ℕ} (secret : Fin columnCount → ℕ → Elem)
    (hrow : ∀ column, ∀ index < 256,
      evaluation (nttPoint index) (nttPoint_pow index) (row column) = values column index) :
    ∑ column, row column * ofCoefficients (2 ^ 8) (secret column) =
      ofCoefficients (2 ^ 8) fun index ↦ 8347681 * twiddles.inverse (fun index ↦
        ∑ column, (values column index : Elem) * twiddles.forward (secret column) index) index := by
  refine eq_ofCoefficients_inverse fun index hindex ↦ ?_
  rw [map_sum]
  refine Finset.sum_congr rfl fun column _ ↦ ?_
  rw [map_mul, hrow column index hindex, ← evaluation_point hindex,
    twiddles.forward_eq_evaluation _ hindex]

/-- A row that was summed up is transformed back, added and rounded. -/
theorem returns_lowRow_of_rowProduct {rowIndex : ℕ} {s1Hat : List (List Elem)}
    (error : ℕ → Elem) {result : List Elem} :
    (lowRow shake128 rho s1Hat rowIndex (tabulate 256 error)).Returns result ↔
      ∃ product, (rowProduct shake128 rho s1Hat rowIndex (tabulate 256 fun _ ↦ 0)).Returns product ∧
        ∃ transformed, ntt product true = some transformed ∧
          ((tabulate 256 error).zip transformed).map (fun pair ↦
            ((lowPart (pair.1 + pair.2) : ℤ) : Elem)) = result := by
  have hzero : List.replicate (tabulate 256 error).length (0 : Elem) =
      tabulate 256 fun _ ↦ 0 := by
    rw [length_tabulate, tabulate, List.map_const', List.length_range]
  have hround : ∀ pairs : List (Elem × Elem), (pairs.mapM fun (coefficient, product) ↦
      ofOption (power2RoundLow (coefficient + product))) =
        pure (pairs.map fun pair ↦ ((lowPart (pair.1 + pair.2) : ℤ) : Elem)) := by
    intro pairs
    rw [← List.mapM_pure]
    refine congrArg (fun step ↦ pairs.mapM step) (funext fun pair ↦ ?_)
    show ofOption (power2RoundLow (pair.1 + pair.2)) = _
    rw [power2RoundLow_eq]
    rfl
  simp only [lowRow, hzero, returns_bind, returns_ofOption, hround, returns_pure]

/-- What a row computes. -/
theorem returns_lowRow {rowIndex : ℕ} (secret : Fin columnCount → ℕ → Elem)
    (error : ℕ → Elem) {result : List Elem} :
    (lowRow shake128 rho (List.ofFn fun column ↦ tabulate 256 (twiddles.forward (secret column)))
        rowIndex (tabulate 256 error)).Returns result ↔
      ∃ row : Fin columnCount → Polynomials,
        (∀ column : Fin columnCount, ∃ values,
          IsRejectionSample (shake128 (rho ++ [UInt8.ofNat column, UInt8.ofNat rowIndex])) values ∧
            ∀ index < 256,
              evaluation (nttPoint index) (nttPoint_pow index) (row column) = values index) ∧
        result = tabulate 256 fun index ↦ ((lowPart (coefficient
          ((∑ column, row column * ofCoefficients (2 ^ 8) (secret column)) +
            ofCoefficients (2 ^ 8) error) index) : ℤ) : Elem) := by
  have hresult : ∀ (row : Fin columnCount → Polynomials) (values : Fin columnCount → ℕ → ℕ),
      (∀ column, ∀ index < 256,
        evaluation (nttPoint index) (nttPoint_pow index) (row column) = values column index) →
      ((tabulate 256 error).zip (tabulate 256 fun index ↦ 8347681 * twiddles.inverse (fun index ↦
        ∑ column, (values column index : Elem) * twiddles.forward (secret column) index)
          index)).map (fun pair ↦ ((lowPart (pair.1 + pair.2) : ℤ) : Elem)) =
        tabulate 256 fun index ↦ ((lowPart (coefficient
          ((∑ column, row column * ofCoefficients (2 ^ 8) (secret column)) +
            ofCoefficients (2 ^ 8) error) index) : ℤ) : Elem) := by
    intro row values hrow
    rw [sum_eq_ofCoefficients secret hrow, ← ofCoefficients_add, List.zip, zipWith_tabulate,
      map_tabulate]
    refine tabulate_congr fun index hindex ↦ ?_
    have hsize : index < 2 ^ 8 := hindex
    rw [coefficient_ofCoefficients _ hsize, add_comm]
  rw [returns_lowRow_of_rowProduct]
  constructor
  · rintro ⟨product, hproduct, transformed, htransformed, rfl⟩
    obtain ⟨values, hsamples, rfl⟩ := (returns_rowProduct _).mp hproduct
    rw [ntt_inverse, Option.some.injEq] at htransformed
    subst htransformed
    choose row hrow using fun column ↦ exists_evaluation_nttPoint fun index ↦
      (values column index : Elem)
    exact ⟨row, fun column ↦ ⟨values column, hsamples column, hrow column⟩, hresult row values hrow⟩
  · rintro ⟨row, hsamples, rfl⟩
    choose values hsamples hrow using hsamples
    exact ⟨_, (returns_rowProduct _).mpr ⟨values, hsamples, rfl⟩, _, ntt_inverse _,
      hresult row values hrow⟩

end Rows

/-! ### The result -/

section Result

variable {parameterSet : MlDsaParameterSet} {params : MlDsaParams parameterSet}
  {shake128 : ByteString → ℕ → UInt8}

/-- The coefficients of the low parts of the public vector. -/
noncomputable def lowPartRow (key : SplitKey)
    (matrix : Matrix (Fin (rows parameterSet)) (Fin (columns parameterSet)) Polynomials)
    (row : Fin (rows parameterSet)) (index : ℕ) : Elem :=
  ((lowPart (coefficient (publicVector parameterSet key matrix row) index) : ℤ) : Elem)

/-- The packing of the low parts of the public vector. -/
theorem encodeT0_lowPartRow (key : SplitKey)
    (matrix : Matrix (Fin (rows parameterSet)) (Fin (columns parameterSet)) Polynomials) :
    params.encodeT0 (List.ofFn fun row ↦ tabulate 256 (lowPartRow key matrix row)) =
      packedLowParts (publicVector parameterSet key matrix) := by
  have hcode : ∀ row index, ((4096 : Elem) - lowPartRow key matrix row index).val =
      lowPartCode (lowPart (coefficient (publicVector parameterSet key matrix row) index)) :=
    fun row index ↦ val_sub_lowPart _
  have hbound : ∀ row, ∀ index < 256,
      ((4096 : Elem) - lowPartRow key matrix row index).val < 2 ^ 13 := by
    intro row index _
    rw [hcode]
    exact lowPartCode_lt _
  rw [params.encodeT0_eq hbound, packedLowParts]
  simp only [hcode]

theorem zipIdx_ofFn {α : Type} {count : ℕ} (values : Fin count → α) :
    (List.ofFn values).zipIdx = List.ofFn fun index ↦ (values index, (index : ℕ)) := by
  refine List.ext_getElem ?_ fun index hleft hright ↦ ?_
  · rw [List.length_zipIdx, List.length_ofFn, List.length_ofFn]
  · rw [List.getElem_zipIdx, List.getElem_ofFn, List.getElem_ofFn, zero_add]

/-- The rows compute the low parts of the public vector of a matrix the seed expands to. -/
theorem returns_lowRows (key : SplitKey) {t : List (List Elem)} :
    ((List.ofFn fun row : Fin (rows parameterSet) ↦
        tabulate 256 (secretCoefficient parameterSet key.s2 row)).zipIdx.mapM
          fun (row, rowIndex) ↦ lowRow shake128 key.rho
            (List.ofFn fun column : Fin (columns parameterSet) ↦
              tabulate 256 (twiddles.forward (secretCoefficient parameterSet key.s1 column)))
            rowIndex row).Returns t ↔
      ∃ matrix : Matrix (Fin (rows parameterSet)) (Fin (columns parameterSet)) Polynomials,
        IsExpandA shake128 key.rho matrix ∧
          t = List.ofFn fun row ↦ tabulate 256 (lowPartRow key matrix row) := by
  rw [zipIdx_ofFn, returns_mapM_ofFn]
  constructor
  · rintro ⟨family, rfl, hfamily⟩
    choose matrix hmatrix hrow using fun row ↦ (returns_lowRow _ _).mp (hfamily row)
    exact ⟨matrix, hmatrix, congrArg List.ofFn (funext hrow)⟩
  · rintro ⟨matrix, hmatrix, rfl⟩
    exact ⟨_, rfl, fun row ↦ (returns_lowRow _ _).mpr ⟨matrix row, hmatrix row, rfl⟩⟩

/-- The check of the codes of a secret. -/
theorem returns_validSmallSecretEncoding_iff {count : ℕ} {encoded : ByteString}
    (hlength : encoded.length = 32 * secretWidth parameterSet * count) (result : Bool) :
    (validSmallSecretEncoding encoded (eta parameterSet)).Returns result ↔
      (result = true ↔ ValidCodes parameterSet encoded count) := by
  obtain ⟨heta, hsmall⟩ := eta_bounds parameterSet
  have hcount : 8 * encoded.length / (Nat.log2 (2 * eta parameterSet) + 1) = 256 * count := by
    rw [hlength, show 8 * (32 * secretWidth parameterSet * count) =
      (Nat.log2 (2 * eta parameterSet) + 1) * (256 * count) by rw [secretWidth]; ring]
    exact Nat.mul_div_cancel_left _ (Nat.succ_pos _)
  rw [returns_validSmallSecretEncoding heta hsmall, hcount, validCodes_iff]
  rfl

/-- The lengths of the parts of an expanded key. -/
theorem length_splitExpanded {encoded : ByteString}
    (hlength : encoded.length = parameterSet.expandedPrivateKeyLength) :
    (splitExpanded parameterSet encoded).s1.length =
        32 * secretWidth parameterSet * columns parameterSet ∧
      (splitExpanded parameterSet encoded).s2.length =
        32 * secretWidth parameterSet * rows parameterSet := by
  rw [expandedPrivateKeyLength_eq] at hlength
  simp only [splitExpanded, length_slice]
  omega

/-- The validation rejects invalid codes. -/
theorem returns_validate_of_not_validCodes
    {encoded : List.Vector UInt8 parameterSet.expandedPrivateKeyLength}
    (hcodes : ¬(ValidCodes parameterSet (splitExpanded parameterSet encoded.toList).s1
        (columns parameterSet) ∧
      ValidCodes parameterSet (splitExpanded parameterSet encoded.toList).s2
        (rows parameterSet))) :
    (validate params shake128 encoded).Returns (.error .invalidExpandedPrivateKey) := by
  obtain ⟨hs1, hs2⟩ := length_splitExpanded encoded.toList_length
  rw [validate, params.splitSk_eq, returns_bind]
  by_cases hvalidS1 : ValidCodes parameterSet (splitExpanded parameterSet encoded.toList).s1
      (columns parameterSet)
  · have hvalidS2 := fun hvalid ↦ hcodes ⟨hvalidS1, hvalid⟩
    refine ⟨true, (returns_validSmallSecretEncoding_iff hs1 true).mpr (iff_of_true rfl hvalidS1),
      ?_⟩
    rw [Bool.not_true, if_neg Bool.false_ne_true, returns_bind]
    refine ⟨false, (returns_validSmallSecretEncoding_iff hs2 false).mpr
      (iff_of_false Bool.false_ne_true hvalidS2), ?_⟩
    exact returns_pure.mpr rfl
  · refine ⟨false, (returns_validSmallSecretEncoding_iff hs1 false).mpr
      (iff_of_false Bool.false_ne_true hvalidS1), ?_⟩
    exact returns_pure.mpr rfl

/-- The validation of valid codes compares the packed low parts. -/
theorem returns_validate_of_validCodes
    {encoded : List.Vector UInt8 parameterSet.expandedPrivateKeyLength} {key : SplitKey}
    (hkey : key = splitExpanded parameterSet encoded.toList)
    (hvalidS1 : ValidCodes parameterSet key.s1 (columns parameterSet))
    (hvalidS2 : ValidCodes parameterSet key.s2 (rows parameterSet))
    (result : Except MlDsaError Unit) :
    (validate params shake128 encoded).Returns result ↔
      ∃ matrix : Matrix (Fin (rows parameterSet)) (Fin (columns parameterSet)) Polynomials,
        IsExpandA shake128 key.rho matrix ∧
          result = if packedLowParts (publicVector parameterSet key matrix) = key.t0 then .ok ()
            else .error .invalidExpandedPrivateKey := by
  obtain ⟨hs1, hs2⟩ := length_splitExpanded encoded.toList_length
  rw [← hkey] at hs1 hs2
  have htrueS1 : ∀ valid, (validSmallSecretEncoding key.s1 (eta parameterSet)).Returns valid ↔
      valid = true := by
    intro valid
    rw [returns_validSmallSecretEncoding_iff hs1, iff_true_right hvalidS1]
  have htrueS2 : ∀ valid, (validSmallSecretEncoding key.s2 (eta parameterSet)).Returns valid ↔
      valid = true := by
    intro valid
    rw [returns_validSmallSecretEncoding_iff hs2, iff_true_right hvalidS2]
  have hs1Hat : ∀ s1Hat, (Returns ((params.decodeS1 key.s1).mapM fun polynomial ↦
      ofOption (ntt polynomial false)) s1Hat) ↔
        s1Hat = List.ofFn fun column : Fin (columns parameterSet) ↦
          tabulate 256 (twiddles.forward (secretCoefficient parameterSet key.s1 column)) := by
    intro s1Hat
    rw [params.decodeS1_eq hs1 hvalidS1, returns_mapM_ofFn]
    simp only [ntt_forward, returns_ofOption, Option.some.injEq]
    constructor
    · rintro ⟨family, rfl, hfamily⟩
      exact congrArg List.ofFn (funext fun column ↦ (hfamily column).symm)
    · intro heq
      exact ⟨_, heq, fun column ↦ rfl⟩
  rw [validate, params.splitSk_eq, ← hkey, returns_bind]
  simp only [htrueS1, exists_eq_left, Bool.not_true, if_neg Bool.false_ne_true, returns_bind,
    htrueS2, hs1Hat, params.decodeS2_eq hs2 hvalidS2, returns_lowRows]
  constructor
  · rintro ⟨t, ⟨matrix, hmatrix, rfl⟩, hresult⟩
    refine ⟨matrix, hmatrix, ?_⟩
    rw [encodeT0_lowPartRow] at hresult
    split_ifs at hresult ⊢
    · exact (returns_pure.mp hresult).symm
    · exact (returns_pure.mp hresult).symm
  · rintro ⟨matrix, hmatrix, rfl⟩
    refine ⟨_, ⟨matrix, hmatrix, rfl⟩, ?_⟩
    rw [encodeT0_lowPartRow]
    split_ifs
    · exact returns_pure.mpr rfl
    · exact returns_pure.mpr rfl

/-- The validation succeeds on the consistent keys. -/
theorem returns_validate_ok_iff
    {encoded : List.Vector UInt8 parameterSet.expandedPrivateKeyLength} :
    (validate params shake128 encoded).Returns (.ok ()) ↔
      IsConsistent parameterSet shake128 (splitExpanded parameterSet encoded.toList) := by
  by_cases hcodes : ValidCodes parameterSet (splitExpanded parameterSet encoded.toList).s1
      (columns parameterSet) ∧
    ValidCodes parameterSet (splitExpanded parameterSet encoded.toList).s2 (rows parameterSet)
  · rw [returns_validate_of_validCodes rfl hcodes.1 hcodes.2]
    constructor
    · rintro ⟨matrix, hmatrix, hresult⟩
      refine ⟨hcodes.1, hcodes.2, matrix, hmatrix, ?_⟩
      by_contra hdiffers
      rw [if_neg (Ne.symm hdiffers)] at hresult
      exact nomatch hresult
    · rintro ⟨-, -, matrix, hmatrix, ht0⟩
      exact ⟨matrix, hmatrix, (if_pos ht0.symm).symm⟩
  · have hreturns := @returns_validate_of_not_validCodes parameterSet params shake128 encoded hcodes
    refine iff_of_false (fun hok ↦ ?_) fun hconsistent ↦ ?_
    · exact nomatch hok.unique hreturns
    · exact hcodes ⟨hconsistent.validS1, hconsistent.validS2⟩

/-- The validation returns when the matrix can be sampled. -/
theorem returns_validate_of_isExpandA
    {encoded : List.Vector UInt8 parameterSet.expandedPrivateKeyLength}
    {matrix : Matrix (Fin (rows parameterSet)) (Fin (columns parameterSet)) Polynomials}
    (hmatrix : IsExpandA shake128 (splitExpanded parameterSet encoded.toList).rho matrix) :
    (validate params shake128 encoded).Returns (.ok ()) ∨
      (validate params shake128 encoded).Returns (.error .invalidExpandedPrivateKey) := by
  by_cases hcodes : ValidCodes parameterSet (splitExpanded parameterSet encoded.toList).s1
      (columns parameterSet) ∧
    ValidCodes parameterSet (splitExpanded parameterSet encoded.toList).s2 (rows parameterSet)
  · have hreturns := @returns_validate_of_validCodes parameterSet params shake128 encoded _ rfl
      hcodes.1 hcodes.2
    by_cases ht0 : packedLowParts (publicVector parameterSet
        (splitExpanded parameterSet encoded.toList) matrix) =
          (splitExpanded parameterSet encoded.toList).t0
    · exact .inl ((hreturns _).mpr ⟨matrix, hmatrix, (if_pos ht0).symm⟩)
    · exact .inr ((hreturns _).mpr ⟨matrix, hmatrix, (if_neg ht0).symm⟩)
  · exact .inr (returns_validate_of_not_validCodes hcodes)

/-- The validation accepts the consistent keys. On every stream from which the matrix can be
sampled, it returns whether the key is consistent.

Assumes of the third-party packings the laws of `MlDsaParams`, and nothing of SHAKE128, whose
stream may never have enough coefficients. -/
theorem validate_accepts_consistent_keys (params : MlDsaParams parameterSet)
    (shake128 : ByteString → ℕ → UInt8)
    (encoded : List.Vector UInt8 parameterSet.expandedPrivateKeyLength) :
    ((validate params shake128 encoded).Returns (.ok ()) ↔
      IsConsistent parameterSet shake128 (splitExpanded parameterSet encoded.toList)) ∧
    ((∃ matrix : Matrix (Fin (rows parameterSet)) (Fin (columns parameterSet)) Polynomials,
        IsExpandA shake128 (splitExpanded parameterSet encoded.toList).rho matrix) →
      (validate params shake128 encoded).Returns (.ok ()) ∨
        (validate params shake128 encoded).Returns (.error .invalidExpandedPrivateKey)) :=
  ⟨returns_validate_ok_iff, fun ⟨_, hmatrix⟩ ↦ returns_validate_of_isExpandA hmatrix⟩

end Result

end SoftwareKeyCore.MlDsaValidation
