import SoftwareKeyCore.PostQuantum.MlDsaPrivateKey
import SoftwareKeyCore.PostQuantum.MlDsaSampling

/-!
# Consistent expanded keys of ML-DSA

What the validation of expanded keys is for, over the ring of the polynomials modulo
`X ^ 256 + 1`: the layout of an expanded key (`splitExpanded`), the coefficients of its secrets
(`secretCoefficient`), the matrix that a seed expands to (`IsExpandA`), given by its values at the
powers of the root of unity, and the low parts of a vector of polynomials, packed
(`packedLowParts`). `IsConsistent` is that the low parts of a key are those of its matrix and
secrets.
-/

set_option autoImplicit false
set_option relaxedAutoImplicit false

namespace SoftwareKeyCore.MlDsaValidation

open BitPacking ByteString NegacyclicRing PostQuantum TabulatedList

/-! ### Parameter sets -/

/-- `MlDsaParams::K`, the number of rows of the matrix. -/
def rows : MlDsaParameterSet → ℕ
  | .mlDsa44 => 4
  | .mlDsa65 => 6
  | .mlDsa87 => 8

/-- `MlDsaParams::L`, the number of columns of the matrix. -/
def columns : MlDsaParameterSet → ℕ
  | .mlDsa44 => 4
  | .mlDsa65 => 5
  | .mlDsa87 => 7

/-- `MlDsaParams::Eta`, the bound of the coefficients of the secrets. -/
def eta : MlDsaParameterSet → ℕ
  | .mlDsa44 => 2
  | .mlDsa65 => 4
  | .mlDsa87 => 2

/-- The number of bits of a code of a secret. -/
def secretWidth (parameterSet : MlDsaParameterSet) : ℕ :=
  Nat.log2 (2 * eta parameterSet) + 1

/-- The parts of an expanded key. -/
structure SplitKey where
  rho : ByteString
  key : ByteString
  tr : ByteString
  s1 : ByteString
  s2 : ByteString
  t0 : ByteString
  deriving DecidableEq, Repr

/-- The layout of an expanded key. -/
def splitExpanded (parameterSet : MlDsaParameterSet) (encoded : ByteString) : SplitKey :=
  let s1Length := 32 * secretWidth parameterSet * columns parameterSet
  let s2Length := 32 * secretWidth parameterSet * rows parameterSet
  { rho := slice encoded 0 32
    key := slice encoded 32 32
    tr := slice encoded 64 64
    s1 := slice encoded 128 s1Length
    s2 := slice encoded (128 + s1Length) s2Length
    t0 := slice encoded (128 + s1Length + s2Length) (416 * rows parameterSet) }

theorem eta_bounds (parameterSet : MlDsaParameterSet) :
    0 < eta parameterSet ∧ Nat.log2 (2 * eta parameterSet) < 25 := by
  cases parameterSet <;> decide

/-- The parts fill the expanded key. -/
theorem expandedPrivateKeyLength_eq (parameterSet : MlDsaParameterSet) :
    parameterSet.expandedPrivateKeyLength =
      128 + 32 * secretWidth parameterSet * columns parameterSet +
        32 * secretWidth parameterSet * rows parameterSet + 416 * rows parameterSet := by
  cases parameterSet <;> decide

/-! ### Secrets -/

/-- The code of a coefficient of a packed secret. -/
def secretCode (parameterSet : MlDsaParameterSet) (encoded : ByteString) (row index : ℕ) : ℕ :=
  bitField (secretWidth parameterSet) encoded (256 * row + index)

/-- The coefficient of a secret. -/
def secretCoefficient (parameterSet : MlDsaParameterSet) (encoded : ByteString)
    (row index : ℕ) : Elem :=
  (eta parameterSet : Elem) - (secretCode parameterSet encoded row index : Elem)

/-- The codes of a secret of some polynomials are at most twice the bound of the coefficients. -/
def ValidCodes (parameterSet : MlDsaParameterSet) (encoded : ByteString) (count : ℕ) : Prop :=
  ∀ row < count, ∀ index < 256, secretCode parameterSet encoded row index ≤ 2 * eta parameterSet

/-- The codes of a secret are the fields of its encoding. -/
theorem validCodes_iff (parameterSet : MlDsaParameterSet) (encoded : ByteString) (count : ℕ) :
    ValidCodes parameterSet encoded count ↔ ∀ index < 256 * count,
      bitField (secretWidth parameterSet) encoded index ≤ 2 * eta parameterSet := by
  constructor
  · intro hcodes index hindex
    have hcode := hcodes (index / 256) (by omega) (index % 256) (by omega)
    rwa [secretCode, Nat.div_add_mod] at hcode
  · intro hfields row hrow index hindex
    exact hfields (256 * row + index) (by omega)

/-! ### The ring -/

/-- The ring of the polynomials, modulo `X ^ 256 + 1`. -/
abbrev Polynomials := NegacyclicRing Elem (2 ^ 8)

instance neZero_degree : NeZero (2 ^ 8) :=
  ⟨by decide⟩

/-- A secret as a vector of polynomials. -/
noncomputable def secretVector (parameterSet : MlDsaParameterSet) (encoded : ByteString)
    (count : ℕ) (row : Fin count) : Polynomials :=
  ofCoefficients (2 ^ 8) (secretCoefficient parameterSet encoded row)

/-- The point of an index: an odd power of the root of unity. -/
def nttPoint (index : ℕ) : Elem :=
  1753 ^ (2 * reverseBits index + 1)

theorem nttPoint_pow (index : ℕ) : nttPoint index ^ 2 ^ 8 = -1 := by
  have hsize : 2 ^ 8 = 256 := by norm_num
  rw [hsize, nttPoint, ← pow_mul, mul_comm, pow_mul, root_pow_half]
  exact Odd.neg_one_pow (odd_two_mul_add_one _)

/-- The matrix that a seed expands to: the values of an entry are a rejection sample of its
stream. -/
def IsExpandA {rowCount columnCount : ℕ} (shake128 : ByteString → ℕ → UInt8) (rho : ByteString)
    (matrix : Matrix (Fin rowCount) (Fin columnCount) Polynomials) : Prop :=
  ∀ (row : Fin rowCount) (column : Fin columnCount), ∃ values,
    IsRejectionSample (shake128 (rho ++ [UInt8.ofNat column, UInt8.ofNat row])) values ∧
      ∀ index < 256,
        evaluation (nttPoint index) (nttPoint_pow index) (matrix row column) = values index

/-! ### Low parts -/

/-- The residue of a value, as close to zero as possible. -/
def centeredMod (value modulus : ℕ) : ℤ :=
  if 2 * (value % modulus) ≤ modulus then (value % modulus : ℕ)
  else (value % modulus : ℕ) - (modulus : ℤ)

/-- The low part of a coefficient. -/
def lowPart (value : Elem) : ℤ :=
  centeredMod value.val (2 ^ 13)

/-- The code of a low part. -/
def lowPartCode (low : ℤ) : ℕ :=
  (4096 - low).toNat

/-- The low part of a coefficient lies around zero. -/
theorem lowPart_bounds (value : Elem) : -4096 < lowPart value ∧ lowPart value ≤ 4096 := by
  rw [lowPart, centeredMod]
  split_ifs
  · omega
  · omega

/-- The packed low parts of a vector of polynomials. -/
noncomputable def packedLowParts {count : ℕ} (vector : Fin count → Polynomials) : ByteString :=
  (List.ofFn fun row ↦ packFields 13
    (tabulate 256 fun index ↦ lowPartCode (lowPart (coefficient (vector row) index)))).flatten

/-- The vector `A * s1 + s2`. -/
noncomputable def publicVector (parameterSet : MlDsaParameterSet) (key : SplitKey)
    (matrix : Matrix (Fin (rows parameterSet)) (Fin (columns parameterSet)) Polynomials) :
    Fin (rows parameterSet) → Polynomials :=
  matrix.mulVec (secretVector parameterSet key.s1 (columns parameterSet)) +
    secretVector parameterSet key.s2 (rows parameterSet)

/-- A key whose low parts are those of its matrix and secrets. -/
structure IsConsistent (parameterSet : MlDsaParameterSet) (shake128 : ByteString → ℕ → UInt8)
    (key : SplitKey) : Prop where
  validS1 : ValidCodes parameterSet key.s1 (columns parameterSet)
  validS2 : ValidCodes parameterSet key.s2 (rows parameterSet)
  t0_eq : ∃ matrix, IsExpandA shake128 key.rho matrix ∧
    key.t0 = packedLowParts (publicVector parameterSet key matrix)

end SoftwareKeyCore.MlDsaValidation
