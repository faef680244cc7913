import SoftwareKeyCore.Foundation.BitPacking
import SoftwareKeyCore.Foundation.FuelledComputation
import SoftwareKeyCore.PostQuantum.MlDsaNtt

/-!
# The sampling of the matrix of ML-DSA

`post_quantum/ml_dsa_validation.rs`, the innermost loops of `validate`: the coefficients of an entry
of the matrix are read from a stream of bytes, three at a time, and multiplied with a column as they
come. A candidate of 23 bits that is not below `q` is dropped, so on some streams the loop does not
return.

`accepted` is what remains of the first candidates of a stream, and `IsRejectionSample` is that
exactly the coefficients of an entry remain. `returns_accumulateColumn_tabulate` is what the loops
return.
-/

set_option autoImplicit false
set_option relaxedAutoImplicit false

namespace SoftwareKeyCore.MlDsaValidation

open BitPacking Fuelled TabulatedList

/-! ### The loops -/

/-- The body of the rejection loop, at a position of the reader. -/
def readCoefficient (stream : ℕ → UInt8) (position : ℕ) : ℕ ⊕ (ℕ × ℕ) :=
  let value := fromLeBytes
    [stream position, stream (position + 1), stream (position + 2) &&& 0x7f, 0]
  if value < q then .inr (value, position + 3) else .inl (position + 3)

/-- The rejection loop: a coefficient, and the position of the reader after it. -/
def sampleCoefficient (stream : ℕ → UInt8) (position : ℕ) : Fuelled (ℕ × ℕ) :=
  iterate (readCoefficient stream) position

/-- The loop over the pairs of an accumulator and the coefficient of a secret. -/
def accumulateColumn (stream : ℕ → UInt8) : (position : ℕ) → (pairs : List (Elem × Elem)) →
    Fuelled (List Elem)
  | _, [] => pure []
  | position, (accumulator, secret) :: pairs => do
    let (coefficient, position) ← sampleCoefficient stream position
    let product ← accumulateColumn stream position pairs
    pure ((accumulator + (coefficient : Elem) * secret) :: product)

/-! ### Rejection sampling -/

/-- The candidate at an index: 23 bits of a stream. -/
def candidate (stream : ℕ → UInt8) (index : ℕ) : ℕ :=
  fromLeBytes [stream (3 * index), stream (3 * index + 1), stream (3 * index + 2)] % 2 ^ 23

/-- The candidates below `q` among some candidates of a stream. -/
def accepted (stream : ℕ → UInt8) (start count : ℕ) : List ℕ :=
  ((List.range' start count).map (candidate stream)).filter fun value ↦ value < q

/-- The values are the first 256 candidates below `q` of the stream. -/
def IsRejectionSample (stream : ℕ → UInt8) (values : ℕ → ℕ) : Prop :=
  ∃ count, accepted stream 0 count = tabulate 256 values

section Sampling

variable {stream : ℕ → UInt8} {start : ℕ}

theorem accepted_succ_of_lt (hcandidate : candidate stream start < q) (count : ℕ) :
    accepted stream start (count + 1) =
      candidate stream start :: accepted stream (start + 1) count := by
  rw [accepted, List.range'_succ, List.map_cons,
    List.filter_cons_of_pos (by simpa using hcandidate)]
  rfl

theorem accepted_succ_of_not_lt (hcandidate : ¬candidate stream start < q) (count : ℕ) :
    accepted stream start (count + 1) = accepted stream (start + 1) count := by
  rw [accepted, List.range'_succ, List.map_cons,
    List.filter_cons_of_neg (by simpa using hcandidate)]
  rfl

/-- The body reads a candidate. -/
theorem fromLeBytes_masked (low middle high : UInt8) :
    fromLeBytes [low, middle, high &&& 0x7f, 0] = fromLeBytes [low, middle, high] % 2 ^ 23 := by
  have hmask : (high &&& 0x7f).toNat = high.toNat % 2 ^ 7 := by
    rw [UInt8.toNat_and]
    exact Nat.and_two_pow_sub_one_eq_mod _ 7
  have hzero : (0 : UInt8).toNat = 0 := rfl
  have hlow : low.toNat < 256 := low.toNat_lt
  have hmiddle : middle.toNat < 256 := middle.toNat_lt
  simp only [fromLeBytes_cons, fromLeBytes_nil, hmask, hzero]
  omega

theorem readCoefficient_of_lt (hcandidate : candidate stream start < q) :
    readCoefficient stream (3 * start) = .inr (candidate stream start, 3 * (start + 1)) := by
  have hvalue := fromLeBytes_masked (stream (3 * start)) (stream (3 * start + 1))
    (stream (3 * start + 2))
  rw [readCoefficient, hvalue]
  exact if_pos hcandidate

theorem readCoefficient_of_not_lt (hcandidate : ¬candidate stream start < q) :
    readCoefficient stream (3 * start) = .inl (3 * (start + 1)) := by
  have hvalue := fromLeBytes_masked (stream (3 * start)) (stream (3 * start + 1))
    (stream (3 * start + 2))
  rw [readCoefficient, hvalue]
  exact if_neg hcandidate

/-- The rejection loop returns the first candidate below `q`. -/
theorem exists_accepted_of_returns {value position : ℕ}
    (hreturns : (sampleCoefficient stream (3 * start)).Returns (value, position)) :
    ∃ count, position = 3 * (start + count) ∧
      ∀ more, accepted stream start (count + more) =
        value :: accepted stream (start + count) more := by
  refine hreturns.iterate_induction (motive := fun state ↦ ∀ index, state = 3 * index →
    ∃ count, position = 3 * (index + count) ∧ ∀ more, accepted stream index (count + more) =
      value :: accepted stream (index + count) more) ?_ ?_ start rfl
  · intro state hbody index hindex
    subst hindex
    by_cases hcandidate : candidate stream index < q
    · rw [readCoefficient_of_lt hcandidate, Sum.inr.injEq, Prod.mk.injEq] at hbody
      refine ⟨1, hbody.2.symm, fun more ↦ ?_⟩
      rw [add_comm 1 more, accepted_succ_of_lt hcandidate, hbody.1]
    · rw [readCoefficient_of_not_lt hcandidate] at hbody
      exact absurd hbody Sum.inl_ne_inr
  · intro state next hbody ih index hindex
    subst hindex
    by_cases hcandidate : candidate stream index < q
    · rw [readCoefficient_of_lt hcandidate] at hbody
      exact absurd hbody Sum.inr_ne_inl
    · rw [readCoefficient_of_not_lt hcandidate, Sum.inl.injEq] at hbody
      obtain ⟨count, hposition, haccepted⟩ := ih (index + 1) hbody.symm
      have hcount : index + (count + 1) = index + 1 + count := by ring
      refine ⟨count + 1, by rw [hposition, hcount], fun more ↦ ?_⟩
      rw [add_right_comm, accepted_succ_of_not_lt hcandidate, haccepted, hcount]

/-- A product with the accepted candidates. -/
def multiplyAccepted (pairs : List (Elem × Elem)) (values : List ℕ) : List Elem :=
  List.zipWith (fun (pair : Elem × Elem) (value : ℕ) ↦ pair.1 + (value : Elem) * pair.2) pairs
    values

/-- The loops that returned multiplied with accepted candidates. -/
theorem exists_accepted_of_accumulateColumn {pairs : List (Elem × Elem)} {result : List Elem}
    (hreturns : (accumulateColumn stream (3 * start) pairs).Returns result) :
    ∃ count, (accepted stream start count).length = pairs.length ∧
      result = multiplyAccepted pairs (accepted stream start count) := by
  induction pairs generalizing start result with
  | nil =>
    rw [accumulateColumn, returns_pure] at hreturns
    exact ⟨0, rfl, hreturns.symm⟩
  | cons pair pairs ih =>
    simp only [accumulateColumn, returns_bind, returns_pure] at hreturns
    obtain ⟨⟨value, position⟩, hvalue, product, hproduct, rfl⟩ := hreturns
    obtain ⟨count, rfl, haccepted⟩ := exists_accepted_of_returns hvalue
    obtain ⟨more, hlength, rfl⟩ := ih hproduct
    refine ⟨count + more, ?_, ?_⟩
    · rw [haccepted, List.length_cons, List.length_cons, hlength]
    · rw [haccepted]
      rfl

/-- A dropped candidate does not change what the loops return. -/
theorem returns_accumulateColumn_of_not_lt (hcandidate : ¬candidate stream start < q)
    {pairs : List (Elem × Elem)} {result : List Elem}
    (hreturns : (accumulateColumn stream (3 * (start + 1)) pairs).Returns result) :
    (accumulateColumn stream (3 * start) pairs).Returns result := by
  cases pairs with
  | nil => exact hreturns
  | cons pair pairs =>
    rw [accumulateColumn, returns_bind] at hreturns ⊢
    obtain ⟨middle, hmiddle, hrest⟩ := hreturns
    refine ⟨middle, ?_, hrest⟩
    exact (returns_iterate_next (readCoefficient_of_not_lt hcandidate)).mpr hmiddle

/-- The loops return when enough candidates are accepted. -/
theorem returns_accumulateColumn_of_length {count : ℕ} {pairs : List (Elem × Elem)}
    (hlength : (accepted stream start count).length = pairs.length) :
    (accumulateColumn stream (3 * start) pairs).Returns
      (multiplyAccepted pairs (accepted stream start count)) := by
  induction count generalizing start pairs with
  | zero =>
    obtain rfl : pairs = [] := List.eq_nil_of_length_eq_zero hlength.symm
    exact returns_pure.mpr rfl
  | succ count ih =>
    by_cases hcandidate : candidate stream start < q
    · rw [accepted_succ_of_lt hcandidate] at hlength ⊢
      rcases pairs with - | ⟨pair, pairs⟩
      · exact absurd hlength (Nat.succ_ne_zero _)
      · have hrest := ih (Nat.succ.inj hlength)
        simp only [accumulateColumn, returns_bind, returns_pure]
        refine ⟨(candidate stream start, 3 * (start + 1)), ?_, _, hrest, rfl⟩
        exact returns_iterate_done (readCoefficient_of_lt hcandidate)
    · rw [accepted_succ_of_not_lt hcandidate] at hlength ⊢
      exact returns_accumulateColumn_of_not_lt hcandidate (ih hlength)

end Sampling

/-- What the loops return: the products with a rejection sample of the stream. -/
theorem returns_accumulateColumn_tabulate {stream : ℕ → UInt8} {product column : ℕ → Elem}
    {result : List Elem} :
    (accumulateColumn stream 0 ((tabulate 256 product).zip (tabulate 256 column))).Returns result ↔
      ∃ values, IsRejectionSample stream values ∧
        result = tabulate 256 fun index ↦
          product index + (values index : Elem) * column index := by
  have hpairs : (tabulate 256 product).zip (tabulate 256 column) =
      tabulate 256 fun index ↦ (product index, column index) :=
    zipWith_tabulate Prod.mk product column
  have hproduct : ∀ values : ℕ → ℕ,
      multiplyAccepted (tabulate 256 fun index ↦ (product index, column index))
        (tabulate 256 values) =
      tabulate 256 fun index ↦ product index + (values index : Elem) * column index :=
    fun values ↦ zipWith_tabulate _ _ values
  rw [hpairs]
  constructor
  · intro hreturns
    obtain ⟨count, hlength, rfl⟩ := @exists_accepted_of_accumulateColumn stream 0 _ _ hreturns
    have hsample := tabulate_getD (accepted stream 0 count) 0
    rw [hlength, length_tabulate] at hsample
    refine ⟨fun index ↦ (accepted stream 0 count).getD index 0, ⟨count, hsample.symm⟩, ?_⟩
    rw [← hproduct, hsample]
  · rintro ⟨values, ⟨count, hsample⟩, rfl⟩
    have hlength : (accepted stream 0 count).length =
        (tabulate 256 fun index ↦ (product index, column index)).length := by
      rw [hsample, length_tabulate, length_tabulate]
    have hreturns := returns_accumulateColumn_of_length hlength
    rw [hsample, hproduct] at hreturns
    exact hreturns

end SoftwareKeyCore.MlDsaValidation
