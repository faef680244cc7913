import SoftwareKeyCore.Digest
import SoftwareKeyCore.Foundation.CallbackSession
import SoftwareKeyCore.Foundation.CheckedSlice
import SoftwareKeyCore.Foundation.CounterStream

/-!
# MGF1 and the X9.63 KDF

`digest.rs`, `x963_kdf` next to `mgf1`. Both hash a secret and a counter of four bytes, from zero in
`mgf1` and from one in `x963_kdf`. `mgf1` cuts the digests to the output after the last one, and
`x963_kdf` cuts each one to what is missing; the difference that is missing and the slice of the
digest are checked, so that an underflow is a panic of the model. So is a capacity that overflows:
both functions copy what they hash into a vector (`Allocated.mgf1`, `x963Step`).

`ReadsCounterStream` is what a derivation from a counter stream is: an output is the start of the
stream, whatever its length, and no counter is truncated or used twice.
`mgf1_x963Kdf_readCounterStreams` is that both functions are such derivations, with their exact
limits.
-/

set_option autoImplicit false
set_option relaxedAutoImplicit false

namespace SoftwareKeyCore.Digest

open ByteString CallbackSession CheckedSlice CounterStream FallibleResult Panicking

/-- The body of the loop of `mgf1`, with the capacity of its vector: the state is the output. -/
def Allocated.mgf1Step (hashes : HashFunctions) (algorithm : HashAlgorithm) (seed : ByteString)
    (output : ByteString) (counter : ℕ) : Panicking DigestConstructionError ByteString := do
  let _ ← allocate (min (seed.length + 4) (2 ^ 64 - 1))
  pure (output ++ hashes.digest algorithm (seed ++ toBeBytes 4 counter))

/-- `mgf1`, with the capacities of its vectors. -/
def Allocated.mgf1 (hashes : HashFunctions) (algorithm : HashAlgorithm) (seed : ByteString)
    (outputLength : ℕ) : Panicking DigestConstructionError ByteString :=
  let blocks := divCeil outputLength algorithm.outputLength
  if 1 ≤ blocks ∧ 2 ^ 32 - 1 < blocks - 1 then throw .outputTooLong
  else do
    let _ ← allocate outputLength
    let output ← (List.range blocks).foldlM (Allocated.mgf1Step hashes algorithm seed) []
    pure (output.take outputLength)

/-- The body of the loop of `x963_kdf`: the state is the output. -/
def x963Step (hashes : HashFunctions) (algorithm : HashAlgorithm) (secret sharedData : ByteString)
    (inputLength outputLength : ℕ) (output : ByteString) (counter : ℕ) :
    Panicking DigestConstructionError ByteString := do
  let _ ← allocate inputLength
  let block := hashes.digest algorithm (secret ++ toBeBytes 4 counter ++ sharedData)
  let remaining ← orPanic (subtract outputLength output.length)
  let part ← orPanic (sliceTo block (min remaining block.length))
  pure (output ++ part)

/-- `x963_kdf`. -/
def x963Kdf (hashes : HashFunctions) (algorithm : HashAlgorithm) (secret sharedData : ByteString)
    (outputLength : ℕ) : Panicking DigestConstructionError ByteString :=
  let blocks := divCeil outputLength algorithm.outputLength
  if outputLength = 0 ∨ 2 ^ 32 - 1 < blocks then throw .outputTooLong
  else do
    let length ← orThrow (orError .outputTooLong (checkedAdd secret.length 4))
    let inputLength ← orThrow (orError .outputTooLong (checkedAdd length sharedData.length))
    let _ ← allocate outputLength
    (List.range' 1 blocks).foldlM
      (x963Step hashes algorithm secret sharedData inputLength outputLength) []

variable {hashes : HashFunctions} {algorithm : HashAlgorithm} {seed secret sharedData : ByteString}
  {outputLength : ℕ}

/-! ### Capacities -/

/-- An output of at most `2 ^ 32` blocks fits in a vector. -/
theorem outputLength_le_isizeMax (hblocks : divCeil outputLength algorithm.outputLength ≤ 2 ^ 32) :
    outputLength ≤ isizeMax := by
  have hsize := algorithm.outputLength_le
  calc outputLength ≤ divCeil outputLength algorithm.outputLength * algorithm.outputLength :=
        le_divCeil_mul algorithm.outputLength_pos
    _ ≤ 2 ^ 32 * 64 := Nat.mul_le_mul hblocks hsize
    _ ≤ isizeMax := by decide

/-- The loop of `mgf1` appends the digests of the counters. -/
theorem answer_foldlM_mgf1Step (hseed : seed.length + 4 ≤ isizeMax) (counters : List ℕ)
    (output : ByteString) :
    answer (counters.foldlM (Allocated.mgf1Step hashes algorithm seed) output) =
      some (.ok (output ++ counters.flatMap fun counter ↦
        hashes.digest algorithm (seed ++ toBeBytes 4 counter))) := by
  have hinput : min (seed.length + 4) (2 ^ 64 - 1) ≤ isizeMax := (min_le_left _ _).trans hseed
  induction counters generalizing output with
  | nil => rw [List.foldlM_nil, answer_pure, List.flatMap_nil, List.append_nil]
  | cons counter counters ih =>
    have hstep : answer (Allocated.mgf1Step hashes algorithm seed output counter) =
        some (.ok (output ++ hashes.digest algorithm (seed ++ toBeBytes 4 counter))) := by
      rw [Allocated.mgf1Step, answer_bind_of_ok (answer_allocate_of_le hinput), answer_pure]
    rw [List.foldlM_cons, answer_bind_of_ok hstep, List.flatMap_cons, ← List.append_assoc]
    exact ih _

/-- A seed that fits in a vector with its counter leaves `mgf1` as it is without capacities. -/
theorem answer_allocated_mgf1 (hseed : seed.length + 4 ≤ isizeMax) :
    answer (Allocated.mgf1 hashes algorithm seed outputLength) =
      some (mgf1 hashes algorithm seed outputLength) := by
  unfold Allocated.mgf1 mgf1
  dsimp only
  by_cases hlong : 1 ≤ divCeil outputLength algorithm.outputLength ∧
      2 ^ 32 - 1 < divCeil outputLength algorithm.outputLength - 1
  · rw [if_pos hlong, if_pos hlong, answer_throw]
  · have hblocks : divCeil outputLength algorithm.outputLength ≤ 2 ^ 32 := by omega
    rw [if_neg hlong, if_neg hlong,
      answer_bind_of_ok (answer_allocate_of_le (outputLength_le_isizeMax hblocks)),
      answer_bind_of_ok (answer_foldlM_mgf1Step hseed _ _), answer_pure, List.nil_append,
      mgf1Stream]

/-! ### What `x963_kdf` computes -/

/-- What `x963_kdf` accepts. -/
structure X963Accepts (algorithm : HashAlgorithm) (outputLength : ℕ) : Prop where
  outputLength_ne_zero : outputLength ≠ 0
  blocks_le : divCeil outputLength algorithm.outputLength ≤ 2 ^ 32 - 1

/-- The block of a counter of `x963_kdf`. -/
def x963Block (hashes : HashFunctions) (algorithm : HashAlgorithm) (secret sharedData : ByteString)
    (counter : ℕ) : ByteString :=
  hashes.digest algorithm (secret ++ toBeBytes 4 counter ++ sharedData)

/-- The loop of `x963_kdf` computes the stream of the blocks, cut to the length of the output. -/
theorem answer_foldlM_x963Step (counters : List ℕ) {inputLength : ℕ} {output : ByteString}
    (hinput : inputLength ≤ isizeMax) (houtput : output.length ≤ outputLength) :
    answer (counters.foldlM
        (x963Step hashes algorithm secret sharedData inputLength outputLength) output) =
      some (.ok (output ++ (counters.flatMap (x963Block hashes algorithm secret sharedData)).take
        (outputLength - output.length))) := by
  refine answer_foldlM_append_take (fun counter _ output houtput ↦ ?_) houtput
  unfold x963Step
  rw [answer_bind_of_ok (answer_allocate_of_le hinput)]
  dsimp only
  rw [subtract_eq_some houtput, orPanic_some_bind, sliceTo_eq_some (min_le_right _ _),
    orPanic_some_bind, answer_pure, x963Block]

/-- `x963_kdf` answers with the start of its counter stream, when its hash input fits in a vector.
-/
theorem answer_x963Kdf (haccepts : X963Accepts algorithm outputLength)
    (hinput : secret.length + 4 + sharedData.length ≤ isizeMax) :
    answer (x963Kdf hashes algorithm secret sharedData outputLength) =
      some (.ok ((counterStream (x963Block hashes algorithm secret sharedData) 1
        (divCeil outputLength algorithm.outputLength)).take outputLength)) := by
  have hblocks := haccepts.blocks_le
  have hlimit : ¬ (outputLength = 0 ∨ 2 ^ 32 - 1 < divCeil outputLength algorithm.outputLength) := by
    rintro (hzero | hlong)
    · exact haccepts.outputLength_ne_zero hzero
    · exact absurd hblocks (not_le.mpr hlong)
  have hword : secret.length + 4 + sharedData.length < 2 ^ 64 := by
    unfold isizeMax at hinput
    omega
  have hsecret : secret.length + 4 < 2 ^ 64 := by omega
  have houtput := outputLength_le_isizeMax (hblocks.trans (by decide))
  unfold x963Kdf
  dsimp only
  rw [if_neg hlimit, checkedAdd_eq_some_iff.mpr ⟨hsecret, rfl⟩, orThrow_orError_some_bind,
    checkedAdd_eq_some_iff.mpr ⟨hword, rfl⟩, orThrow_orError_some_bind,
    answer_bind_of_ok (answer_allocate_of_le houtput),
    answer_foldlM_x963Step _ hinput (Nat.zero_le _)]
  rfl

/-- What `x963_kdf` does not accept it refuses with one error. -/
theorem answer_x963Kdf_of_not (hrefuses : ¬ X963Accepts algorithm outputLength) :
    answer (x963Kdf hashes algorithm secret sharedData outputLength) =
      some (.error .outputTooLong) := by
  unfold x963Kdf
  dsimp only
  rw [if_pos, answer_throw]
  by_contra hlimit
  rw [not_or, not_lt] at hlimit
  exact hrefuses ⟨hlimit.1, hlimit.2⟩

/-! ### Derivations from a counter stream -/

/-- A derivation from the stream of the hashes of a counter of four bytes. It refuses every length
that it does not accept with one error. For an accepted length the output is the start of the
stream of that length, and the start of it is the output for a shorter accepted length; and the
counters are encoded without truncation and are distinct. -/
structure ReadsCounterStream
    (derive : ℕ → Option (Except DigestConstructionError ByteString)) (accepts : ℕ → Prop)
    (hash : ByteString → ByteString) (first size : ℕ) : Prop where
  refuses_iff : ∀ length, derive length = some (.error .outputTooLong) ↔ ¬ accepts length
  derives : ∀ length, accepts length → ∃ output, derive length = some (.ok output) ∧
    IsStreamPrefix (fun counter ↦ hash (toBeBytes 4 counter)) first size length output
  derives_take : ∀ {shorter longer output}, accepts shorter → shorter ≤ longer →
    derive longer = some (.ok output) → derive shorter = some (.ok (output.take shorter))
  fromBeBytes_counter : ∀ length, accepts length →
    ∀ counter ∈ List.range' first (divCeil length size),
      fromBeBytes (toBeBytes 4 counter) = counter
  nodup_counters : ∀ length, accepts length →
    ((List.range' first (divCeil length size)).map (toBeBytes 4)).Nodup

/-- A function that answers with the start of a counter stream on what it accepts, and with one
error elsewhere, is a derivation from the stream, if its counters fit into four bytes. -/
theorem readsCounterStream_of_take
    {derive : ℕ → Option (Except DigestConstructionError ByteString)} {accepts : ℕ → Prop}
    {hash : ByteString → ByteString} {first size : ℕ} (hsize : 0 < size)
    (hhash : ∀ counter, (hash counter).length = size)
    (hderives : ∀ length, accepts length → derive length = some (.ok
      ((counterStream (fun counter ↦ hash (toBeBytes 4 counter)) first
        (divCeil length size)).take length)))
    (hrefuses : ∀ length, ¬ accepts length → derive length = some (.error .outputTooLong))
    (hcounters : ∀ length, accepts length → first + divCeil length size ≤ 2 ^ 32) :
    ReadsCounterStream derive accepts hash first size := by
  have hstart : ∀ length, IsStreamPrefix (fun counter ↦ hash (toBeBytes 4 counter)) first size
      length ((counterStream (fun counter ↦ hash (toBeBytes 4 counter)) first
        (divCeil length size)).take length) :=
    fun length ↦ isStreamPrefix_take (fun counter ↦ hhash _) first (le_divCeil_mul hsize)
  have hfits : ∀ length, accepts length → ∀ counter ∈ List.range' first (divCeil length size),
      fromBeBytes (toBeBytes 4 counter) = counter := by
    intro length haccepts counter hcounter
    have hlimit := hcounters length haccepts
    rw [List.mem_range'_1] at hcounter
    exact fromBeBytes_toBeBytes_of_lt (by omega)
  refine ⟨fun length ↦ ?_, fun length haccepts ↦ ?_, fun {shorter longer output} haccepts hle hlonger
    ↦ ?_, hfits, fun length haccepts ↦ ?_⟩
  · by_cases haccepts : accepts length
    · rw [hderives length haccepts]
      exact iff_of_false (by simp) (not_not.mpr haccepts)
    · exact iff_of_true (hrefuses length haccepts) haccepts
  · exact ⟨_, hderives length haccepts, hstart length⟩
  · have hlong : accepts longer := by
      by_contra hlong
      rw [hrefuses longer hlong] at hlonger
      simp at hlonger
    rw [hderives longer hlong, Option.some.injEq, Except.ok.injEq] at hlonger
    rw [hderives shorter haccepts, (hstart shorter).eq ((hlonger ▸ hstart longer).take hle)]
  · refine List.Nodup.map_on ?_ List.nodup_range'
    intro left hleft right hright hbytes
    rw [← hfits length haccepts left hleft, hbytes, hfits length haccepts right hright]

/-- MGF1 and the X9.63 KDF are derivations from one counter stream each. For every hash, every seed,
secret and shared data whose hash inputs fit in a vector: `mgf1` accepts exactly up to `2 ^ 32`
blocks of counters from zero, and `x963_kdf` exactly from one byte up to `2 ^ 32 - 1` blocks of
counters from one. Assumes that `seed.length + 4` and `secret.length + 4 + sharedData.length`, the
capacities of those vectors, are at most `isize::MAX`. -/
theorem mgf1_x963Kdf_readCounterStreams (hashes : HashFunctions) (algorithm : HashAlgorithm)
    (seed secret sharedData : ByteString) (hseed : seed.length + 4 ≤ isizeMax)
    (hinput : secret.length + 4 + sharedData.length ≤ isizeMax) :
    ReadsCounterStream (fun length ↦ answer (Allocated.mgf1 hashes algorithm seed length))
        (fun length ↦ divCeil length algorithm.outputLength ≤ 2 ^ 32)
        (fun counter ↦ hashes.digest algorithm (seed ++ counter)) 0 algorithm.outputLength ∧
      ReadsCounterStream (fun length ↦ answer (x963Kdf hashes algorithm secret sharedData length))
        (fun length ↦ length ≠ 0 ∧ divCeil length algorithm.outputLength ≤ 2 ^ 32 - 1)
        (fun counter ↦ hashes.digest algorithm (secret ++ counter ++ sharedData)) 1
        algorithm.outputLength := by
  have hsize := algorithm.outputLength_pos
  constructor
  · have hlimit : ∀ length, WithinMgf1Limit algorithm length ↔
        divCeil length algorithm.outputLength ≤ 2 ^ 32 := fun length ↦ (divCeil_le_iff hsize).symm
    refine readsCounterStream_of_take hsize (fun counter ↦ hashes.length_digest _ _) ?_ ?_ ?_
    · intro length haccepts
      rw [answer_allocated_mgf1 hseed, mgf1_eq_ok hashes ((hlimit length).mpr haccepts),
        mgf1Stream, List.range_eq_range']
      rfl
    · intro length hrefuses
      rw [answer_allocated_mgf1 hseed,
        mgf1_eq_error hashes fun haccepts ↦ hrefuses ((hlimit length).mp haccepts)]
    · intro length haccepts
      rwa [zero_add]
  · refine readsCounterStream_of_take hsize (fun counter ↦ hashes.length_digest _ _) ?_ ?_ ?_
    · rintro length ⟨hlength, hblocks⟩
      exact answer_x963Kdf ⟨hlength, hblocks⟩ hinput
    · intro length hrefuses
      exact answer_x963Kdf_of_not fun haccepts ↦ hrefuses
        ⟨haccepts.outputLength_ne_zero, haccepts.blocks_le⟩
    · rintro length ⟨-, hblocks⟩
      omega

/-- Digests that are the last bytes of a message, in reverse order. -/
def reversingHashes : HashFunctions where
  digest algorithm message := resize message.reverse algorithm.outputLength 0
  length_digest algorithm message := length_resize message.reverse algorithm.outputLength 0

/-- The output of 25 bytes has two counters, and its first 20 bytes are the output of 20; a mask of
no bytes and one of 30 are not refused. -/
theorem mgf1_x963Kdf_readCounterStreams_sha1 :
    ∃ long, answer (x963Kdf reversingHashes .sha1 [1, 2] [3] 25) = some (.ok long) ∧
      long.take 7 = [3, 1, 0, 0, 0, 2, 1] ∧ long.drop 20 = [3, 2, 0, 0, 0] ∧
      answer (x963Kdf reversingHashes .sha1 [1, 2] [3] 20) = some (.ok (long.take 20)) ∧
      ∀ length ∈ [0, 30], answer (Allocated.mgf1 reversingHashes .sha1 [4, 5] length) ≠
        some (.error .outputTooLong) := by
  obtain ⟨hmgf1, hx963⟩ := mgf1_x963Kdf_readCounterStreams reversingHashes .sha1 [4, 5] [1, 2] [3]
    (by decide) (by decide)
  have hlong : answer (x963Kdf reversingHashes .sha1 [1, 2] [3] 25) = some (.ok
      ([3, 1, 0, 0, 0, 2, 1] ++ List.replicate 13 0 ++ [3, 2, 0, 0, 0])) := by decide +kernel
  refine ⟨_, hlong, rfl, rfl, hx963.derives_take ⟨by decide, by decide⟩ (by decide) hlong, ?_⟩
  intro length hlength hrefused
  refine (hmgf1.refuses_iff length).mp hrefused ?_
  fin_cases hlength <;> decide

end SoftwareKeyCore.Digest
