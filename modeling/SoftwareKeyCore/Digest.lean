import SoftwareKeyCore.Foundation.ByteString

/-!
# Hash algorithms and MGF1

`digest.rs`: the nine hash algorithms with their output lengths, and the mask generation function
`mgf1`. The hash functions themselves are third-party code. `HashFunctions` is a family of them,
one for each algorithm, that carries the one fact the constructions rely on: a digest has the
output length of its algorithm.

`mgf1_eq_ok` and `mgf1_eq_error` are what `mgf1` answers on either side of its length limit, and
`length_mgf1` that an answered mask has exactly the requested length.
-/

set_option autoImplicit false
set_option relaxedAutoImplicit false

namespace SoftwareKeyCore

/-- `HashAlgorithm`. -/
inductive HashAlgorithm
  | sha1
  | sha224
  | sha256
  | sha384
  | sha512
  | sha3_224
  | sha3_256
  | sha3_384
  | sha3_512
  deriving DecidableEq, Repr

namespace HashAlgorithm

/-- `HashAlgorithm::output_length`, in bytes. -/
def outputLength : HashAlgorithm → ℕ
  | sha1 => 20
  | sha224 | sha3_224 => 28
  | sha256 | sha3_256 => 32
  | sha384 | sha3_384 => 48
  | sha512 | sha3_512 => 64

theorem outputLength_pos (algorithm : HashAlgorithm) : 0 < algorithm.outputLength := by
  cases algorithm <;> decide

theorem outputLength_le (algorithm : HashAlgorithm) : algorithm.outputLength ≤ 64 := by
  cases algorithm <;> decide

theorem le_outputLength (algorithm : HashAlgorithm) : 20 ≤ algorithm.outputLength := by
  cases algorithm <;> decide

end HashAlgorithm

/-- The hash functions, with digests of the declared lengths. -/
structure HashFunctions where
  digest : HashAlgorithm → ByteString → ByteString
  length_digest : ∀ algorithm message, (digest algorithm message).length = algorithm.outputLength

/-- `DigestConstructionError`. -/
inductive DigestConstructionError
  | invalidPseudoRandomKey
  | outputTooLong
  deriving DecidableEq, Repr

namespace Digest

open ByteString

variable (hashes : HashFunctions)

/-- `usize::div_ceil`. -/
def divCeil (length size : ℕ) : ℕ :=
  (length + size - 1) / size

/-- The concatenated digests of a seed followed by the counters below `blocks`. -/
def mgf1Stream (algorithm : HashAlgorithm) (seed : ByteString) (blocks : ℕ) : ByteString :=
  (List.range blocks).flatMap fun counter ↦
    hashes.digest algorithm (seed ++ toBeBytes 4 counter)

/-- `mgf1`. -/
def mgf1 (algorithm : HashAlgorithm) (seed : ByteString) (outputLength : ℕ) :
    Except DigestConstructionError ByteString :=
  let blocks := divCeil outputLength algorithm.outputLength
  if 1 ≤ blocks ∧ 2 ^ 32 - 1 < blocks - 1 then .error .outputTooLong
  else .ok ((mgf1Stream hashes algorithm seed blocks).take outputLength)

theorem length_mgf1Stream (algorithm : HashAlgorithm) (seed : ByteString) (blocks : ℕ) :
    (mgf1Stream hashes algorithm seed blocks).length = blocks * algorithm.outputLength := by
  induction blocks with
  | zero => simp [mgf1Stream]
  | succ blocks ih =>
    rw [mgf1Stream, List.range_succ, List.flatMap_append, List.length_append, ← mgf1Stream, ih,
      List.flatMap_singleton, hashes.length_digest, Nat.succ_mul]

theorem le_divCeil_mul {length size : ℕ} (hsize : 0 < size) :
    length ≤ divCeil length size * size := by
  have hsplit := Nat.div_add_mod (length + size - 1) size
  have hlt := Nat.mod_lt (length + size - 1) hsize
  rw [divCeil, mul_comm]
  omega

/-- A rounded-up quotient is at most `bound` exactly when the length is at most `bound` parts. -/
theorem divCeil_le_iff {length size bound : ℕ} (hsize : 0 < size) :
    divCeil length size ≤ bound ↔ length ≤ bound * size := by
  rw [divCeil, ← Nat.lt_succ_iff, Nat.div_lt_iff_lt_mul hsize, Nat.succ_mul]
  omega

/-- The length limit of `mgf1`. -/
def WithinMgf1Limit (algorithm : HashAlgorithm) (outputLength : ℕ) : Prop :=
  outputLength ≤ 2 ^ 32 * algorithm.outputLength

/-- Within its limit `mgf1` answers with a mask. -/
theorem mgf1_eq_ok {algorithm : HashAlgorithm} {outputLength : ℕ}
    (hlimit : WithinMgf1Limit algorithm outputLength) (seed : ByteString) :
    mgf1 hashes algorithm seed outputLength = .ok ((mgf1Stream hashes algorithm seed
      (divCeil outputLength algorithm.outputLength)).take outputLength) := by
  have hblocks := (divCeil_le_iff algorithm.outputLength_pos).mpr hlimit
  unfold mgf1
  rw [if_neg]
  omega

/-- Past its limit `mgf1` refuses. -/
theorem mgf1_eq_error {algorithm : HashAlgorithm} {outputLength : ℕ}
    (hlimit : ¬ WithinMgf1Limit algorithm outputLength) (seed : ByteString) :
    mgf1 hashes algorithm seed outputLength = .error .outputTooLong := by
  have hblocks := mt (divCeil_le_iff algorithm.outputLength_pos).mp hlimit
  unfold mgf1
  rw [if_pos]
  omega

/-- A mask has exactly the requested length. -/
theorem length_mgf1 {algorithm : HashAlgorithm} {seed mask : ByteString} {outputLength : ℕ}
    (hmask : mgf1 hashes algorithm seed outputLength = .ok mask) : mask.length = outputLength := by
  by_cases hlimit : WithinMgf1Limit algorithm outputLength
  swap
  · rw [mgf1_eq_error hashes hlimit] at hmask
    simp at hmask
  rw [mgf1_eq_ok hashes hlimit] at hmask
  obtain rfl := Except.ok.inj hmask
  rw [List.length_take, length_mgf1Stream]
  exact min_eq_left (le_divCeil_mul algorithm.outputLength_pos)

end Digest

end SoftwareKeyCore
