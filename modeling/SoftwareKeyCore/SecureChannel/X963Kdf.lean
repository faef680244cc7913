import SoftwareKeyCore.Digest.CounterStreams
import SoftwareKeyCore.SecureChannel

/-!
# The X9.63 KDF of the secure channel

`secure_channel.rs`, `x963_kdf_sha256`, which is written without the `x963_kdf` of `digest.rs`. It
hashes the secret, the counter and the shared information one after the other, and cuts the output
after the last block. It does not refuse an output of no bytes, as `x963_kdf` does, and has no
vector for what it hashes: `x963Kdf_agrees_iff` is that the output of no bytes is all that sets the
two functions apart for inputs that such a vector has room for.
-/

set_option autoImplicit false
set_option relaxedAutoImplicit false

namespace SoftwareKeyCore.SecureChannel

open ByteString CallbackSession CounterStream Digest Panicking

/-- `x963_kdf_sha256`. -/
def x963KdfSha256 (hashes : HashFunctions) (sharedSecret sharedInfo : ByteString)
    (outputLength : ℕ) : Except SecureChannelCryptoError ByteString :=
  let iterations := divCeil outputLength 32
  if 2 ^ 32 - 1 < iterations then .error .outputTooLong
  else
    let output := (List.range' 1 iterations).foldl (fun output counter ↦
      output ++ hashes.digest .sha256 (sharedSecret ++ toBeBytes 4 counter ++ sharedInfo)) []
    .ok (output.take outputLength)

variable {outputLength : ℕ}

/-- `x963_kdf_sha256` answers with the start of the counter stream of `x963_kdf`. -/
theorem x963KdfSha256_eq_ok (hblocks : divCeil outputLength 32 ≤ 2 ^ 32 - 1)
    (hashes : HashFunctions) (secret info : ByteString) :
    x963KdfSha256 hashes secret info outputLength =
      .ok ((counterStream (x963Block hashes .sha256 secret info) 1
        (divCeil outputLength 32)).take outputLength) := by
  unfold x963KdfSha256
  dsimp only
  rw [if_neg (not_lt.mpr hblocks), counterStream, List.flatMap_eq_foldl]
  rfl

/-- The two KDFs refuse both, or answer both with the same bytes of the requested length. -/
def X963KdfsAgree (hashes : HashFunctions) (secret info : ByteString) (outputLength : ℕ) : Prop :=
  (∃ error error', answer (x963Kdf hashes .sha256 secret info outputLength) = some (.error error) ∧
    x963KdfSha256 hashes secret info outputLength = .error error') ∨
  ∃ output, answer (x963Kdf hashes .sha256 secret info outputLength) = some (.ok output) ∧
    x963KdfSha256 hashes secret info outputLength = .ok output ∧ output.length = outputLength

/-- The two KDFs agree exactly where an output is asked for: one of no bytes `x963_kdf` refuses and
`x963_kdf_sha256` answers. Assumes that `secret.length + 4 + info.length`, the capacity of the
vector in which `x963_kdf` puts its hash input, is at most `isize::MAX`. -/
theorem x963Kdf_agrees_iff (hashes : HashFunctions) (secret info : ByteString) (outputLength : ℕ)
    (hinput : secret.length + 4 + info.length ≤ isizeMax) :
    X963KdfsAgree hashes secret info outputLength ↔ outputLength ≠ 0 := by
  by_cases hblocks : divCeil outputLength 32 ≤ 2 ^ 32 - 1
  · have hsecure := x963KdfSha256_eq_ok hblocks hashes secret info
    by_cases hlength : outputLength ≠ 0
    · refine iff_of_true (Or.inr ⟨_, answer_x963Kdf ⟨hlength, hblocks⟩ hinput, hsecure, ?_⟩) hlength
      refine (isStreamPrefix_take (fun counter ↦ hashes.length_digest _ _) 1 ?_).length_eq
      exact le_divCeil_mul HashAlgorithm.sha256.outputLength_pos
    · refine iff_of_false ?_ hlength
      rintro (⟨-, error, -, herror⟩ | ⟨output, houtput, -⟩)
      · rw [hsecure] at herror
        exact Except.noConfusion rfl rfl (heq_of_eq herror)
      · rw [answer_x963Kdf_of_not fun haccepts ↦ hlength haccepts.outputLength_ne_zero,
          Option.some.injEq] at houtput
        exact Except.noConfusion rfl rfl (heq_of_eq houtput)
  · have hpositive : outputLength ≠ 0 := by
      rintro rfl
      exact hblocks (by decide)
    have hsecure : x963KdfSha256 hashes secret info outputLength = .error .outputTooLong :=
      if_pos (not_le.mp hblocks)
    have hdigest : answer (x963Kdf hashes .sha256 secret info outputLength) =
        some (.error .outputTooLong) :=
      answer_x963Kdf_of_not fun haccepts ↦ hblocks haccepts.blocks_le
    exact iff_of_true (Or.inl ⟨_, _, hdigest, hsecure⟩) hpositive

/-- Forty bytes, a whole block and a partial one, are the same from both. -/
theorem x963Kdf_agrees_iff_forty : X963KdfsAgree reversingHashes [0x73] [0x69] 40 :=
  (x963Kdf_agrees_iff reversingHashes [0x73] [0x69] 40 (by decide)).mpr (by decide)

/-- An output of no bytes. -/
theorem not_x963KdfsAgree_empty : ¬ X963KdfsAgree reversingHashes [0x73] [0x69] 0 := by
  rintro (⟨error, error', -, herror⟩ | ⟨output, houtput, -⟩)
  · exact Except.noConfusion rfl rfl (heq_of_eq herror)
  · exact Except.noConfusion rfl rfl (heq_of_eq (Option.some.inj houtput))

end SoftwareKeyCore.SecureChannel
