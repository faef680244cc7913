import Mathlib

/-!
# Streams of the blocks of a counter

A counter stream is the concatenation of the blocks of consecutive counters, where all blocks have
one size. `IsStreamPrefix` says of an output, entry by entry, that it is the start of the stream. It
determines the output (`IsStreamPrefix.eq`), and every shorter start is cut off a longer one
(`IsStreamPrefix.take`).

A stream can be cut to a length after its last block (`isStreamPrefix_take`), or block by block, each
one to what is missing (`foldl_append_take_missing`).
-/

set_option autoImplicit false
set_option relaxedAutoImplicit false

namespace SoftwareKeyCore.CounterStream

variable {α : Type} {block : ℕ → List α} {first size : ℕ}

/-- The blocks of consecutive counters, one after the other. -/
def counterStream (block : ℕ → List α) (first count : ℕ) : List α :=
  (List.range' first count).flatMap block

theorem counterStream_add (block : ℕ → List α) (first count count' : ℕ) :
    counterStream block first (count + count') =
      counterStream block first count ++ counterStream block (first + count) count' := by
  rw [counterStream, counterStream, counterStream, ← List.flatMap_append, ← List.range'_append_1]

theorem counterStream_succ (block : ℕ → List α) (first count : ℕ) :
    counterStream block first (count + 1) = block first ++ counterStream block (first + 1) count := by
  rw [counterStream, counterStream, List.range'_succ, List.flatMap_cons]

theorem length_counterStream (hblock : ∀ counter, (block counter).length = size)
    (first count : ℕ) : (counterStream block first count).length = count * size := by
  induction count generalizing first with
  | zero => rw [zero_mul]; rfl
  | succ count ih =>
    rw [counterStream_succ, List.length_append, hblock, ih, Nat.succ_mul, Nat.add_comm]

/-- An entry of a stream is an entry of the block that its index falls into. -/
theorem getElem?_counterStream (hblock : ∀ counter, (block counter).length = size) (first : ℕ)
    {count index : ℕ} (hindex : index < count * size) :
    (counterStream block first count)[index]? =
      (block (first + index / size))[index % size]? := by
  have hsize : 0 < size := Nat.pos_of_lt_mul_left hindex
  have hquotient : index / size < count := Nat.div_lt_of_lt_mul (mul_comm count size ▸ hindex)
  have hremainder : index % size < size := Nat.mod_lt _ hsize
  have hbefore := length_counterStream hblock first (index / size)
  have hsplit := Nat.div_add_mod' index size
  obtain ⟨rest, hrest⟩ := Nat.exists_eq_add_of_lt hquotient
  have hstream : counterStream block first count = counterStream block first (index / size) ++
      (block (first + index / size) ++ counterStream block (first + index / size + 1) rest) := by
    rw [hrest, add_assoc, counterStream_add, counterStream_succ]
  rw [hstream, List.getElem?_append_right (by omega), hbefore,
    List.getElem?_append_left (by rw [hblock]; omega)]
  congr 1
  omega

/-! ### Starts of a stream -/

/-- An output of a length that is, entry by entry, the start of a stream. -/
structure IsStreamPrefix (block : ℕ → List α) (first size length : ℕ) (output : List α) : Prop where
  length_eq : output.length = length
  getElem?_eq : ∀ index < length, output[index]? = (block (first + index / size))[index % size]?

variable {length shorter : ℕ} {output output' : List α}

/-- The start of a stream is determined. -/
theorem IsStreamPrefix.eq (houtput : IsStreamPrefix block first size length output)
    (houtput' : IsStreamPrefix block first size length output') : output = output' := by
  apply List.ext_getElem?
  intro index
  by_cases hindex : index < length
  · rw [houtput.getElem?_eq index hindex, houtput'.getElem?_eq index hindex]
  · rw [List.getElem?_eq_none (by rw [houtput.length_eq]; omega),
      List.getElem?_eq_none (by rw [houtput'.length_eq]; omega)]

/-- A shorter start is the truncation of a longer one. -/
theorem IsStreamPrefix.take (houtput : IsStreamPrefix block first size length output)
    (hle : shorter ≤ length) : IsStreamPrefix block first size shorter (output.take shorter) where
  length_eq := List.length_take_of_le (houtput.length_eq ▸ hle)
  getElem?_eq index hindex := by
    rw [List.getElem?_take_of_lt hindex, houtput.getElem?_eq index (hindex.trans_le hle)]

/-- Enough blocks, cut to a length, are the start of the stream. -/
theorem isStreamPrefix_take (hblock : ∀ counter, (block counter).length = size) (first : ℕ)
    {count : ℕ} (hlength : length ≤ count * size) :
    IsStreamPrefix block first size length ((counterStream block first count).take length) where
  length_eq := List.length_take_of_le (length_counterStream hblock first count ▸ hlength)
  getElem?_eq index hindex := by
    rw [List.getElem?_take_of_lt hindex,
      getElem?_counterStream hblock first (hindex.trans_le hlength)]

/-- Blocks that are each cut to what is missing make up the start of their stream. -/
theorem foldl_append_take_missing (blocks : List (List α)) {result : List α}
    (hresult : result.length ≤ length) :
    blocks.foldl (fun result block ↦
        result ++ block.take (min (length - result.length) block.length)) result =
      result ++ blocks.flatten.take (length - result.length) := by
  induction blocks generalizing result with
  | nil => rw [List.foldl_nil, List.flatten_nil, List.take_nil, List.append_nil]
  | cons block blocks ih =>
    rw [List.foldl_cons, ← List.take_eq_take_min, ih (by simp; omega), List.length_append,
      List.length_take, List.flatten_cons, List.take_append, List.append_assoc]
    congr 3
    omega

end SoftwareKeyCore.CounterStream
