import SoftwareKeyCore.Foundation.CheckedSlice

/-!
# Block functions and the chaining of blocks

A `BlockFunction` maps blocks of a size to blocks of the size, and `blocks` applies it to a byte
string of whole blocks, block by block (`blocks_flatten`). A `BlockPermutation` is a pair of block
functions that are inverse to each other.

`chainEncrypt` and `chainDecrypt` are cipher block chaining over lists of blocks. They are inverse
to each other (`chainDecrypt_chainEncrypt`, `chainEncrypt_chainDecrypt`), and both can be cut
between any two blocks, where the second part starts from the last ciphertext block of the first
(`chainEncrypt_append`, `chainDecrypt_append`).
-/

set_option autoImplicit false
set_option relaxedAutoImplicit false

namespace SoftwareKeyCore

open ByteString CheckedSlice

/-! ### Whole blocks -/

namespace CheckedSlice

variable {size : ℕ}

/-- The parts of whole blocks are all of the size. -/
theorem chunksExact_eq_chunks (hsize : 0 < size) {bytes : ByteString}
    (hdvd : size ∣ bytes.length) : chunksExact size bytes = chunks size bytes := by
  obtain ⟨count, hcount⟩ := hdvd
  rw [chunksExact, chunks, hcount, Nat.mul_div_cancel_left _ hsize, mul_comm, mul_ceilDiv hsize]

theorem chunksExact_flatten (hsize : 0 < size) {parts : List ByteString}
    (hparts : ∀ part ∈ parts, part.length = size) : chunksExact size parts.flatten = parts := by
  have hdvd : size ∣ parts.flatten.length := by
    rw [length_flatten_of_forall hparts]
    exact Nat.dvd_mul_left _ _
  rw [chunksExact_eq_chunks hsize hdvd, chunks_flatten hsize hparts]

theorem flatten_chunksExact (hsize : 0 < size) {bytes : ByteString}
    (hdvd : size ∣ bytes.length) : (chunksExact size bytes).flatten = bytes := by
  rw [chunksExact_eq_chunks hsize hdvd, flatten_chunks hsize]

/-- One block is its only part. -/
theorem chunksExact_block (hsize : 0 < size) {block : ByteString} (hblock : block.length = size) :
    chunksExact size block = [block] := by
  have hne : block ≠ [] := by
    rw [← List.length_pos_iff, hblock]
    exact hsize
  rw [chunksExact_eq_chunks hsize hblock.symm.dvd, chunks_of_le hne hblock.le]

/-- Whole blocks are cut apart where their parts are. -/
theorem chunksExact_append (hsize : 0 < size) {left right : ByteString}
    (hleft : size ∣ left.length) (hright : size ∣ right.length) :
    chunksExact size (left ++ right) = chunksExact size left ++ chunksExact size right := by
  have hparts : ∀ part ∈ chunksExact size left ++ chunksExact size right, part.length = size := by
    intro part hpart
    exact (List.mem_append.mp hpart).elim length_of_mem_chunksExact length_of_mem_chunksExact
  rw [← chunksExact_flatten hsize hparts, List.flatten_append, flatten_chunksExact hsize hleft,
    flatten_chunksExact hsize hright]

/-- The last part of whole blocks is what their last bytes are. -/
theorem getLastD_chunksExact (hsize : 0 < size) {bytes : ByteString} (hne : bytes ≠ [])
    (hdvd : size ∣ bytes.length) (default : ByteString) :
    (chunksExact size bytes).getLastD default = bytes.drop (bytes.length - size) := by
  have hle := Nat.le_of_dvd (List.length_pos_iff.mpr hne) hdvd
  have hlast : (bytes.drop (bytes.length - size)).length = size := by
    rw [List.length_drop]
    omega
  have hinit : size ∣ (bytes.take (bytes.length - size)).length := by
    rw [List.length_take_of_le (Nat.sub_le _ _)]
    exact Nat.dvd_sub hdvd dvd_rfl
  conv_lhs => rw [← List.take_append_drop (bytes.length - size) bytes,
    chunksExact_append hsize hinit hlast.symm.dvd, chunksExact_block hsize hlast]
  exact List.getLastD_concat

end CheckedSlice

/-! ### Functions on blocks -/

/-- A function on the blocks of a size. -/
structure BlockFunction (size : ℕ) where
  apply : ByteString → ByteString
  length_apply : ∀ {block : ByteString}, block.length = size → (apply block).length = size

namespace BlockFunction

variable {size : ℕ} (function : BlockFunction size)

/-- The function on every block of whole blocks. -/
def blocks (input : ByteString) : ByteString :=
  (chunksExact size input).flatMap function.apply

theorem blocks_flatten (hsize : 0 < size) {parts : List ByteString}
    (hparts : ∀ part ∈ parts, part.length = size) :
    function.blocks parts.flatten = parts.flatMap function.apply := by
  rw [blocks, chunksExact_flatten hsize hparts]

/-- On one block it is the function. -/
theorem blocks_block (hsize : 0 < size) {block : ByteString} (hblock : block.length = size) :
    function.blocks block = function.apply block := by
  rw [blocks, chunksExact_block hsize hblock, List.flatMap_singleton]

theorem length_of_mem_map {parts : List ByteString} (hparts : ∀ part ∈ parts, part.length = size) :
    ∀ part ∈ parts.map function.apply, part.length = size := by
  intro part hpart
  obtain ⟨block, hblock, rfl⟩ := List.mem_map.mp hpart
  exact function.length_apply (hparts block hblock)

/-- The output is as many blocks as the input. -/
theorem length_flatMap {parts : List ByteString} (hparts : ∀ part ∈ parts, part.length = size) :
    (parts.flatMap function.apply).length = parts.length * size := by
  rw [List.flatMap_def, length_flatten_of_forall (function.length_of_mem_map hparts),
    List.length_map]

theorem length_blocks {input : ByteString} (hdvd : size ∣ input.length) :
    (function.blocks input).length = input.length := by
  rw [blocks, function.length_flatMap fun part hpart ↦ length_of_mem_chunksExact hpart, chunksExact,
    List.length_map, List.length_range, Nat.div_mul_cancel hdvd]

end BlockFunction

/-- Two functions on the blocks of a size that are inverse to each other. -/
structure BlockPermutation (size : ℕ) where
  encrypt : BlockFunction size
  decrypt : BlockFunction size
  decrypt_encrypt : ∀ {block : ByteString}, block.length = size →
    decrypt.apply (encrypt.apply block) = block
  encrypt_decrypt : ∀ {block : ByteString}, block.length = size →
    encrypt.apply (decrypt.apply block) = block

namespace BlockPermutation

variable {size : ℕ} (permutation : BlockPermutation size)

/-- The direction of a permutation, on whole blocks. -/
def transform (encrypting : Bool) : ByteString → ByteString :=
  if encrypting then permutation.encrypt.blocks else permutation.decrypt.blocks

/-- The permutation that complements every byte. -/
def complement (size : ℕ) : BlockPermutation size where
  encrypt := ⟨List.map (~~~ ·), fun hblock ↦ (List.length_map _).trans hblock⟩
  decrypt := ⟨List.map (~~~ ·), fun hblock ↦ (List.length_map _).trans hblock⟩
  decrypt_encrypt := by simp [Function.comp_def]
  encrypt_decrypt := by simp [Function.comp_def]

end BlockPermutation

/-! ### Chaining -/

section Chaining

variable {size : ℕ}

/-- Cipher block chaining: every block is masked with the output before it. -/
def chainEncrypt (encrypt : ByteString → ByteString) :
    (previous : ByteString) → (blocks : List ByteString) → List ByteString
  | _, [] => []
  | previous, block :: blocks =>
    encrypt (xorBytes block previous) ::
      chainEncrypt encrypt (encrypt (xorBytes block previous)) blocks

/-- The inverse of chaining: every output is masked with the input before it. -/
def chainDecrypt (decrypt : ByteString → ByteString) :
    (previous : ByteString) → (blocks : List ByteString) → List ByteString
  | _, [] => []
  | previous, block :: blocks =>
    xorBytes (decrypt block) previous :: chainDecrypt decrypt block blocks

/-- A chain that is cut goes on from the last block of its first part. -/
theorem chainEncrypt_append (encrypt : ByteString → ByteString) (previous : ByteString)
    (left right : List ByteString) :
    chainEncrypt encrypt previous (left ++ right) = chainEncrypt encrypt previous left ++
      chainEncrypt encrypt ((chainEncrypt encrypt previous left).getLastD previous) right := by
  induction left generalizing previous with
  | nil => rfl
  | cons block left ih =>
    rw [List.cons_append, chainEncrypt, chainEncrypt, ih, List.getLastD_cons, List.cons_append]

theorem chainDecrypt_append (decrypt : ByteString → ByteString) (previous : ByteString)
    (left right : List ByteString) :
    chainDecrypt decrypt previous (left ++ right) =
      chainDecrypt decrypt previous left ++
        chainDecrypt decrypt (left.getLastD previous) right := by
  induction left generalizing previous with
  | nil => rfl
  | cons block left ih =>
    rw [List.cons_append, chainDecrypt, chainDecrypt, ih, List.getLastD_cons, List.cons_append]

@[simp] theorem length_chainEncrypt (encrypt : ByteString → ByteString) (previous : ByteString)
    (blocks : List ByteString) : (chainEncrypt encrypt previous blocks).length = blocks.length := by
  induction blocks generalizing previous with
  | nil => rfl
  | cons block blocks ih => rw [chainEncrypt, List.length_cons, ih, List.length_cons]

theorem length_of_mem_chainEncrypt (function : BlockFunction size) {previous : ByteString}
    (hprevious : previous.length = size) {blocks : List ByteString}
    (hblocks : ∀ block ∈ blocks, block.length = size) :
    ∀ block ∈ chainEncrypt function.apply previous blocks, block.length = size := by
  induction blocks generalizing previous with
  | nil => exact fun block hblock ↦ absurd hblock List.not_mem_nil
  | cons block blocks ih =>
    rw [List.forall_mem_cons] at hblocks
    have hmixed : (xorBytes block previous).length = size := by
      rw [length_xorBytes, hblocks.1, hprevious, min_self]
    have houtput := function.length_apply hmixed
    rw [chainEncrypt, List.forall_mem_cons]
    exact ⟨houtput, ih houtput hblocks.2⟩

theorem length_of_mem_chainDecrypt (function : BlockFunction size) {previous : ByteString}
    (hprevious : previous.length = size) {blocks : List ByteString}
    (hblocks : ∀ block ∈ blocks, block.length = size) :
    ∀ block ∈ chainDecrypt function.apply previous blocks, block.length = size := by
  induction blocks generalizing previous with
  | nil => exact fun block hblock ↦ absurd hblock List.not_mem_nil
  | cons block blocks ih =>
    rw [List.forall_mem_cons] at hblocks
    rw [chainDecrypt, List.forall_mem_cons]
    refine ⟨?_, ih hblocks.1 hblocks.2⟩
    rw [length_xorBytes, function.length_apply hblocks.1, hprevious, min_self]

variable (permutation : BlockPermutation size)

/-- Chaining is undone by its inverse. -/
theorem chainDecrypt_chainEncrypt {previous : ByteString} (hprevious : previous.length = size)
    {blocks : List ByteString} (hblocks : ∀ block ∈ blocks, block.length = size) :
    chainDecrypt permutation.decrypt.apply previous
      (chainEncrypt permutation.encrypt.apply previous blocks) = blocks := by
  induction blocks generalizing previous with
  | nil => rfl
  | cons block blocks ih =>
    rw [List.forall_mem_cons] at hblocks
    have hmixed : (xorBytes block previous).length = size := by
      rw [length_xorBytes, hblocks.1, hprevious, min_self]
    rw [chainEncrypt, chainDecrypt, permutation.decrypt_encrypt hmixed,
      xorBytes_cancel_right (hblocks.1.trans hprevious.symm).le,
      ih (permutation.encrypt.length_apply hmixed) hblocks.2]

/-- Chaining undoes its inverse. -/
theorem chainEncrypt_chainDecrypt {previous : ByteString} (hprevious : previous.length = size)
    {blocks : List ByteString} (hblocks : ∀ block ∈ blocks, block.length = size) :
    chainEncrypt permutation.encrypt.apply previous
      (chainDecrypt permutation.decrypt.apply previous blocks) = blocks := by
  induction blocks generalizing previous with
  | nil => rfl
  | cons block blocks ih =>
    rw [List.forall_mem_cons] at hblocks
    have hdecrypted := permutation.decrypt.length_apply hblocks.1
    rw [chainDecrypt, chainEncrypt, xorBytes_cancel_right (hdecrypted.trans hprevious.symm).le,
      permutation.encrypt_decrypt hblocks.1, ih hblocks.1 hblocks.2]

end Chaining

end SoftwareKeyCore
