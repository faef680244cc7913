import SoftwareKeyCore.Foundation.ByteString

/-!
# Slices with bounds

The slice operations of a language that checks bounds, on byte strings: taking a part, copying
into a part, and setting one byte. Each answers `none` where the operation panics. Beside each
operation is the condition under which it answers, and what it answers then (`sliceTo_eq_some`,
`sliceFrom_eq_some`, `sliceRange_eq_some`, `copyInto_eq_some`, `setByte_eq_some`,
`subtract_eq_some`).

`checkedAdd` and `checkedMul` are the checked operations of 64-bit words, whose overflow is an
ordinary result. `chunks` cuts a byte string in parts of one size, the last of which may be
shorter, and `chunksExact` leaves such a last part out.
-/

set_option autoImplicit false
set_option relaxedAutoImplicit false

namespace SoftwareKeyCore.CheckedSlice

open ByteString

/-! ### Operations that panic -/

/-- The bytes before a position. -/
def sliceTo (bytes : ByteString) (stop : ℕ) : Option ByteString :=
  if stop ≤ bytes.length then some (bytes.take stop) else none

/-- The bytes from a position on. -/
def sliceFrom (bytes : ByteString) (start : ℕ) : Option ByteString :=
  if start ≤ bytes.length then some (bytes.drop start) else none

/-- The bytes from one position to before another. -/
def sliceRange (bytes : ByteString) (start stop : ℕ) : Option ByteString :=
  if start ≤ stop ∧ stop ≤ bytes.length then some (slice bytes start (stop - start)) else none

/-- Copy a byte string over the bytes from one position to before another. -/
def copyInto (bytes : ByteString) (start stop : ℕ) (content : ByteString) : Option ByteString :=
  if start ≤ stop ∧ stop ≤ bytes.length ∧ content.length = stop - start then
    some (writeSlice bytes start content)
  else none

/-- Replace the byte at a position by its image. -/
def modifyByte (bytes : ByteString) (index : ℕ) (change : UInt8 → UInt8) : Option ByteString :=
  if index < bytes.length then some (bytes.modify index change) else none

/-- Set the byte at a position. -/
def setByte (bytes : ByteString) (index : ℕ) (byte : UInt8) : Option ByteString :=
  modifyByte bytes index fun _ ↦ byte

/-- Unsigned subtraction. -/
def subtract (left right : ℕ) : Option ℕ :=
  if right ≤ left then some (left - right) else none

theorem sliceTo_eq_some {bytes : ByteString} {stop : ℕ} (hstop : stop ≤ bytes.length) :
    sliceTo bytes stop = some (bytes.take stop) :=
  if_pos hstop

theorem sliceFrom_eq_some {bytes : ByteString} {start : ℕ} (hstart : start ≤ bytes.length) :
    sliceFrom bytes start = some (bytes.drop start) :=
  if_pos hstart

theorem sliceRange_eq_some {bytes : ByteString} {start stop : ℕ} (hrange : start ≤ stop)
    (hstop : stop ≤ bytes.length) :
    sliceRange bytes start stop = some (slice bytes start (stop - start)) :=
  if_pos ⟨hrange, hstop⟩

theorem copyInto_eq_some {bytes content : ByteString} {start stop : ℕ} (hrange : start ≤ stop)
    (hstop : stop ≤ bytes.length) (hcontent : content.length = stop - start) :
    copyInto bytes start stop content = some (writeSlice bytes start content) :=
  if_pos ⟨hrange, hstop, hcontent⟩

theorem modifyByte_eq_some {bytes : ByteString} {index : ℕ} (hindex : index < bytes.length)
    (change : UInt8 → UInt8) :
    modifyByte bytes index change = some (bytes.modify index change) :=
  if_pos hindex

theorem setByte_eq_some {bytes : ByteString} {index : ℕ} (hindex : index < bytes.length)
    (byte : UInt8) : setByte bytes index byte = some (bytes.set index byte) := by
  rw [setByte, modifyByte_eq_some hindex, List.modify_eq_set_getElem?,
    List.getElem?_eq_getElem hindex]
  rfl

theorem subtract_eq_some {left right : ℕ} (hle : right ≤ left) :
    subtract left right = some (left - right) :=
  if_pos hle

/-- Copying over all bytes leaves the copied ones. -/
theorem copyInto_all {bytes content : ByteString} (hlength : content.length = bytes.length) :
    copyInto bytes 0 bytes.length content = some content := by
  rw [copyInto_eq_some (Nat.zero_le _) le_rfl hlength, writeSlice, hlength, zero_add,
    List.drop_length, List.take_zero, List.nil_append, List.append_nil]

/-- Copying over the first bytes of an array. -/
theorem copyInto_zero {bytes content : ByteString} {stop : ℕ} (hstop : stop ≤ bytes.length)
    (hcontent : content.length = stop) :
    copyInto bytes 0 stop content = some (content ++ bytes.drop stop) := by
  rw [copyInto_eq_some (Nat.zero_le _) hstop (by rw [hcontent, Nat.sub_zero]), writeSlice,
    List.take_zero, List.nil_append, zero_add, hcontent]

/-- Copying over the last bytes of an array. -/
theorem copyInto_length {bytes content : ByteString} {start : ℕ} (hstart : start ≤ bytes.length)
    (hcontent : content.length = bytes.length - start) :
    copyInto bytes start bytes.length content = some (bytes.take start ++ content) := by
  rw [copyInto_eq_some hstart le_rfl hcontent, writeSlice, hcontent, Nat.add_sub_cancel' hstart,
    List.drop_length, List.append_nil]

/-- A loop that appends what it computes puts the parts together. -/
theorem foldlM_append_eq_some {ι : Type} {step : ι → Option ByteString} (part : ι → ByteString)
    {indices : List ι} (hstep : ∀ index ∈ indices, step index = some (part index))
    (before : ByteString) :
    indices.foldlM (fun output index ↦ do
      let block ← step index
      some (output ++ block)) before = some (before ++ (indices.map part).flatten) := by
  induction indices generalizing before with
  | nil =>
    rw [List.map_nil, List.flatten_nil, List.append_nil]
    rfl
  | cons index indices ih =>
    rw [List.forall_mem_cons] at hstep
    rw [List.foldlM_cons, hstep.1, List.map_cons, List.flatten_cons, ← List.append_assoc]
    exact ih hstep.2 (before ++ part index)

/-- A loop whose steps do not panic on the states of an invariant does not panic. The invariant
counts the steps. -/
theorem exists_foldlM_eq_some {σ ι : Type} {step : σ → ι → Option σ} {indices : List ι}
    (invariant : ℕ → σ → Prop)
    (hstep : ∀ index ∈ indices, ∀ count state, invariant count state →
      ∃ next, step state index = some next ∧ invariant (count + 1) next)
    {count : ℕ} {state : σ} (hstate : invariant count state) :
    ∃ final, indices.foldlM step state = some final ∧
      invariant (count + indices.length) final := by
  induction indices generalizing count state with
  | nil => exact ⟨state, rfl, hstate⟩
  | cons index indices ih =>
    rw [List.forall_mem_cons] at hstep
    obtain ⟨next, hnext, hinvariant⟩ := hstep.1 count state hstate
    obtain ⟨final, hfinal, hlast⟩ := ih hstep.2 hinvariant
    refine ⟨final, ?_, ?_⟩
    · rw [List.foldlM_cons, hnext]
      exact hfinal
    · rw [List.length_cons, Nat.add_comm indices.length, ← Nat.add_assoc]
      exact hlast

/-! ### Checked words -/

/-- Addition of 64-bit words, nothing on overflow. -/
def checkedAdd (left right : ℕ) : Option ℕ :=
  if left + right < 2 ^ 64 then some (left + right) else none

/-- Multiplication of 64-bit words, nothing on overflow. -/
def checkedMul (left right : ℕ) : Option ℕ :=
  if left * right < 2 ^ 64 then some (left * right) else none

theorem checkedAdd_eq_some_iff {left right sum : ℕ} :
    checkedAdd left right = some sum ↔ left + right < 2 ^ 64 ∧ left + right = sum := by
  unfold checkedAdd
  split_ifs with hlt
  · rw [Option.some.injEq, and_iff_right hlt]
  · exact iff_of_false (by simp) fun h ↦ hlt h.1

theorem checkedMul_eq_some_iff {left right product : ℕ} :
    checkedMul left right = some product ↔ left * right < 2 ^ 64 ∧ left * right = product := by
  unfold checkedMul
  split_ifs with hlt
  · rw [Option.some.injEq, and_iff_right hlt]
  · exact iff_of_false (by simp) fun h ↦ hlt h.1

/-! ### Parts of one size -/

/-- The parts of one size, the last of which may be shorter. -/
def chunks (size : ℕ) (bytes : ByteString) : List ByteString :=
  (List.range (bytes.length ⌈/⌉ size)).map fun index ↦ slice bytes (index * size) size

/-- The parts of one size; a shorter last part is left out. -/
def chunksExact (size : ℕ) (bytes : ByteString) : List ByteString :=
  (List.range (bytes.length / size)).map fun index ↦ slice bytes (index * size) size

/-- Every part of whole parts has the size. -/
theorem length_of_mem_chunksExact {size : ℕ} {bytes part : ByteString}
    (hpart : part ∈ chunksExact size bytes) : part.length = size := by
  obtain ⟨index, hindex, rfl⟩ := List.mem_map.mp hpart
  have hstop : (index + 1) * size ≤ bytes.length :=
    (Nat.mul_le_mul_right _ (List.mem_range.mp hindex)).trans (Nat.div_mul_le_self _ _)
  rw [Nat.succ_mul] at hstop
  rw [length_slice]
  omega

@[simp] theorem chunks_nil (size : ℕ) : chunks size [] = [] := by
  rw [chunks, List.length_nil, zero_ceilDiv, List.range_zero, List.map_nil]

/-- One more part makes the rounded quotient one larger. -/
theorem add_ceilDiv {size : ℕ} (hsize : 0 < size) (length : ℕ) :
    (size + length) ⌈/⌉ size = length ⌈/⌉ size + 1 := by
  rw [Nat.ceilDiv_eq_add_pred_div, Nat.ceilDiv_eq_add_pred_div,
    show size + length + size - 1 = length + size - 1 + size by omega, Nat.add_div_right _ hsize]

theorem mul_ceilDiv {size : ℕ} (hsize : 0 < size) (count : ℕ) :
    (count * size) ⌈/⌉ size = count := by
  rw [mul_comm, ← smul_eq_mul, smul_ceilDiv hsize]

/-- The parts cover the length. -/
theorem le_ceilDiv_mul {size : ℕ} (hsize : 0 < size) (length : ℕ) :
    length ≤ length ⌈/⌉ size * size := by
  rw [mul_comm]
  exact le_smul_ceilDiv hsize

/-- A slice past the first bytes. -/
theorem slice_append_right {head rest : ByteString} {size : ℕ} (hhead : head.length = size)
    (start length : ℕ) : slice (head ++ rest) (size + start) length = slice rest start length := by
  rw [slice, slice, ← List.drop_drop, List.drop_left' hhead]

theorem slice_append_left {head rest : ByteString} {size : ℕ} (hhead : head.length = size) :
    slice (head ++ rest) 0 size = head := by
  rw [slice, List.drop_zero, List.take_left' hhead]

/-- A whole first part is the first of the parts. -/
theorem chunks_append {head rest : ByteString} {size : ℕ} (hsize : 0 < size)
    (hhead : head.length = size) : chunks size (head ++ rest) = head :: chunks size rest := by
  rw [chunks, List.length_append, hhead, add_ceilDiv hsize, List.range_succ_eq_map, List.map_cons,
    List.map_map, zero_mul, slice_append_left hhead, chunks]
  congr 1
  apply List.map_congr_left
  intro index _
  rw [Function.comp_apply, Nat.succ_mul, add_comm, slice_append_right hhead]

/-- A byte string of at most the size is one part. -/
theorem chunks_of_le {bytes : ByteString} {size : ℕ} (hne : bytes ≠ [])
    (hlength : bytes.length ≤ size) : chunks size bytes = [bytes] := by
  have hpositive := List.length_pos_iff.mpr hne
  have hone : bytes.length ⌈/⌉ size = 1 := by
    rw [Nat.ceilDiv_eq_add_pred_div]
    exact Nat.div_eq_of_lt_le (by omega) (by omega)
  rw [chunks, hone, List.range_one, List.map_singleton, zero_mul, slice, List.drop_zero,
    List.take_of_length_le hlength]

/-- Induction over the parts of a byte string: no part, one part that may be short, or a whole
part before the others. -/
theorem chunks_induction {size : ℕ} (hsize : 0 < size) {motive : ByteString → Prop}
    (nil : motive [])
    (last : ∀ bytes : ByteString, bytes ≠ [] → bytes.length ≤ size → motive bytes)
    (whole : ∀ head rest : ByteString, head.length = size → rest ≠ [] → motive rest →
      motive (head ++ rest)) (bytes : ByteString) : motive bytes := by
  induction hlength : bytes.length using Nat.strong_induction_on generalizing bytes with
  | h length ih =>
    by_cases hempty : bytes = []
    · rw [hempty]
      exact nil
    · by_cases hshort : bytes.length ≤ size
      · exact last bytes hempty hshort
      · have hhead : (bytes.take size).length = size := by
          rw [List.length_take]
          omega
        have hrest : (bytes.drop size).length = length - size := by
          rw [List.length_drop, hlength]
        have hne : bytes.drop size ≠ [] := by
          rw [← List.length_pos_iff, hrest]
          omega
        rw [← List.take_append_drop size bytes]
        exact whole _ _ hhead hne (ih (length - size) (by omega) _ hrest)

/-- The parts make up the byte string. -/
theorem flatten_chunks {size : ℕ} (hsize : 0 < size) (bytes : ByteString) :
    (chunks size bytes).flatten = bytes := by
  induction bytes using chunks_induction hsize with
  | nil => rw [chunks_nil, List.flatten_nil]
  | last bytes hne hlength => rw [chunks_of_le hne hlength, List.flatten_singleton]
  | whole head rest hhead hne ih => rw [chunks_append hsize hhead, List.flatten_cons, ih]

/-- Whole parts put together are the parts of the result. -/
theorem chunks_flatten {size : ℕ} (hsize : 0 < size) {parts : List ByteString}
    (hparts : ∀ part ∈ parts, part.length = size) : chunks size parts.flatten = parts := by
  induction parts with
  | nil => rw [List.flatten_nil, chunks_nil]
  | cons part parts ih =>
    rw [List.forall_mem_cons] at hparts
    rw [List.flatten_cons, chunks_append hsize hparts.1, ih hparts.2]

/-- Whole parts put together are as long as all of them. -/
theorem length_flatten_of_forall {size : ℕ} {parts : List ByteString}
    (hparts : ∀ part ∈ parts, part.length = size) :
    parts.flatten.length = parts.length * size := by
  rw [List.length_flatten, List.map_congr_left hparts, List.map_const', List.sum_replicate,
    smul_eq_mul]

/-- A value past the mask does not show. -/
theorem xorBytes_append_left_of_le {head rest mask : ByteString}
    (hlength : mask.length ≤ head.length) : xorBytes (head ++ rest) mask = xorBytes head mask := by
  induction head generalizing mask with
  | nil =>
    rw [List.length_nil, Nat.le_zero, List.length_eq_zero_iff] at hlength
    rw [hlength, xorBytes, xorBytes, List.zipWith_nil_right, List.zipWith_nil_right]
  | cons byte head ih =>
    cases mask with
    | nil => rfl
    | cons maskByte mask =>
      rw [List.length_cons, List.length_cons, Nat.succ_le_succ_iff] at hlength
      rw [List.cons_append, xorBytes, List.zipWith_cons_cons, ← xorBytes, ih hlength]
      rfl

/-- A mask past the value does not show. -/
theorem xorBytes_append_right_of_le {value head rest : ByteString}
    (hlength : value.length ≤ head.length) :
    xorBytes value (head ++ rest) = xorBytes value head := by
  induction head generalizing value with
  | nil =>
    rw [List.length_nil, Nat.le_zero, List.length_eq_zero_iff] at hlength
    rw [hlength]
    rfl
  | cons byte head ih =>
    cases value with
    | nil => rfl
    | cons valueByte value =>
      rw [List.length_cons, List.length_cons, Nat.succ_le_succ_iff] at hlength
      rw [List.cons_append, xorBytes, List.zipWith_cons_cons, ← xorBytes, ih hlength]
      rfl

/-- Masking part by part masks the whole. -/
theorem flatMap_zip_chunks {size : ℕ} (hsize : 0 < size) (value mask : ByteString) :
    ((chunks size value).zip (chunks size mask)).flatMap (fun pair ↦ xorBytes pair.1 pair.2) =
      xorBytes value mask := by
  induction value using chunks_induction hsize generalizing mask with
  | nil =>
    rw [chunks_nil, List.zip_nil_left]
    rfl
  | last value hne hlength =>
    rw [chunks_of_le hne hlength]
    induction mask using chunks_induction hsize with
    | nil =>
      rw [chunks_nil, List.zip_nil_right, xorBytes, List.zipWith_nil_right]
      rfl
    | last mask hmask hmaskLength =>
      rw [chunks_of_le hmask hmaskLength, List.zip_cons_cons, List.zip_nil_right,
        List.flatMap_singleton]
    | whole head rest hhead _ _ =>
      rw [chunks_append hsize hhead, List.zip_cons_cons, List.zip_nil_left, List.flatMap_singleton,
        xorBytes_append_right_of_le (hlength.trans hhead.ge)]
  | whole head rest hhead hne ih =>
    rw [chunks_append hsize hhead]
    induction mask using chunks_induction hsize with
    | nil =>
      rw [chunks_nil, List.zip_nil_right, xorBytes, List.zipWith_nil_right]
      rfl
    | last mask hmask hmaskLength =>
      rw [chunks_of_le hmask hmaskLength, List.zip_cons_cons, List.zip_nil_right,
        List.flatMap_singleton, xorBytes_append_left_of_le (hmaskLength.trans hhead.ge)]
    | whole maskHead maskRest hmaskHead _ _ =>
      rw [chunks_append hsize hmaskHead, List.zip_cons_cons, List.flatMap_cons, ih,
        xorBytes_append (hhead.trans hmaskHead.symm)]

end SoftwareKeyCore.CheckedSlice
