import Mathlib

/-!
# Byte strings

Byte strings as lists of bytes, with the three operations every byte-level construction of the
development is made of: the pointwise exclusive or of two byte strings (`xorBytes`), the
fixed-width big-endian encoding of a natural number (`toBeBytes`, which truncates to the width)
and its decoding (`fromBeBytes`), and the replacement of a slice (`writeSlice`).

`xorBytes_cancel_right` removes a mask that was applied twice. `fromBeBytes_toBeBytes` and
`toBeBytes_fromBeBytes` are the two halves of the correspondence between byte strings of a fixed
width and numbers below `256 ^ width`. `slice_writeSlice` reads a written slice back, and
`writeSlice_slice` writes a slice over itself.
-/

set_option autoImplicit false
set_option relaxedAutoImplicit false

namespace SoftwareKeyCore

/-- A byte string of any length. -/
abbrev ByteString := List UInt8

namespace ByteString

/-! ### Exclusive or -/

/-- The pointwise exclusive or of two byte strings, as long as the shorter one. -/
def xorBytes (value mask : ByteString) : ByteString :=
  List.zipWith (· ^^^ ·) value mask

@[simp] theorem length_xorBytes (value mask : ByteString) :
    (xorBytes value mask).length = min value.length mask.length :=
  List.length_zipWith

theorem xorBytes_comm (value mask : ByteString) : xorBytes value mask = xorBytes mask value :=
  List.zipWith_comm_of_comm UInt8.xor_comm

/-- A mask at least as long as the value cancels when it is applied twice. -/
theorem xorBytes_cancel_right {value mask : ByteString} (hlength : value.length ≤ mask.length) :
    xorBytes (xorBytes value mask) mask = value := by
  refine List.ext_getElem ?_ fun index hleft hright ↦ ?_
  · simp only [length_xorBytes]
    omega
  · simp only [xorBytes, List.getElem_zipWith, UInt8.xor_assoc, UInt8.xor_self, UInt8.xor_zero]

/-- A value and its masked form determine each other, for a mask of at least their length. -/
theorem xorBytes_eq_iff {value masked mask : ByteString} (hvalue : value.length ≤ mask.length)
    (hmasked : masked.length ≤ mask.length) :
    xorBytes value mask = masked ↔ value = xorBytes masked mask := by
  constructor
  · rintro rfl
    exact (xorBytes_cancel_right hvalue).symm
  · rintro rfl
    exact xorBytes_cancel_right hmasked

/-- The exclusive or of two concatenations is the concatenation of the exclusive ors of their
parts, when the first parts have equal length. -/
theorem xorBytes_append {value value' mask mask' : ByteString}
    (hlength : value.length = mask.length) :
    xorBytes (value ++ value') (mask ++ mask') = xorBytes value mask ++ xorBytes value' mask' :=
  List.zipWith_append hlength

/-- The exclusive or of a mask into a value in place: bytes past the end of the mask stay. -/
def xorInPlace (value mask : ByteString) : ByteString :=
  xorBytes value mask ++ value.drop mask.length

/-- A mask as long as the value covers all of it. -/
theorem xorInPlace_eq {value mask : ByteString} (hlength : mask.length = value.length) :
    xorInPlace value mask = xorBytes value mask := by
  rw [xorInPlace, hlength, List.drop_length, List.append_nil]

/-! ### Big-endian encodings -/

/-- The big-endian encoding of `value` in `width` bytes; a larger value loses its high bytes. -/
def toBeBytes : (width : ℕ) → (value : ℕ) → ByteString
  | 0, _ => []
  | width + 1, value => UInt8.ofNat (value / 256 ^ width) :: toBeBytes width value

/-- The number a byte string encodes, most significant byte first. -/
def fromBeBytes (bytes : ByteString) : ℕ :=
  bytes.foldl (fun value byte ↦ value * 256 + byte.toNat) 0

@[simp] theorem length_toBeBytes (width value : ℕ) : (toBeBytes width value).length = width := by
  induction width with
  | zero => rfl
  | succ width ih => simp [toBeBytes, ih]

@[simp] theorem fromBeBytes_nil : fromBeBytes [] = 0 :=
  rfl

theorem foldl_fromBeBytes (bytes : ByteString) (value : ℕ) :
    bytes.foldl (fun value byte ↦ value * 256 + byte.toNat) value =
      value * 256 ^ bytes.length + fromBeBytes bytes := by
  induction bytes generalizing value with
  | nil => simp
  | cons byte bytes ih =>
    rw [fromBeBytes, List.foldl_cons, List.foldl_cons, ih, ih (0 * 256 + byte.toNat),
      List.length_cons, pow_succ]
    ring

/-- The head of a byte string is its most significant digit. -/
theorem fromBeBytes_cons (byte : UInt8) (bytes : ByteString) :
    fromBeBytes (byte :: bytes) = byte.toNat * 256 ^ bytes.length + fromBeBytes bytes := by
  rw [fromBeBytes, List.foldl_cons, foldl_fromBeBytes, zero_mul, zero_add]

theorem fromBeBytes_append (high low : ByteString) :
    fromBeBytes (high ++ low) = fromBeBytes high * 256 ^ low.length + fromBeBytes low := by
  rw [fromBeBytes, List.foldl_append, foldl_fromBeBytes, ← fromBeBytes]

/-- A byte string of length `width` encodes a number below `256 ^ width`. -/
theorem fromBeBytes_lt (bytes : ByteString) : fromBeBytes bytes < 256 ^ bytes.length := by
  induction bytes with
  | nil => simp
  | cons byte bytes ih =>
    have hbyte : byte.toNat + 1 ≤ 256 := byte.toNat_lt
    rw [fromBeBytes_cons, List.length_cons, pow_succ]
    calc byte.toNat * 256 ^ bytes.length + fromBeBytes bytes
        < (byte.toNat + 1) * 256 ^ bytes.length := by rw [add_mul, one_mul]; omega
      _ ≤ 256 * 256 ^ bytes.length := Nat.mul_le_mul_right _ hbyte
      _ = 256 ^ bytes.length * 256 := mul_comm _ _

/-- Decoding an encoding gives the value reduced to the width. -/
theorem fromBeBytes_toBeBytes (width value : ℕ) :
    fromBeBytes (toBeBytes width value) = value % 256 ^ width := by
  induction width with
  | zero => simp [toBeBytes, Nat.mod_one]
  | succ width ih =>
    have hbyte : (UInt8.ofNat (value / 256 ^ width)).toNat = value / 256 ^ width % 256 :=
      UInt8.toNat_ofNat'
    rw [toBeBytes, fromBeBytes_cons, length_toBeBytes, ih, hbyte, pow_succ, Nat.mod_mul]
    ring

/-- Decoding an encoding that is wide enough gives the value back. -/
theorem fromBeBytes_toBeBytes_of_lt {width value : ℕ} (hvalue : value < 256 ^ width) :
    fromBeBytes (toBeBytes width value) = value := by
  rw [fromBeBytes_toBeBytes, Nat.mod_eq_of_lt hvalue]

/-- The bytes above a value do not show in its encoding. -/
theorem toBeBytes_add_mul (width value high : ℕ) :
    toBeBytes width (high * 256 ^ width + value) = toBeBytes width value := by
  induction width generalizing high with
  | zero => rfl
  | succ width ih =>
    have hsplit : high * 256 ^ (width + 1) + value = high * 256 * 256 ^ width + value := by
      rw [pow_succ]
      ring
    rw [toBeBytes, toBeBytes, hsplit, ih]
    congr 1
    rw [add_comm, Nat.add_mul_div_right _ _ (by positivity : 0 < 256 ^ width)]
    refine UInt8.toNat_inj.mp ?_
    rw [UInt8.toNat_ofNat', UInt8.toNat_ofNat']
    omega

/-- Encoding the number of a byte string in its own width gives the byte string back. -/
theorem toBeBytes_fromBeBytes (bytes : ByteString) :
    toBeBytes bytes.length (fromBeBytes bytes) = bytes := by
  induction bytes with
  | nil => rfl
  | cons byte bytes ih =>
    have hhead : fromBeBytes (byte :: bytes) / 256 ^ bytes.length = byte.toNat := by
      rw [fromBeBytes_cons, mul_comm, Nat.mul_add_div (by positivity : 0 < 256 ^ bytes.length),
        Nat.div_eq_of_lt (fromBeBytes_lt bytes), add_zero]
    rw [List.length_cons, toBeBytes, hhead, fromBeBytes_cons, toBeBytes_add_mul, ih,
      UInt8.ofNat_toNat]

/-- The last bytes of an encoding are the encoding in fewer bytes. -/
theorem drop_toBeBytes {width total : ℕ} (hwidth : width ≤ total) (value : ℕ) :
    (toBeBytes total value).drop (total - width) = toBeBytes width value := by
  obtain ⟨skip, rfl⟩ := Nat.exists_eq_add_of_le' hwidth
  rw [Nat.add_sub_cancel]
  induction skip with
  | zero => rw [zero_add, List.drop_zero]
  | succ skip ih =>
    rw [show skip + 1 + width = skip + width + 1 by omega, toBeBytes, List.drop_succ_cons]
    exact ih (Nat.le_add_left _ _)

/-- Byte strings of one length that encode the same number are equal. -/
theorem fromBeBytes_injective {left right : ByteString} (hlength : left.length = right.length)
    (hvalue : fromBeBytes left = fromBeBytes right) : left = right := by
  rw [← toBeBytes_fromBeBytes left, hvalue, hlength, toBeBytes_fromBeBytes]

/-- `BigUint::to_bytes_be`: the shortest encoding, and one byte for zero. -/
def toBytesBe (value : ℕ) : ByteString :=
  toBeBytes (max 1 ((Nat.size value + 7) / 8)) value

theorem fromBeBytes_toBytesBe (value : ℕ) : fromBeBytes (toBytesBe value) = value := by
  refine fromBeBytes_toBeBytes_of_lt ?_
  have hsize := Nat.lt_size_self value
  have hwidth : Nat.size value ≤ 8 * max 1 ((Nat.size value + 7) / 8) := by omega
  calc value < 2 ^ Nat.size value := hsize
    _ ≤ 2 ^ (8 * max 1 ((Nat.size value + 7) / 8)) := Nat.pow_le_pow_right (by omega) hwidth
    _ = 256 ^ max 1 ((Nat.size value + 7) / 8) := by rw [pow_mul]; norm_num

/-- Leading zero bytes do not count. -/
theorem fromBeBytes_replicate_zero_append (count : ℕ) (bytes : ByteString) :
    fromBeBytes (List.replicate count 0 ++ bytes) = fromBeBytes bytes := by
  induction count with
  | zero => rfl
  | succ count ih =>
    rw [List.replicate_succ, List.cons_append, fromBeBytes_cons, ih]
    simp

/-- Encoding the number of a byte string in a larger width puts zeros before it. -/
theorem toBeBytes_fromBeBytes_of_le {width : ℕ} {bytes : ByteString}
    (hlength : bytes.length ≤ width) :
    toBeBytes width (fromBeBytes bytes) = List.replicate (width - bytes.length) 0 ++ bytes := by
  apply fromBeBytes_injective
  · rw [length_toBeBytes, List.length_append, List.length_replicate, Nat.sub_add_cancel hlength]
  · rw [fromBeBytes_replicate_zero_append]
    exact fromBeBytes_toBeBytes_of_lt
      ((fromBeBytes_lt bytes).trans_le (Nat.pow_le_pow_right (by norm_num) hlength))

theorem length_toBytesBe_pos (value : ℕ) : 0 < (toBytesBe value).length := by
  rw [toBytesBe, length_toBeBytes]
  exact Nat.lt_of_lt_of_le Nat.zero_lt_one (le_max_left _ _)

/-- The shortest encoding has at most a number of bytes when the number is below its power. -/
theorem length_toBytesBe_le_iff {width value : ℕ} (hwidth : 1 ≤ width) :
    (toBytesBe value).length ≤ width ↔ value < 256 ^ width := by
  have hpower : 256 ^ width = 2 ^ (8 * width) := by
    rw [pow_mul]
    norm_num
  rw [toBytesBe, length_toBeBytes, hpower, ← Nat.size_le]
  omega

/-- A number in a width is its shortest encoding after zeros. -/
theorem toBeBytes_eq_append {width value : ℕ} (hlength : (toBytesBe value).length ≤ width) :
    toBeBytes width value =
      List.replicate (width - (toBytesBe value).length) 0 ++ toBytesBe value := by
  have hpadded := toBeBytes_fromBeBytes_of_le hlength
  rwa [fromBeBytes_toBytesBe] at hpadded

/-! ### Slices -/

/-- The `length` bytes from position `start`. -/
def slice (bytes : ByteString) (start length : ℕ) : ByteString :=
  (bytes.drop start).take length

/-- Overwrite the bytes from position `start` with `content`. -/
def writeSlice (bytes : ByteString) (start : ℕ) (content : ByteString) : ByteString :=
  bytes.take start ++ content ++ bytes.drop (start + content.length)

@[simp] theorem length_slice (bytes : ByteString) (start length : ℕ) :
    (slice bytes start length).length = min length (bytes.length - start) := by
  simp [slice]

/-- A slice that ends before a position does not see the bytes from there on. -/
theorem slice_take {bytes : ByteString} {start length stop : ℕ} (hstop : start + length ≤ stop) :
    slice (bytes.take stop) start length = slice bytes start length := by
  rw [slice, slice, List.drop_take, List.take_take, min_eq_left (by omega)]

theorem slice_append_of_le {head rest : ByteString} {start length : ℕ}
    (hstop : start + length ≤ head.length) :
    slice (head ++ rest) start length = slice head start length := by
  have htake : slice ((head ++ rest).take head.length) start length = _ := slice_take hstop
  rw [← htake, List.take_left]

/-- Truncate a byte string to a length, or extend it to the length with one byte. -/
def resize (bytes : ByteString) (length : ℕ) (byte : UInt8) : ByteString :=
  bytes.take length ++ List.replicate (length - bytes.length) byte

@[simp] theorem length_resize (bytes : ByteString) (length : ℕ) (byte : UInt8) :
    (resize bytes length byte).length = length := by
  simp only [resize, List.length_append, List.length_take, List.length_replicate]
  omega

/-- A resize that does not truncate keeps the bytes. -/
theorem resize_of_le {bytes : ByteString} {length : ℕ} (hlength : bytes.length ≤ length)
    (byte : UInt8) :
    resize bytes length byte = bytes ++ List.replicate (length - bytes.length) byte := by
  rw [resize, List.take_of_length_le hlength]

theorem length_writeSlice {bytes content : ByteString} {start : ℕ}
    (hbound : start + content.length ≤ bytes.length) :
    (writeSlice bytes start content).length = bytes.length := by
  simp only [writeSlice, List.length_append, List.length_take, List.length_drop]
  omega

/-- Reading a written slice back. -/
theorem slice_writeSlice {bytes content : ByteString} {start : ℕ}
    (hbound : start + content.length ≤ bytes.length) :
    slice (writeSlice bytes start content) start content.length = content := by
  have hstart : (bytes.take start).length = start := by
    rw [List.length_take]
    omega
  rw [slice, writeSlice, List.append_assoc, List.drop_left' hstart, List.take_left]

/-- A later write of the same width replaces an earlier one. -/
theorem writeSlice_writeSlice {bytes content content' : ByteString} {start : ℕ}
    (hlength : content.length = content'.length)
    (hbound : start + content.length ≤ bytes.length) :
    writeSlice (writeSlice bytes start content) start content' =
      writeSlice bytes start content' := by
  have hstart : (bytes.take start).length = start := by
    rw [List.length_take]
    omega
  have hend : (bytes.take start ++ content).length = start + content'.length := by
    rw [List.length_append, hstart, hlength]
  unfold writeSlice
  rw [List.drop_left' hend, List.append_assoc (bytes.take start) content, List.take_left' hstart,
    hlength]

/-- Writing a slice over itself changes nothing. -/
theorem writeSlice_slice {bytes : ByteString} {start length : ℕ}
    (hbound : start + length ≤ bytes.length) :
    writeSlice bytes start (slice bytes start length) = bytes := by
  have hlength : (slice bytes start length).length = length := by
    rw [length_slice]
    omega
  rw [writeSlice, hlength, slice, ← List.drop_drop, List.append_assoc, List.take_append_drop,
    List.take_append_drop]

/-! ### Accumulated flags -/

/-- A flag accumulated over a list is set when it was set or some element sets it. -/
theorem foldl_or_eq {α : Type} (test : α → Bool) (elements : List α) (flag : Bool) :
    elements.foldl (fun flag element ↦ flag || test element) flag =
      (flag || elements.any test) := by
  induction elements generalizing flag with
  | nil => simp
  | cons element elements ih => rw [List.foldl_cons, ih, List.any_cons, Bool.or_assoc]

/-! ### Arrays -/

/-- The array of a length that holds the bytes, when their number is the length. -/
def tryInto (length : ℕ) (bytes : ByteString) : Option (List.Vector UInt8 length) :=
  if hlength : bytes.length = length then some ⟨bytes, hlength⟩ else none

theorem tryInto_eq_some_iff {length : ℕ} {bytes : ByteString} {array : List.Vector UInt8 length} :
    tryInto length bytes = some array ↔ array.toList = bytes := by
  by_cases hlength : bytes.length = length
  · rw [tryInto, dif_pos hlength]
    constructor
    · intro harray
      rw [← Option.some.inj harray]
      rfl
    · exact fun hbytes ↦ congrArg some (Subtype.ext hbytes.symm)
  · rw [tryInto, dif_neg hlength]
    refine iff_of_false (Option.some_ne_none array).symm fun hbytes ↦ hlength ?_
    rw [← hbytes, List.Vector.toList_length]

/-- The bytes of an array are the array. -/
theorem tryInto_toList {length : ℕ} (array : List.Vector UInt8 length) :
    tryInto length array.toList = some array :=
  tryInto_eq_some_iff.mpr rfl

end ByteString

end SoftwareKeyCore
