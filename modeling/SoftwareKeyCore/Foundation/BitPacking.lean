import SoftwareKeyCore.Foundation.ByteString

/-!
# Bit packings

Sequences of numbers of a fixed number of bits, packed into bytes without gaps. A byte string is
read as a number, least significant byte first (`fromLeBytes`), and its fields are the digits of
this number in base `2 ^ width` (`bitField`). `packFields` writes the fields of a list.

`bitField_packFields` reads the packed fields back. `bitField_append` is that bytes to come do not
change the fields that are complete, and `fromLeBytes_append_div` is how a byte enters a reader
that dropped the bits of the fields it took. `bitField_eq_ofDigits` reads a field off the bit string
of the bytes, and `fromLeBytes_div_eq_ofDigits` what is left of it.
-/

set_option autoImplicit false
set_option relaxedAutoImplicit false

namespace SoftwareKeyCore.BitPacking

open ByteString

/-! ### Little-endian encodings -/

/-- The number a byte string encodes, least significant byte first. -/
def fromLeBytes (bytes : ByteString) : ℕ :=
  fromBeBytes bytes.reverse

/-- The little-endian encoding of `value` in `width` bytes. -/
def toLeBytes (width value : ℕ) : ByteString :=
  (toBeBytes width value).reverse

@[simp] theorem fromLeBytes_nil : fromLeBytes [] = 0 :=
  rfl

@[simp] theorem length_toLeBytes (width value : ℕ) : (toLeBytes width value).length = width := by
  rw [toLeBytes, List.length_reverse, length_toBeBytes]

theorem pow_eight_mul (count : ℕ) : 2 ^ (8 * count) = 256 ^ count := by
  rw [pow_mul]
  norm_num

theorem fromLeBytes_append (low high : ByteString) :
    fromLeBytes (low ++ high) = fromLeBytes low + 2 ^ (8 * low.length) * fromLeBytes high := by
  rw [fromLeBytes, List.reverse_append, fromBeBytes_append, List.length_reverse, pow_eight_mul,
    add_comm, mul_comm]
  rfl

theorem fromLeBytes_singleton (byte : UInt8) : fromLeBytes [byte] = byte.toNat := by
  rw [fromLeBytes, List.reverse_singleton, fromBeBytes_cons, List.length_nil, pow_zero, mul_one,
    fromBeBytes_nil, add_zero]

theorem fromLeBytes_cons (byte : UInt8) (bytes : ByteString) :
    fromLeBytes (byte :: bytes) = byte.toNat + 256 * fromLeBytes bytes := by
  have happend := fromLeBytes_append [byte] bytes
  rw [fromLeBytes_singleton] at happend
  exact happend

theorem fromLeBytes_lt (bytes : ByteString) : fromLeBytes bytes < 2 ^ (8 * bytes.length) := by
  have hbound := fromBeBytes_lt bytes.reverse
  rwa [List.length_reverse, ← pow_eight_mul] at hbound

/-- Decoding an encoding that is wide enough gives the value back. -/
theorem fromLeBytes_toLeBytes {width value : ℕ} (hvalue : value < 2 ^ (8 * width)) :
    fromLeBytes (toLeBytes width value) = value := by
  rw [pow_eight_mul] at hvalue
  rw [fromLeBytes, toLeBytes, List.reverse_reverse, fromBeBytes_toBeBytes_of_lt hvalue]

/-! ### Fields -/

/-- The field at an index. -/
def bitField (width : ℕ) (bytes : ByteString) (index : ℕ) : ℕ :=
  fromLeBytes bytes / 2 ^ (width * index) % 2 ^ width

/-- The packing of a list of fields. -/
def packFields (width : ℕ) (fields : List ℕ) : ByteString :=
  toLeBytes ((width * fields.length + 7) / 8) (Nat.ofDigits (2 ^ width) fields)

/-- Reading a packed field back. -/
theorem bitField_packFields {width : ℕ} (hwidth : 0 < width) {fields : List ℕ}
    (hfields : ∀ field ∈ fields, field < 2 ^ width) (index : ℕ) :
    bitField width (packFields width fields) index = fields.getD index 0 := by
  have hbase : 1 < 2 ^ width := Nat.one_lt_two_pow hwidth.ne'
  have hsize : Nat.ofDigits (2 ^ width) fields < 2 ^ (8 * ((width * fields.length + 7) / 8)) := by
    calc Nat.ofDigits (2 ^ width) fields
        < (2 ^ width) ^ fields.length := Nat.ofDigits_lt_base_pow_length hbase hfields
      _ = 2 ^ (width * fields.length) := (pow_mul 2 width fields.length).symm
      _ ≤ 2 ^ (8 * ((width * fields.length + 7) / 8)) :=
        Nat.pow_le_pow_right Nat.two_pos (by omega)
  rw [bitField, packFields, fromLeBytes_toLeBytes hsize, pow_mul,
    Nat.ofDigits_div_pow_eq_ofDigits_drop index (by positivity) fields hfields]
  rcases hdrop : fields.drop index with - | ⟨field, rest⟩
  · have hindex : fields.length ≤ index := List.drop_eq_nil_iff.mp hdrop
    rw [List.getD_eq_default _ _ hindex, Nat.ofDigits_nil, Nat.zero_mod]
  · have hfield : fields[index]? = some field := by
      rw [← List.head?_drop, hdrop, List.head?_cons]
    have hmem : field ∈ fields := List.mem_of_getElem? hfield
    rw [Nat.ofDigits_cons, List.getD_eq_getElem?_getD, hfield, Option.getD_some,
      Nat.add_mul_mod_self_left]
    exact Nat.mod_eq_of_lt (hfields field hmem)

/-- A complete field does not depend on the bytes to come. -/
theorem bitField_append {width index : ℕ} {low : ByteString}
    (hcomplete : width * (index + 1) ≤ 8 * low.length) (high : ByteString) :
    bitField width (low ++ high) index = bitField width low index := by
  obtain ⟨more, hmore⟩ := Nat.exists_eq_add_of_le hcomplete
  have hsplit : 2 ^ (8 * low.length) * fromLeBytes high =
      2 ^ (width * index) * (2 ^ width * (2 ^ more * fromLeBytes high)) := by
    rw [hmore]
    ring
  rw [bitField, fromLeBytes_append, hsplit, Nat.add_mul_div_left _ _ (by positivity),
    Nat.add_mul_mod_self_left, bitField]

/-- The bits from a position on, when a byte comes. -/
theorem fromLeBytes_append_div {count : ℕ} {low : ByteString} (hcount : count ≤ 8 * low.length)
    (byte : UInt8) :
    fromLeBytes (low ++ [byte]) / 2 ^ count =
      fromLeBytes low / 2 ^ count + 2 ^ (8 * low.length - count) * byte.toNat := by
  have hsplit : 2 ^ (8 * low.length) = 2 ^ count * 2 ^ (8 * low.length - count) := by
    rw [← pow_add, Nat.add_sub_cancel' hcount]
  rw [fromLeBytes_append, fromLeBytes_singleton, hsplit, mul_assoc,
    Nat.add_mul_div_left _ _ (by positivity)]

/-- The bits from a position on are as many as there are left. -/
theorem fromLeBytes_div_lt {count : ℕ} {bytes : ByteString} (hcount : count ≤ 8 * bytes.length) :
    fromLeBytes bytes / 2 ^ count < 2 ^ (8 * bytes.length - count) := by
  rw [Nat.div_lt_iff_lt_mul (by positivity), ← pow_add, Nat.sub_add_cancel hcount]
  exact fromLeBytes_lt bytes

/-! ### Bit strings -/

/-- The bits of a byte, least significant first. -/
def byteBits (byte : UInt8) : List ℕ :=
  (List.range 8).map fun index ↦ byte.toNat / 2 ^ index % 2

/-- The bit string of a byte string, byte after byte. -/
def bitString (bytes : ByteString) : List ℕ :=
  bytes.flatMap byteBits

theorem length_byteBits (byte : UInt8) : (byteBits byte).length = 8 := by
  rw [byteBits, List.length_map, List.length_range]

theorem ofDigits_byteBits (byte : UInt8) : Nat.ofDigits 2 (byteBits byte) = byte.toNat := by
  have hall : ∀ value < 256, Nat.ofDigits 2
      ((List.range 8).map fun index ↦ value / 2 ^ index % 2) = value := by
    decide +kernel
  exact hall byte.toNat byte.toNat_lt

@[simp] theorem length_bitString (bytes : ByteString) :
    (bitString bytes).length = 8 * bytes.length := by
  induction bytes with
  | nil => rfl
  | cons byte bytes ih =>
    rw [bitString, List.flatMap_cons, List.length_append, length_byteBits, List.length_cons,
      ← bitString, ih]
    omega

theorem lt_two_of_mem_bitString {bytes : ByteString} {bit : ℕ} (hbit : bit ∈ bitString bytes) :
    bit < 2 := by
  obtain ⟨byte, -, hmem⟩ := List.mem_flatMap.mp hbit
  obtain ⟨index, -, rfl⟩ := List.mem_map.mp hmem
  exact Nat.mod_lt _ Nat.two_pos

/-- The number of a byte string is the number of its bit string. -/
theorem ofDigits_bitString (bytes : ByteString) :
    Nat.ofDigits 2 (bitString bytes) = fromLeBytes bytes := by
  induction bytes with
  | nil => rfl
  | cons byte bytes ih =>
    rw [bitString, List.flatMap_cons, Nat.ofDigits_append, length_byteBits, ofDigits_byteBits,
      ← bitString, ih, fromLeBytes_cons, show 2 ^ 8 = 256 by norm_num]

/-- The number of the bits from a position on. -/
theorem fromLeBytes_div_eq_ofDigits (bytes : ByteString) (count : ℕ) :
    fromLeBytes bytes / 2 ^ count = Nat.ofDigits 2 ((bitString bytes).drop count) := by
  rw [← ofDigits_bitString]
  exact Nat.ofDigits_div_pow_eq_ofDigits_drop count Nat.two_pos _
    fun _ hbit ↦ lt_two_of_mem_bitString hbit

/-- A field is the number of its bits. -/
theorem bitField_eq_ofDigits (width : ℕ) (bytes : ByteString) (index : ℕ) :
    bitField width bytes index =
      Nat.ofDigits 2 (((bitString bytes).drop (width * index)).take width) := by
  rw [bitField, fromLeBytes_div_eq_ofDigits]
  exact Nat.ofDigits_mod_pow_eq_ofDigits_take width Nat.two_pos _
    fun _ hbit ↦ lt_two_of_mem_bitString (List.mem_of_mem_drop hbit)

end SoftwareKeyCore.BitPacking
