import SoftwareKeyCore.Foundation.ByteString

/-!
# Byte strings with unused high bits

A byte string whose number of bits is not a multiple of eight leaves the high bits of its first
byte unused. `topMask` is the mask of the bits that are used and `clearTop` clears the others.

`clearTop_xorBytes_cancel` is that a mask cancels although the unused bits are cleared after each
application, for a byte string whose own unused bits are clear; `clearTop_eq_self_iff` is the test
of the unused bits by their own mask. `fromBeBytes_clearTop` is the number that the used bits
encode, and `ncard_fromBeBytes_clearTop` counts the byte strings whose used bits encode a number:
there are equally many for every number.
-/

set_option autoImplicit false
set_option relaxedAutoImplicit false

namespace SoftwareKeyCore.MaskedBytes

open ByteString

/-- The bits of a first byte that are used when a number of its high bits is not. -/
def topMask (unused : ℕ) : UInt8 :=
  0xff >>> UInt8.ofNat unused

/-- Clear the bits of the first byte outside a mask. -/
def clearTop (mask : UInt8) (bytes : ByteString) : ByteString :=
  bytes.modify 0 (· &&& mask)

@[simp] theorem clearTop_nil (mask : UInt8) : clearTop mask [] = [] :=
  rfl

@[simp] theorem clearTop_cons (mask byte : UInt8) (bytes : ByteString) :
    clearTop mask (byte :: bytes) = (byte &&& mask) :: bytes :=
  rfl

@[simp] theorem length_clearTop (mask : UInt8) (bytes : ByteString) :
    (clearTop mask bytes).length = bytes.length :=
  List.length_modify _ _ _

/-- Clearing twice is clearing once. -/
theorem clearTop_clearTop (mask : UInt8) (bytes : ByteString) :
    clearTop mask (clearTop mask bytes) = clearTop mask bytes := by
  cases bytes with
  | nil => rfl
  | cons byte bytes => rw [clearTop_cons, clearTop_cons, UInt8.and_assoc, UInt8.and_self]

theorem xor_and_distrib (left right mask : UInt8) :
    (left ^^^ right) &&& mask = (left &&& mask) ^^^ (right &&& mask) := by
  apply UInt8.toBitVec_inj.mp
  ext index hindex
  simp [Bool.and_xor_distrib_right]

/-- A mask cancels although the unused bits are cleared after each application. -/
theorem clearTop_xorBytes_cancel {top : UInt8} {value mask : ByteString}
    (hlength : value.length ≤ mask.length) (hvalue : clearTop top value = value) :
    clearTop top (xorBytes (clearTop top (xorBytes value mask)) mask) = value := by
  cases value with
  | nil => rfl
  | cons byte bytes =>
    cases mask with
    | nil => exact absurd hlength (by simp)
    | cons maskByte maskBytes =>
      rw [clearTop_cons, List.cons.injEq] at hvalue
      have hrest : xorBytes (xorBytes bytes maskBytes) maskBytes = bytes :=
        xorBytes_cancel_right (by simpa using hlength)
      change ((((byte ^^^ maskByte) &&& top) ^^^ maskByte) &&& top) ::
        xorBytes (xorBytes bytes maskBytes) maskBytes = byte :: bytes
      rw [hrest, xor_and_distrib, UInt8.and_assoc, UInt8.and_self, ← xor_and_distrib,
        UInt8.xor_assoc, UInt8.xor_self, UInt8.xor_zero, hvalue.1]

/-- The value and its masked form determine each other when their unused bits are clear. -/
theorem clearTop_xorBytes_eq_iff {top : UInt8} {value masked mask : ByteString}
    (hvalue : value.length ≤ mask.length) (hmasked : masked.length ≤ mask.length)
    (hclear : clearTop top value = value) :
    masked = clearTop top (xorBytes value mask) ↔
      clearTop top masked = masked ∧ clearTop top (xorBytes masked mask) = value := by
  constructor
  · rintro rfl
    exact ⟨clearTop_clearTop _ _, clearTop_xorBytes_cancel hvalue hclear⟩
  · rintro ⟨hmaskedClear, rfl⟩
    exact (clearTop_xorBytes_cancel hmasked hmaskedClear).symm

/-- One is a used bit. -/
theorem one_and_topMask {unused : ℕ} (hunused : unused < 8) : 1 &&& topMask unused = 1 := by
  have hall : ∀ bits < 8, 1 &&& topMask bits = 1 := by decide
  exact hall unused hunused

/-- The high bits that are tested are the ones outside the mask. -/
theorem and_shiftLeft_eq_zero_iff {unused : ℕ} (hpositive : unused ≠ 0) (hunused : unused < 8)
    (byte : UInt8) :
    byte &&& (0xff <<< UInt8.ofNat (8 - unused)) = 0 ↔ byte &&& topMask unused = byte := by
  have hall : ∀ bits < 8, bits ≠ 0 → ∀ value < 256,
      UInt8.ofNat value &&& (0xff <<< UInt8.ofNat (8 - bits)) = 0 ↔
        UInt8.ofNat value &&& topMask bits = UInt8.ofNat value := by
    decide +kernel
  have hbyte := hall unused hunused hpositive byte.toNat byte.toNat_lt
  rwa [UInt8.ofNat_toNat] at hbyte

/-- When no bits are unused the mask clears nothing. -/
theorem clearTop_topMask_zero (bytes : ByteString) : clearTop (topMask 0) bytes = bytes := by
  cases bytes with
  | nil => rfl
  | cons byte bytes =>
    have hmask : topMask 0 = -1 := by decide
    rw [clearTop_cons, hmask, UInt8.and_neg_one]

/-- The test of the unused bits of the first byte. -/
theorem clearTop_eq_self_iff {unused : ℕ} (hunused : unused < 8) (bytes : ByteString) :
    clearTop (topMask unused) bytes = bytes ↔
      unused = 0 ∨ ∀ byte ∈ bytes.head?, byte &&& (0xff <<< UInt8.ofNat (8 - unused)) = 0 := by
  by_cases hzero : unused = 0
  · rw [hzero, clearTop_topMask_zero]
    simp
  · cases bytes with
    | nil => simp
    | cons byte bytes =>
      rw [clearTop_cons, List.cons.injEq, or_iff_right hzero, List.head?_cons]
      simp [and_shiftLeft_eq_zero_iff hzero hunused]

/-- Clearing bits of the first byte does not see what follows. -/
theorem clearTop_append {bytes : ByteString} (hbytes : bytes ≠ []) (mask : UInt8)
    (rest : ByteString) : clearTop mask bytes ++ rest = clearTop mask (bytes ++ rest) := by
  cases bytes with
  | nil => exact absurd rfl hbytes
  | cons byte bytes => rfl

/-- The used bits of a byte are its residue. -/
theorem toNat_and_topMask {unused : ℕ} (hunused : unused < 8) (byte : UInt8) :
    (byte &&& topMask unused).toNat = byte.toNat % 2 ^ (8 - unused) := by
  have hall : ∀ bits < 8, (topMask bits).toNat = 2 ^ (8 - bits) - 1 := by decide
  rw [UInt8.toNat_and, hall unused hunused, Nat.and_two_pow_sub_one_eq_mod]

/-- The number that the used bits encode is the residue of the number of all bits. -/
theorem fromBeBytes_clearTop {unused : ℕ} (hunused : unused < 8) {bytes : ByteString}
    (hbytes : bytes ≠ []) :
    fromBeBytes (clearTop (topMask unused) bytes) =
      fromBeBytes bytes % 2 ^ (8 * bytes.length - unused) := by
  cases bytes with
  | nil => exact absurd rfl hbytes
  | cons byte bytes =>
    have hrest := fromBeBytes_lt bytes
    have hexponent : 8 * (bytes.length + 1) - unused = 8 * bytes.length + (8 - unused) := by omega
    rw [clearTop_cons, fromBeBytes_cons, fromBeBytes_cons, List.length_cons, hexponent, pow_add,
      pow_mul 2 8, show 2 ^ 8 = 256 by norm_num, Nat.mod_mul, Nat.mul_add_mod_self_right,
      Nat.mod_eq_of_lt hrest, toNat_and_topMask hunused, mul_comm byte.toNat,
      Nat.mul_add_div (by positivity), Nat.div_eq_of_lt hrest, add_zero, mul_comm, add_comm]

/-- With its unused bits clear a byte string is a number of its used bits. -/
theorem fromBeBytes_clearTop_lt {unused : ℕ} (hunused : unused < 8) {bytes : ByteString}
    (hbytes : bytes ≠ []) :
    fromBeBytes (clearTop (topMask unused) bytes) < 2 ^ (8 * bytes.length - unused) := by
  rw [fromBeBytes_clearTop hunused hbytes]
  exact Nat.mod_lt _ (by positivity)

/-! ### Counting -/

/-- The byte string of a length with a number of its used bits and one of its unused bits. -/
def withTop (length unused value high : ℕ) : List.Vector UInt8 length :=
  ⟨toBeBytes length (2 ^ (8 * length - unused) * high + value), length_toBeBytes _ _⟩

/-- Used and unused bits together are the number of the byte string. -/
theorem fromBeBytes_withTop {length unused value high : ℕ} (hunused : unused ≤ 8 * length)
    (hvalue : value < 2 ^ (8 * length - unused)) (hhigh : high < 2 ^ unused) :
    fromBeBytes (withTop length unused value high).toList =
      2 ^ (8 * length - unused) * high + value := by
  refine fromBeBytes_toBeBytes_of_lt ?_
  calc 2 ^ (8 * length - unused) * high + value
      < 2 ^ (8 * length - unused) * (high + 1) := by
        rw [mul_add, mul_one]
        exact Nat.add_lt_add_left hvalue _
    _ ≤ 2 ^ (8 * length - unused) * 2 ^ unused := Nat.mul_le_mul_left _ hhigh
    _ = 256 ^ length := by
        rw [← pow_add, Nat.sub_add_cancel hunused, pow_mul]
        norm_num

/-- The byte strings of a length whose used bits encode a number. -/
theorem setOf_fromBeBytes_clearTop {length unused value : ℕ} (hunused : unused < 8)
    (hlength : 0 < length) (hvalue : value < 2 ^ (8 * length - unused)) :
    {bytes : List.Vector UInt8 length |
        fromBeBytes (clearTop (topMask unused) bytes.toList) = value} =
      withTop length unused value '' (Finset.range (2 ^ unused) : Set ℕ) := by
  have hle : unused ≤ 8 * length := by omega
  ext bytes
  have hnonempty : bytes.toList ≠ [] := by
    apply List.ne_nil_of_length_pos
    rwa [List.Vector.toList_length]
  rw [Set.mem_ofPred_eq, Set.mem_image, fromBeBytes_clearTop hunused hnonempty,
    List.Vector.toList_length]
  constructor
  · intro hnumber
    refine ⟨fromBeBytes bytes.toList / 2 ^ (8 * length - unused), ?_, ?_⟩
    · rw [Finset.mem_coe, Finset.mem_range, Nat.div_lt_iff_lt_mul (by positivity), ← pow_add,
        Nat.add_sub_cancel' hle, pow_mul]
      simpa using fromBeBytes_lt bytes.toList
    · apply List.Vector.toList_injective
      have hencoded := toBeBytes_fromBeBytes bytes.toList
      rw [List.Vector.toList_length] at hencoded
      change toBeBytes length (2 ^ (8 * length - unused) *
        (fromBeBytes bytes.toList / 2 ^ (8 * length - unused)) + value) = bytes.toList
      rw [← hnumber, Nat.div_add_mod, hencoded]
  · rintro ⟨high, hhigh, rfl⟩
    rw [Finset.mem_coe, Finset.mem_range] at hhigh
    rw [fromBeBytes_withTop hle hvalue hhigh, Nat.mul_add_mod, Nat.mod_eq_of_lt hvalue]

/-- Every number of the used bits is encoded by the same number of byte strings. -/
theorem ncard_fromBeBytes_clearTop {length unused value : ℕ} (hunused : unused < 8)
    (hlength : 0 < length) (hvalue : value < 2 ^ (8 * length - unused)) :
    Set.ncard {bytes : List.Vector UInt8 length |
        fromBeBytes (clearTop (topMask unused) bytes.toList) = value} = 2 ^ unused := by
  have hle : unused ≤ 8 * length := by omega
  have hinjective : Set.InjOn (withTop length unused value)
      (Finset.range (2 ^ unused) : Set ℕ) := by
    intro high hhigh high' hhigh' hsame
    rw [Finset.mem_coe, Finset.mem_range] at hhigh hhigh'
    have hnumber := congrArg (fun bytes ↦ fromBeBytes (List.Vector.toList bytes)) hsame
    rw [fromBeBytes_withTop hle hvalue hhigh, fromBeBytes_withTop hle hvalue hhigh',
      Nat.add_right_cancel_iff] at hnumber
    exact Nat.eq_of_mul_eq_mul_left (by positivity) hnumber
  rw [setOf_fromBeBytes_clearTop hunused hlength hvalue, hinjective.ncard_image,
    Set.ncard_coe_finset, Finset.card_range]

end SoftwareKeyCore.MaskedBytes
