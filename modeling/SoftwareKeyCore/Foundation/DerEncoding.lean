import SoftwareKeyCore.Foundation.ByteString

/-!
# The distinguished encoding of integers

DER as byte strings: the definite length in its shortest form (`lengthBytes`), a tagged value
(`tagged`), and a nonnegative integer (`integer`), whose content is the shortest one with a clear
sign bit (`integerContent`). `isMinimal_iff` says which byte strings are shortest encodings of
numbers.

`ReadsAt` is that a part of a byte string stands at an offset; `readsAt_append` cuts a part in two,
which is how a parser that threads an offset is followed.
-/

set_option autoImplicit false
set_option relaxedAutoImplicit false

namespace SoftwareKeyCore

open ByteString

/-! ### Shortest encodings -/

namespace ByteString

/-- A shortest encoding of a number: a zero byte, or bytes that do not start with zero. -/
def IsMinimal : ByteString → Prop
  | [] => False
  | first :: rest => first ≠ 0 ∨ rest = []

theorem isMinimal_toBytesBe (value : ℕ) : IsMinimal (toBytesBe value) := by
  have hvalue := fromBeBytes_toBytesBe value
  cases hbytes : toBytesBe value with
  | nil =>
    have hpositive := length_toBytesBe_pos value
    rw [hbytes] at hpositive
    exact absurd hpositive (by decide)
  | cons first rest =>
    by_cases hfirst : first = 0
    · -- The value fits the bytes after a leading zero, so there are none.
      right
      rw [hbytes, hfirst, fromBeBytes_cons, UInt8.toNat_zero, zero_mul, zero_add] at hvalue
      by_contra hrest
      have hone : 1 ≤ rest.length := List.length_pos_iff.mpr hrest
      have hshort := (length_toBytesBe_le_iff hone).mpr (hvalue ▸ fromBeBytes_lt rest)
      rw [hbytes, List.length_cons] at hshort
      omega
    · exact .inl hfirst

/-- The shortest encodings are those of the numbers that they encode. -/
theorem isMinimal_iff {bytes : ByteString} :
    IsMinimal bytes ↔ bytes = toBytesBe (fromBeBytes bytes) := by
  constructor
  · intro hminimal
    cases bytes with
    | nil => exact absurd hminimal id
    | cons first rest =>
      have hlength : (toBytesBe (fromBeBytes (first :: rest))).length = (first :: rest).length := by
        apply le_antisymm
        · exact (length_toBytesBe_le_iff (Nat.succ_le_succ (Nat.zero_le _))).mpr (fromBeBytes_lt _)
        · rcases hminimal with hfirst | rfl
          · -- The first byte makes the number too large for fewer bytes.
            by_contra hshort
            rw [not_le, List.length_cons, Nat.lt_succ_iff] at hshort
            have hpositive := length_toBytesBe_pos (fromBeBytes (first :: rest))
            have hlt := (length_toBytesBe_le_iff (by omega)).mp hshort
            rw [fromBeBytes_cons] at hlt
            have hbyte : 1 ≤ first.toNat :=
              Nat.pos_of_ne_zero fun hzero ↦ hfirst (UInt8.toNat_inj.mp hzero)
            have hle := Nat.mul_le_mul_right (256 ^ rest.length) hbyte
            omega
          · exact length_toBytesBe_pos _
      exact (fromBeBytes_injective hlength (fromBeBytes_toBytesBe _)).symm
  · intro hbytes
    rw [hbytes]
    exact isMinimal_toBytesBe _

end ByteString

/-! ### Reading at an offset -/

/-- The part stands at the offset, and the next offset is past it. -/
def ReadsAt (bytes : ByteString) (offset : ℕ) (part : ByteString) (next : ℕ) : Prop :=
  part <+: bytes.drop offset ∧ next = offset + part.length

section Reading

variable {bytes : ByteString} {offset next : ℕ}

theorem readsAt_append {left right : ByteString} :
    ReadsAt bytes offset (left ++ right) next ↔
      ∃ middle, ReadsAt bytes offset left middle ∧ ReadsAt bytes middle right next := by
  constructor
  · rintro ⟨⟨rest, hrest⟩, rfl⟩
    refine ⟨offset + left.length, ⟨⟨right ++ rest, ?_⟩, rfl⟩, ⟨rest, ?_⟩, ?_⟩
    · rw [← hrest, List.append_assoc]
    · rw [← List.drop_drop, ← hrest, List.append_assoc, List.drop_left]
    · rw [List.length_append, Nat.add_assoc]
  · rintro ⟨middle, ⟨⟨rest, hleft⟩, rfl⟩, ⟨⟨rest', hright⟩, rfl⟩⟩
    rw [← List.drop_drop, ← hleft, List.drop_left] at hright
    refine ⟨⟨rest', ?_⟩, ?_⟩
    · rw [← hleft, ← hright, List.append_assoc]
    · rw [List.length_append, Nat.add_assoc]

/-- One byte stands where it is read. -/
theorem readsAt_singleton {byte : UInt8} :
    ReadsAt bytes offset [byte] next ↔ bytes[offset]? = some byte ∧ next = offset + 1 := by
  have hhead : bytes[offset]? = (bytes.drop offset).head? := by
    rw [List.head?_drop]
  rw [hhead]
  constructor
  · rintro ⟨⟨rest, hrest⟩, rfl⟩
    rw [← hrest]
    exact ⟨rfl, rfl⟩
  · rintro ⟨hbyte, rfl⟩
    obtain ⟨rest, hrest⟩ := List.head?_eq_some_iff.mp hbyte
    exact ⟨⟨rest, hrest.symm⟩, rfl⟩

theorem readsAt_cons {byte : UInt8} {part : ByteString} :
    ReadsAt bytes offset (byte :: part) next ↔
      bytes[offset]? = some byte ∧ ReadsAt bytes (offset + 1) part next := by
  rw [← List.singleton_append, readsAt_append]
  simp only [readsAt_singleton]
  constructor
  · rintro ⟨middle, ⟨hbyte, rfl⟩, hpart⟩
    exact ⟨hbyte, hpart⟩
  · rintro ⟨hbyte, hpart⟩
    exact ⟨_, ⟨hbyte, rfl⟩, hpart⟩

/-- A part that stands at an offset ends within the bytes. -/
theorem ReadsAt.next_le {part : ByteString} (hreads : ReadsAt bytes offset part next)
    (hpart : part ≠ []) : next ≤ bytes.length := by
  obtain ⟨hstarts, rfl⟩ := hreads
  have hlength := hstarts.length_le
  have hpositive := List.length_pos_iff.mpr hpart
  rw [List.length_drop] at hlength
  omega

/-- What stands at the start and ends at the end is everything. -/
theorem readsAt_zero_length_iff {part : ByteString} :
    ReadsAt bytes 0 part bytes.length ↔ bytes = part := by
  constructor
  · rintro ⟨hstarts, hlength⟩
    rw [List.drop_zero] at hstarts
    rw [zero_add] at hlength
    exact (hstarts.eq_of_length hlength.symm).symm
  · rintro rfl
    exact ⟨List.prefix_rfl, (zero_add _).symm⟩

end Reading

/-! ### DER -/

namespace DerEncoding

/-- A definite length, in the shortest form. -/
def lengthBytes (length : ℕ) : ByteString :=
  if length < 0x80 then [UInt8.ofNat length]
  else UInt8.ofNat (0x80 + (toBytesBe length).length) :: toBytesBe length

/-- A tag, the length of a content, and the content. -/
def tagged (tag : UInt8) (content : ByteString) : ByteString :=
  tag :: (lengthBytes content.length ++ content)

/-- Bytes with a clear first bit: after a zero byte when their first bit is set. -/
def clearSign (bytes : ByteString) : ByteString :=
  if 0x80 ≤ bytes.headD 0 then 0 :: bytes else bytes

/-- The content of a nonnegative integer. -/
def integerContent (value : ℕ) : ByteString :=
  clearSign (toBytesBe value)

/-- `INTEGER`. -/
def integer (value : ℕ) : ByteString :=
  tagged 0x02 (integerContent value)

/-- `SEQUENCE { INTEGER, INTEGER }`. -/
def integerPair (first second : ℕ) : ByteString :=
  tagged 0x30 (integer first ++ integer second)

/-- A length of one byte in the short form. -/
theorem lengthBytes_of_lt {length : ℕ} (hlength : length < 0x80) :
    lengthBytes length = [UInt8.ofNat length] :=
  if_pos hlength

/-- A length of one byte in the long form. -/
theorem lengthBytes_of_le {length : ℕ} (hle : 0x80 ≤ length) (hlt : length < 0x100) :
    lengthBytes length = [0x81, UInt8.ofNat length] := by
  have hbyte : (UInt8.ofNat length).toNat = length := UInt8.toNat_ofNat_of_lt hlt
  have hfirst : UInt8.ofNat length ≠ 0 := by
    intro hzero
    rw [hzero, UInt8.toNat_zero] at hbyte
    omega
  have hminimal : IsMinimal [UInt8.ofNat length] := .inl hfirst
  have hvalue : fromBeBytes [UInt8.ofNat length] = length := by
    rw [fromBeBytes_cons, hbyte, List.length_nil, pow_zero, mul_one, fromBeBytes_nil, add_zero]
  have hbytes : toBytesBe length = [UInt8.ofNat length] := by
    have hself := isMinimal_iff.mp hminimal
    rw [hvalue] at hself
    exact hself.symm
  rw [lengthBytes, if_neg (not_lt.mpr hle), hbytes]
  rfl

theorem length_integerContent_le (value : ℕ) :
    (integerContent value).length ≤ (toBytesBe value).length + 1 := by
  unfold integerContent clearSign
  split_ifs
  · rw [List.length_cons]
  · exact Nat.le_succ _

/-- The contents of integers are the shortest encodings with a clear first bit. -/
theorem exists_integerContent_iff {content value : ByteString} :
    (∃ number, content = integerContent number ∧ value = toBytesBe number) ↔
      IsMinimal value ∧ content = clearSign value := by
  constructor
  · rintro ⟨number, rfl, rfl⟩
    exact ⟨isMinimal_toBytesBe number, rfl⟩
  · rintro ⟨hminimal, rfl⟩
    have hbytes := isMinimal_iff.mp hminimal
    refine ⟨fromBeBytes value, ?_, hbytes⟩
    rw [integerContent, ← hbytes]

/-- A length is encoded in at most one byte more than it has. -/
theorem length_lengthBytes_le_succ {length width : ℕ} (hwidth : 1 ≤ width)
    (hlength : length < 256 ^ width) : (lengthBytes length).length ≤ width + 1 := by
  unfold lengthBytes
  split_ifs
  · exact Nat.le_add_left 1 width
  · rw [List.length_cons]
    exact Nat.succ_le_succ ((length_toBytesBe_le_iff hwidth).mpr hlength)

theorem length_lengthBytes_le {length : ℕ} (hlength : length < 0x100) :
    (lengthBytes length).length ≤ 2 :=
  length_lengthBytes_le_succ le_rfl (by rwa [pow_one])

/-! ### Strict reading -/

/-- A definite length read from the front, in its shortest form only, and what is after it. -/
def readLength : ByteString → Option (ℕ × ByteString)
  | [] => none
  | first :: bytes =>
    let count := if first < 0x80 then 0 else first.toNat - 0x80
    let length := if first < 0x80 then first.toNat else fromBeBytes (bytes.take count)
    if first :: bytes.take count = lengthBytes length then some (length, bytes.drop count) else none

/-- A tagged value read from the front, and what is after it. -/
def readTagged : ByteString → Option (UInt8 × ByteString × ByteString)
  | [] => none
  | tag :: bytes => do
    let (length, bytes) ← readLength bytes
    if length ≤ bytes.length then some (tag, bytes.take length, bytes.drop length) else none

/-- A number below the first one of 127 bytes has fewer bytes. -/
theorem length_toBytesBe_lt {length : ℕ} (hlength : length < 256 ^ 126) :
    (toBytesBe length).length < 0x80 := by
  have hwidth := (length_toBytesBe_le_iff (by decide : 1 ≤ 126)).mpr hlength
  omega

/-- A length is read back. -/
theorem readLength_lengthBytes {length : ℕ} (hlength : length < 256 ^ 126) (rest : ByteString) :
    readLength (lengthBytes length ++ rest) = some (length, rest) := by
  by_cases hshort : length < 0x80
  · have htoNat : (UInt8.ofNat length).toNat = length :=
      UInt8.toNat_ofNat_of_lt (hshort.trans (by decide))
    have hbyte : UInt8.ofNat length < 0x80 := by
      rw [UInt8.lt_iff_toNat_lt, htoNat]
      exact hshort
    rw [lengthBytes_of_lt hshort, List.singleton_append]
    simp only [readLength, if_pos hbyte, List.take_zero, List.drop_zero, htoNat,
      lengthBytes_of_lt hshort, if_true]
  · have hwidth := length_toBytesBe_lt hlength
    have hform : lengthBytes length =
        UInt8.ofNat (0x80 + (toBytesBe length).length) :: toBytesBe length := if_neg hshort
    have hlt : 0x80 + (toBytesBe length).length < 2 ^ 8 := by omega
    have htoNat : (UInt8.ofNat (0x80 + (toBytesBe length).length)).toNat =
        0x80 + (toBytesBe length).length := UInt8.toNat_ofNat_of_lt hlt
    have hbyte : ¬ UInt8.ofNat (0x80 + (toBytesBe length).length) < 0x80 := by
      rw [UInt8.lt_iff_toNat_lt, htoNat, not_lt]
      exact Nat.le_add_right _ _
    rw [hform, List.cons_append]
    simp only [readLength, if_neg hbyte, htoNat, Nat.add_sub_cancel_left, List.take_left,
      List.drop_left, fromBeBytes_toBytesBe, hform, if_true]

/-- A length is only read from its shortest form. -/
theorem readLength_eq_some {bytes rest : ByteString} {length : ℕ}
    (hread : readLength bytes = some (length, rest)) : lengthBytes length ++ rest = bytes := by
  cases bytes with
  | nil => exact absurd hread.symm (Option.some_ne_none _)
  | cons first bytes =>
    simp only [readLength] at hread
    split_ifs at hread with hshort hform hform
    · obtain ⟨rfl, rfl⟩ := Prod.mk.inj (Option.some.inj hread)
      rw [← hform, List.cons_append, List.take_append_drop]
    · obtain ⟨rfl, rfl⟩ := Prod.mk.inj (Option.some.inj hread)
      rw [← hform, List.cons_append, List.take_append_drop]

/-- A tagged value is read back. -/
theorem readTagged_tagged (tag : UInt8) {content : ByteString} (hcontent : content.length < 256 ^ 126)
    (rest : ByteString) :
    readTagged (tagged tag content ++ rest) = some (tag, content, rest) := by
  rw [tagged, List.cons_append, List.append_assoc]
  dsimp only [readTagged]
  rw [readLength_lengthBytes hcontent, Option.bind_eq_bind, Option.bind_some]
  dsimp only
  rw [if_pos (by simp), List.take_left, List.drop_left]

/-- A tagged value is only read from its encoding. -/
theorem readTagged_eq_some {bytes content rest : ByteString} {tag : UInt8}
    (hread : readTagged bytes = some (tag, content, rest)) : tagged tag content ++ rest = bytes := by
  cases bytes with
  | nil => exact absurd hread.symm (Option.some_ne_none _)
  | cons first bytes =>
    obtain ⟨⟨length, after⟩, hlength, hread⟩ := Option.bind_eq_some_iff.mp hread
    dsimp only at hread
    split_ifs at hread with hle
    obtain ⟨rfl, rfl, rfl⟩ := Option.some.inj hread
    rw [tagged, List.length_take_of_le hle, List.cons_append, List.append_assoc,
      List.take_append_drop, readLength_eq_some hlength]

end DerEncoding

end SoftwareKeyCore
