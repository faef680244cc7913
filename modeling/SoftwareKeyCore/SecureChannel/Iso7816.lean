import SoftwareKeyCore.SecureChannel

/-!
# ISO/IEC 7816-4 padding

`secure_channel.rs`, `pad_iso7816` and `unpad_iso7816`: a message is followed by a marker byte of
`0x80` and by zeros up to whole AES blocks. The decoder takes the last byte that is not zero for the
marker.

`unpadIso7816_eq_ok_iff` is that the decoder accepts a message with a marker and any number of zeros,
and nothing else. The padding of a message is one of these, so that a message whose own end looks like
padding is decoded to itself (`iso7816_decodes_uniquely`).
-/

set_option autoImplicit false
set_option relaxedAutoImplicit false

namespace SoftwareKeyCore.SecureChannel

open ByteString CheckedSlice FallibleResult SoftwareSymmetric

/-- `Iterator::rposition`: the index of the last entry that passes a test. -/
def rposition {α : Type} (test : α → Bool) : List α → Option ℕ
  | [] => none
  | entry :: entries =>
    match rposition test entries with
    | some index => some (index + 1)
    | none => if test entry then some 0 else none

/-- `pad_iso7816`. -/
def padIso7816 (data : ByteString) : ByteString :=
  let length := (data.length + 1) ⌈/⌉ aesBlockSize * aesBlockSize
  resize (data ++ [0x80]) length 0

/-- `unpad_iso7816`. -/
def unpadIso7816 (data : ByteString) : Except SecureChannelCryptoError ByteString := do
  let marker ← orError .invalidPadding (rposition (· ≠ 0) data)
  if data[marker]? ≠ some 0x80 then .error .invalidPadding
  else .ok (data.take marker)

/-! ### The last byte that is not zero -/

section

variable {α : Type} {test : α → Bool} {entries : List α}

/-- There is no last entry that passes where none passes. -/
theorem rposition_eq_none (hentries : ∀ entry ∈ entries, test entry = false) :
    rposition test entries = none := by
  induction entries with
  | nil => rfl
  | cons entry entries ih =>
    rw [List.forall_mem_cons] at hentries
    rw [rposition, ih hentries.2]
    simp [hentries.1]

/-- An entry that passes, with none after it that does, is the last one. -/
theorem rposition_append {entry : α} (before : List α) (hentry : test entry = true)
    (hentries : ∀ other ∈ entries, test other = false) :
    rposition test (before ++ entry :: entries) = some before.length := by
  induction before with
  | nil =>
    rw [List.nil_append, rposition, rposition_eq_none hentries]
    simp [hentry]
  | cons first before ih => rw [List.cons_append, rposition, ih, List.length_cons]

end

/-- A buffer is zeros, or ends in zeros after a byte that is not zero. -/
theorem zeros_or_append_zeros (bytes : ByteString) :
    (∃ zeros, bytes = List.replicate zeros 0) ∨
      ∃ before marker zeros, marker ≠ 0 ∧ bytes = before ++ marker :: List.replicate zeros 0 := by
  induction bytes with
  | nil => exact Or.inl ⟨0, rfl⟩
  | cons byte bytes ih =>
    rcases ih with ⟨zeros, rfl⟩ | ⟨before, marker, zeros, hmarker, rfl⟩
    · by_cases hbyte : byte = 0
      · exact Or.inl ⟨zeros + 1, by rw [hbyte, List.replicate_succ]⟩
      · exact Or.inr ⟨[], byte, zeros, hbyte, rfl⟩
    · exact Or.inr ⟨byte :: before, marker, zeros, hmarker, rfl⟩

/-! ### What the decoder accepts -/

theorem unpadIso7816_zeros (zeros : ℕ) :
    unpadIso7816 (List.replicate zeros 0) = .error .invalidPadding := by
  have hnone : rposition (· ≠ (0 : UInt8)) (List.replicate zeros 0) = none :=
    rposition_eq_none fun byte hbyte ↦ by simp [List.eq_of_mem_replicate hbyte]
  rw [unpadIso7816, hnone]
  rfl

/-- The last byte that is not zero decides. -/
theorem unpadIso7816_append {marker : UInt8} (hmarker : marker ≠ 0) (data : ByteString)
    (zeros : ℕ) :
    unpadIso7816 (data ++ marker :: List.replicate zeros 0) =
      if marker = 0x80 then .ok data else .error .invalidPadding := by
  have hposition : rposition (· ≠ (0 : UInt8)) (data ++ marker :: List.replicate zeros 0) =
      some data.length :=
    rposition_append data (by simpa using hmarker)
      fun byte hbyte ↦ by simp [List.eq_of_mem_replicate hbyte]
  rw [unpadIso7816, hposition, orError_some, ok_bind,
    List.getElem?_append_right le_rfl, Nat.sub_self, List.getElem?_cons_zero, List.take_left]
  by_cases hvalue : marker = 0x80
  · rw [if_pos hvalue, if_neg (by simp [hvalue])]
  · rw [if_neg hvalue, if_pos (by simpa using hvalue)]

/-- The decoder accepts a message with a marker and any number of zeros. -/
theorem unpadIso7816_eq_ok_iff {padded data : ByteString} :
    unpadIso7816 padded = .ok data ↔
      ∃ zeros, padded = data ++ 0x80 :: List.replicate zeros 0 := by
  constructor
  · intro haccepts
    rcases zeros_or_append_zeros padded with ⟨zeros, rfl⟩ | ⟨before, marker, zeros, hmarker, rfl⟩
    · rw [unpadIso7816_zeros] at haccepts
      simp at haccepts
    · rw [unpadIso7816_append hmarker] at haccepts
      by_cases hvalue : marker = 0x80
      · rw [if_pos hvalue, Except.ok.injEq] at haccepts
        exact ⟨zeros, by rw [haccepts, hvalue]⟩
      · rw [if_neg hvalue] at haccepts
        simp at haccepts
  · rintro ⟨zeros, rfl⟩
    rw [unpadIso7816_append (by decide), if_pos rfl]

/-- The decoder refuses zeros and every other marker. -/
theorem unpadIso7816_eq_error_iff {padded : ByteString} :
    unpadIso7816 padded = .error .invalidPadding ↔
      (∃ zeros, padded = List.replicate zeros 0) ∨
        ∃ data marker zeros, marker ≠ 0 ∧ marker ≠ 0x80 ∧
          padded = data ++ marker :: List.replicate zeros 0 := by
  constructor
  · intro hrefuses
    rcases zeros_or_append_zeros padded with hzeros | ⟨before, marker, zeros, hmarker, rfl⟩
    · exact Or.inl hzeros
    · rw [unpadIso7816_append hmarker] at hrefuses
      by_cases hvalue : marker = 0x80
      · rw [if_pos hvalue] at hrefuses
        simp at hrefuses
      · exact Or.inr ⟨before, marker, zeros, hmarker, hvalue, rfl⟩
  · rintro (⟨zeros, rfl⟩ | ⟨data, marker, zeros, hmarker, hvalue, rfl⟩)
    · exact unpadIso7816_zeros zeros
    · rw [unpadIso7816_append hmarker, if_neg hvalue]

/-! ### Padding -/

/-- A padded message is the message, a marker, and up to fifteen zeros. -/
theorem padIso7816_eq (data : ByteString) :
    padIso7816 data = data ++
      0x80 :: List.replicate ((data.length + 1) ⌈/⌉ 16 * 16 - (data.length + 1)) 0 := by
  have hlength : (data ++ [(0x80 : UInt8)]).length = data.length + 1 := by
    rw [List.length_append, List.length_singleton]
  have hcover := le_ceilDiv_mul (by decide : 0 < 16) (data.length + 1)
  unfold padIso7816
  dsimp only
  rw [resize_of_le (by rw [hlength]; exact hcover), hlength, List.append_assoc,
    List.singleton_append]

theorem length_padIso7816 (data : ByteString) :
    (padIso7816 data).length = (data.length + 1) ⌈/⌉ 16 * 16 := by
  rw [padIso7816, length_resize]

/-- ISO 7816-4 padding is decoded uniquely. A padded message has the least multiple of the block size
above the length of the message, and is decoded to the message; the decoder accepts a message followed
by a marker and zeros, and refuses zeros and every other marker; and two messages are never padded to
the same buffer. -/
theorem iso7816_decodes_uniquely :
    (∀ data, IsLeast {length | 16 ∣ length ∧ data.length < length} (padIso7816 data).length ∧
      unpadIso7816 (padIso7816 data) = .ok data) ∧
    (∀ padded data, unpadIso7816 padded = .ok data ↔
      ∃ zeros, padded = data ++ 0x80 :: List.replicate zeros 0) ∧
    (∀ padded, unpadIso7816 padded = .error .invalidPadding ↔
      (∃ zeros, padded = List.replicate zeros 0) ∨
        ∃ data marker zeros, marker ≠ 0 ∧ marker ≠ 0x80 ∧
          padded = data ++ marker :: List.replicate zeros 0) ∧
    Function.Injective padIso7816 := by
  have hdecodes : ∀ data, unpadIso7816 (padIso7816 data) = .ok data :=
    fun data ↦ unpadIso7816_eq_ok_iff.mpr ⟨_, padIso7816_eq data⟩
  refine ⟨fun data ↦ ⟨⟨?_, ?_⟩, hdecodes data⟩, fun padded data ↦ unpadIso7816_eq_ok_iff,
    fun padded ↦ unpadIso7816_eq_error_iff, fun data data' hpadded ↦ ?_⟩
  · have hcover := le_ceilDiv_mul (by decide : 0 < 16) (data.length + 1)
    rw [Set.mem_ofPred_eq, length_padIso7816]
    exact ⟨Nat.dvd_mul_left _ _, hcover⟩
  · rintro _ ⟨⟨blocks, rfl⟩, hlt⟩
    rw [length_padIso7816, mul_comm]
    refine Nat.mul_le_mul_left 16 ((ceilDiv_le_iff_le_mul (by decide)).mpr ?_)
    omega
  · have hdata := hdecodes data
    rw [hpadded, hdecodes data', Except.ok.injEq] at hdata
    exact hdata.symm

end SoftwareKeyCore.SecureChannel
