import SoftwareKeyCore.Foundation.CheckedSlice
import SoftwareKeyCore.Foundation.FallibleResult

/-!
# PKCS #7 padding

`software_symmetric.rs`, `apply_pkcs7_padding` and `remove_pkcs7_padding`: a message is extended to
whole blocks by bytes that are the number of the bytes added (`HasPadding`).

`applyPkcs7Padding_eq_ok_iff` and `removePkcs7Padding_eq_ok_iff` say what each function accepts. The
removal asks for the length of one block but not for whole blocks, and `removesWhatIsApplied_iff` is
when it therefore undoes the padding and nothing else.
-/

set_option autoImplicit false
set_option relaxedAutoImplicit false

namespace SoftwareKeyCore.SoftwareSymmetric

open ByteString CheckedSlice FallibleResult

/-- `Pkcs7PaddingError`. -/
inductive Pkcs7PaddingError
  | invalidBlockLength
  | inputTooLong
  | invalidPadding
  deriving DecidableEq, Repr

/-- `apply_pkcs7_padding`. -/
def applyPkcs7Padding (input : ByteString) (blockLength : ℕ) :
    Except Pkcs7PaddingError ByteString :=
  if ¬ (1 ≤ blockLength ∧ blockLength ≤ 255) then .error .invalidBlockLength
  else do
    let paddingLength := blockLength - input.length % blockLength
    let paddedLength ← orError .inputTooLong (checkedAdd input.length paddingLength)
    .ok (resize input paddedLength (UInt8.ofNat paddingLength))

/-- The choice that `remove_pkcs7_padding` accumulates over the last block, from its end. -/
def hasInvalidPadding (plaintext : ByteString) (blockLength : ℕ) : Bool :=
  let padding := plaintext.getLast?.getD 0
  (plaintext.reverse.take blockLength).zipIdx.foldl
    (fun invalid entry ↦
      invalid || (decide (UInt8.ofNat entry.2 < padding) && !decide (entry.1 = padding)))
    (decide (padding = 0) || decide (UInt8.ofNat blockLength < padding))

/-- `remove_pkcs7_padding`. -/
def removePkcs7Padding (plaintext : ByteString) (blockLength : ℕ) :
    Except Pkcs7PaddingError ByteString :=
  if ¬ (1 ≤ blockLength ∧ blockLength ≤ 255) ∨ plaintext.length < blockLength then
    .error .invalidBlockLength
  else if hasInvalidPadding plaintext blockLength then .error .invalidPadding
  else .ok (plaintext.take (plaintext.length - (plaintext.getLast?.getD 0).toNat))

/-! ### What the functions accept -/

/-- A plaintext is a message with up to a block of bytes after it that are their number. -/
def HasPadding (blockLength : ℕ) (plaintext message : ByteString) : Prop :=
  ∃ count, 1 ≤ count ∧ count ≤ blockLength ∧
    plaintext = message ++ List.replicate count (UInt8.ofNat count)

variable {blockLength : ℕ} {plaintext message : ByteString}

/-- The padding is what fills the last block. -/
theorem applyPkcs7Padding_eq_ok_iff (hblock : 1 ≤ blockLength ∧ blockLength ≤ 255) :
    applyPkcs7Padding message blockLength = .ok plaintext ↔
      plaintext.length < 2 ^ 64 ∧ blockLength ∣ plaintext.length ∧
        HasPadding blockLength plaintext message := by
  have hmod := Nat.mod_lt message.length hblock.1
  have hsplit := Nat.div_add_mod message.length blockLength
  unfold applyPkcs7Padding
  rw [if_neg (not_not.mpr hblock), bind_eq_ok_iff]
  simp only [orError_eq_ok_iff, checkedAdd_eq_some_iff, Except.ok.injEq]
  constructor
  · rintro ⟨total, ⟨hlt, rfl⟩, rfl⟩
    rw [length_resize]
    refine ⟨hlt, ?_, _, Nat.sub_pos_of_lt hmod, Nat.sub_le _ _, ?_⟩
    · refine ⟨message.length / blockLength + 1, ?_⟩
      rw [mul_add, mul_one]
      omega
    · rw [resize_of_le (Nat.le_add_right _ _), Nat.add_sub_cancel_left]
  · rintro ⟨hlt, hdvd, count, hpositive, hle, rfl⟩
    rw [List.length_append, List.length_replicate] at hlt hdvd
    have hcount : blockLength - message.length % blockLength = count := by
      have hrest : blockLength ∣ message.length % blockLength + count := by
        rw [← hsplit, add_assoc] at hdvd
        exact (Nat.dvd_add_right (Nat.dvd_mul_right _ _)).mp hdvd
      have hfull := Nat.eq_of_dvd_of_lt_two_mul (by omega) hrest (by omega)
      omega
    refine ⟨message.length + count, ⟨?_, ?_⟩, ?_⟩
    · rwa [hcount]
    · rw [hcount]
    · rw [hcount, resize_of_le (Nat.le_add_right _ _), Nat.add_sub_cancel_left]

/-- A number of first bytes are all the same when no entry below that index is another byte. -/
theorem forall_zipIdx_iff {bytes : ByteString} {count bound : ℕ} {byte : UInt8}
    (hcount : count ≤ bound) (hbound : bound ≤ bytes.length) :
    (∀ entry ∈ (bytes.take bound).zipIdx, entry.2 < count → entry.1 = byte) ↔
      bytes.take count = List.replicate count byte := by
  rw [List.eq_replicate_iff, List.length_take_of_le (hcount.trans hbound), and_iff_right rfl]
  constructor
  · intro hentries other hother
    obtain ⟨index, hindex, rfl⟩ := List.mem_take_iff_getElem.mp hother
    have hlt : index < count := hindex.trans_le (Nat.min_le_left _ _)
    refine hentries (_, index) (List.mem_zipIdx_iff_getElem?.mpr ?_) hlt
    rw [List.getElem?_take_of_lt (hlt.trans_le hcount), List.getElem?_eq_getElem]
  · intro hbytes entry hentry hlt
    rw [List.mem_zipIdx_iff_getElem?, List.getElem?_take_of_lt (hlt.trans_le hcount)] at hentry
    refine hbytes entry.1 (List.mem_of_getElem? (i := entry.2) ?_)
    rw [List.getElem?_take_of_lt hlt, hentry]

/-- The padding is accepted when the last byte is a number of bytes in a block, and that many last
bytes are it. -/
theorem hasInvalidPadding_eq_false_iff {padding : UInt8} (hblock : blockLength ≤ 255)
    (hlength : blockLength ≤ plaintext.length) (hlast : plaintext.getLast?.getD 0 = padding) :
    hasInvalidPadding plaintext blockLength = false ↔
      padding ≠ 0 ∧ padding.toNat ≤ blockLength ∧
        plaintext.reverse.take padding.toNat = List.replicate padding.toNat padding := by
  have hpadding : UInt8.ofNat blockLength < padding ↔ ¬ padding.toNat ≤ blockLength := by
    rw [UInt8.lt_iff_toNat_lt, UInt8.toNat_ofNat', Nat.mod_eq_of_lt (by omega), not_le]
  have hindex : ∀ index < blockLength, UInt8.ofNat index < padding ↔ index < padding.toNat := by
    intro index hlt
    rw [UInt8.lt_iff_toNat_lt, UInt8.toNat_ofNat', Nat.mod_eq_of_lt (by omega)]
  unfold hasInvalidPadding
  rw [hlast, foldl_or_eq, Bool.or_eq_false_iff, Bool.or_eq_false_iff, decide_eq_false_iff_not,
    decide_eq_false_iff_not, hpadding, not_not, and_assoc]
  refine and_congr_right fun _ ↦ and_congr_right fun hle ↦ ?_
  rw [← forall_zipIdx_iff hle (by rwa [List.length_reverse]), List.any_eq_false]
  refine forall₂_congr fun entry hentry ↦ ?_
  have hlt : entry.2 < blockLength := by
    have hbound := List.snd_lt_of_mem_zipIdx hentry
    exact hbound.trans_le (List.length_take_le _ _)
  simp [hindex entry.2 hlt]

/-- The removal accepts every plaintext of a block or more that has padding. -/
theorem removePkcs7Padding_eq_ok_iff (hblock : 1 ≤ blockLength ∧ blockLength ≤ 255) :
    removePkcs7Padding plaintext blockLength = .ok message ↔
      blockLength ≤ plaintext.length ∧ HasPadding blockLength plaintext message := by
  unfold removePkcs7Padding
  rw [ite_error_eq_ok_iff, not_or, not_not, not_lt, and_assoc, and_iff_right hblock]
  refine and_congr_right fun hlength ↦ ?_
  rw [ite_error_eq_ok_iff, Bool.not_eq_true,
    hasInvalidPadding_eq_false_iff hblock.2 hlength rfl, Except.ok.injEq]
  constructor
  · rintro ⟨⟨hne, hle, htail⟩, rfl⟩
    generalize plaintext.getLast?.getD 0 = padding at hne hle htail ⊢
    have hpositive : 1 ≤ padding.toNat := by
      rw [Nat.one_le_iff_ne_zero]
      exact fun hzero ↦ hne (UInt8.toNat_inj.mp hzero)
    have hend : plaintext.drop (plaintext.length - padding.toNat) =
        List.replicate padding.toNat padding := by
      rw [← List.reverse_inj, ← List.take_reverse, htail, List.reverse_replicate]
    refine ⟨padding.toNat, hpositive, hle, ?_⟩
    rw [UInt8.ofNat_toNat, ← hend, List.take_append_drop]
  · rintro ⟨count, hpositive, hle, rfl⟩
    have hvalue : (UInt8.ofNat count).toNat = count := by
      rw [UInt8.toNat_ofNat', Nat.mod_eq_of_lt (by omega)]
    have hlast : (message ++ List.replicate count (UInt8.ofNat count)).getLast?.getD 0 =
        UInt8.ofNat count := by
      rw [List.getLast?_append, List.getLast?_replicate, if_neg (by omega)]
      rfl
    rw [hlast, hvalue]
    refine ⟨⟨?_, hle, ?_⟩, ?_⟩
    · intro hzero
      rw [hzero] at hvalue
      exact absurd hvalue (by simp; omega)
    · rw [List.reverse_append, List.reverse_replicate]
      exact List.take_left' List.length_replicate
    · rw [List.length_append, List.length_replicate, Nat.add_sub_cancel]
      exact List.take_left' rfl

/-! ### When the removal undoes the padding -/

/-- The removal gives a message exactly when the padding of the message is the plaintext. -/
def RemovesWhatIsApplied (plaintext message : ByteString) (blockLength : ℕ) : Prop :=
  removePkcs7Padding plaintext blockLength = .ok message ↔
    applyPkcs7Padding message blockLength = .ok plaintext

/-- The removal gives back what was padded, and nothing else, except where a plaintext of a block or
more that is not made of whole blocks ends in up to a block of bytes that are their number.

Assumes a block of 1 to 255 bytes, which a pad byte can count, and a plaintext that a slice can
hold. -/
theorem removesWhatIsApplied_iff (hblock : 1 ≤ blockLength ∧ blockLength ≤ 255)
    (hplaintext : plaintext.length < 2 ^ 63) :
    RemovesWhatIsApplied plaintext message blockLength ↔
      ¬ (blockLength ≤ plaintext.length ∧ ¬ blockLength ∣ plaintext.length ∧
        HasPadding blockLength plaintext message) := by
  unfold RemovesWhatIsApplied
  rw [removePkcs7Padding_eq_ok_iff hblock, applyPkcs7Padding_eq_ok_iff hblock]
  have hword : plaintext.length < 2 ^ 64 := by omega
  by_cases hpadding : HasPadding blockLength plaintext message
  · have hne : 0 < plaintext.length := by
      obtain ⟨count, hpositive, -, rfl⟩ := hpadding
      rw [List.length_append, List.length_replicate]
      omega
    by_cases hdvd : blockLength ∣ plaintext.length
    · have hle := Nat.le_of_dvd hne hdvd
      exact iff_of_true (iff_of_true ⟨hle, hpadding⟩ ⟨hword, hdvd, hpadding⟩) fun h ↦ h.2.1 hdvd
    · simp [hpadding, hdvd]
  · simp [hpadding]

/-- A block of zeros with a byte of padding after it, for blocks of 16 bytes. -/
theorem not_removesWhatIsApplied_seventeen :
    ¬ RemovesWhatIsApplied (List.replicate 16 0 ++ [1]) (List.replicate 16 0) 16 := by
  unfold RemovesWhatIsApplied
  decide

/-- A whole block of padding. -/
theorem removesWhatIsApplied_iff_block :
    RemovesWhatIsApplied (List.replicate 16 16) [] 16 :=
  (removesWhatIsApplied_iff (by decide) (by decide)).mpr fun h ↦ h.2.1 (by decide)

end SoftwareKeyCore.SoftwareSymmetric
