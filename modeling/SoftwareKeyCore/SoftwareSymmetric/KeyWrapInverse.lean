import SoftwareKeyCore.SoftwareSymmetric.KeyWrap

/-!
# Unwrapping is the inverse of wrapping

The two wrapping formats of `software_symmetric.rs` over a callback that answers with a
permutation of the 16-byte blocks and its inverse. `keyWrapWith_decrypt_iff_encrypt` is RFC 3394:
an unwrapping returns a plaintext exactly when wrapping that plaintext returns the unwrapped
bytes, and wrapping accepts exactly the inputs of at least two whole semiblocks.
`keyWrapWithPaddingWith_decrypt_iff_encrypt` is RFC 5649, where the two encodings meet at one
semiblock and the length of the plaintext is recovered from the decrypted data.

For the padded format the argument goes through the pair `(a, r)` that the decryption sees.
`unwrapPaddedFields_wrapPaddedFields` and `wrapPaddedFields_unwrapPaddedFields` show that
the pair and the wrapping determine each other, and `paddedFieldsInvalid_eq_false_iff` that the
accumulated flag stays clear exactly on the pairs an encryption starts from.
-/

set_option autoImplicit false
set_option relaxedAutoImplicit false

namespace SoftwareKeyCore.KeyWrap

open ByteString CallbackMonad

variable {ε : Type} (callback : BlockCipherCallback ε)

/-! ### RFC 3394 -/

/-- The pair of an initial value and a whole number of semiblocks is well sized. -/
theorem wellSized_of_dvd {a r : ByteString} (ha : a.length = keyWrapSemiblockSize)
    (hr : keyWrapSemiblockSize ∣ r.length) :
    WellSized (r.length / keyWrapSemiblockSize) (a, r) :=
  ⟨ha, (Nat.div_mul_cancel hr).symm⟩

/-- A wrapping and its two parts: the first semiblock and the rest are well sized. -/
theorem wellSized_split {c : ByteString} (hlength : keyWrapSemiblockSize ≤ c.length)
    (hdvd : keyWrapSemiblockSize ∣ c.length) :
    WellSized (c.length / keyWrapSemiblockSize - 1)
      (c.take keyWrapSemiblockSize, c.drop keyWrapSemiblockSize) := by
  obtain ⟨count, hcount⟩ := hdvd
  refine ⟨?_, ?_⟩
  · rw [List.length_take, min_eq_left hlength]
  · dsimp only [keyWrapSemiblockSize] at hcount ⊢
    rw [List.length_drop]
    omega

/-- What a successful wrap computes. -/
theorem keyWrapWith_true_eq_ok_iff {iv x c : ByteString} :
    outcome (keyWrapWith x true iv callback.run) = .ok c ↔
      iv.length = keyWrapSemiblockSize ∧ aesBlockSize ≤ x.length ∧
        keyWrapSemiblockSize ∣ x.length ∧
          ∃ a r, outcome (keyWrapRounds iv x true callback.run) = .ok (a, r) ∧ a ++ r = c := by
  unfold keyWrapWith
  rw [outcome_ite_throw_eq_ok_iff, not_not, if_pos rfl, outcome_ite_throw_eq_ok_iff, not_or,
    not_lt, not_not, outcome_bind_eq_ok, and_assoc]
  refine and_congr_right fun _ ↦ and_congr_right fun _ ↦ and_congr_right fun _ ↦ ?_
  constructor
  · rintro ⟨⟨a, r⟩, hrounds, hresult⟩
    exact ⟨a, r, hrounds, Except.ok.inj hresult⟩
  · rintro ⟨a, r, hrounds, rfl⟩
    exact ⟨(a, r), hrounds, rfl⟩

/-- What a successful unwrap computes. -/
theorem keyWrapWith_false_eq_ok_iff {iv x c : ByteString} :
    outcome (keyWrapWith c false iv callback.run) = .ok x ↔
      iv.length = keyWrapSemiblockSize ∧ aesBlockSize + keyWrapSemiblockSize ≤ c.length ∧
        keyWrapSemiblockSize ∣ c.length ∧
          outcome (keyWrapRounds (c.take keyWrapSemiblockSize) (c.drop keyWrapSemiblockSize)
            false callback.run) = .ok (iv, x) := by
  unfold keyWrapWith
  rw [outcome_ite_throw_eq_ok_iff, not_not, if_neg Bool.false_ne_true,
    outcome_ite_throw_eq_ok_iff, not_or, not_lt, not_not, outcome_bind_eq_ok, and_assoc]
  refine and_congr_right fun _ ↦ and_congr_right fun _ ↦ and_congr_right fun _ ↦ ?_
  constructor
  · rintro ⟨⟨a, r⟩, hrounds, hresult⟩
    obtain ⟨rfl, rfl⟩ := outcome_ite_pure_eq_ok_iff.mp hresult
    exact hrounds
  · intro hrounds
    exact ⟨(iv, x), hrounds, outcome_ite_pure_eq_ok_iff.mpr ⟨rfl, rfl⟩⟩

/-- Wrapping the plaintext of an unwrapping gives back what was unwrapped. -/
theorem keyWrapWith_true_of_false {iv x c : ByteString}
    (hunwrap : outcome (keyWrapWith c false iv callback.run) = .ok x) :
    outcome (keyWrapWith x true iv callback.run) = .ok c := by
  obtain ⟨hiv, hlong, hdvd, hrounds⟩ := (keyWrapWith_false_eq_ok_iff callback).mp hunwrap
  have hsplit := wellSized_split (by omega) hdvd
  obtain ⟨hsized, hback⟩ := keyWrapRounds_false callback hsplit hrounds
  refine (keyWrapWith_true_eq_ok_iff callback).mpr
    ⟨hiv, ?_, ⟨_, hsized.2.trans (mul_comm _ _)⟩, _, _, hback, List.take_append_drop _ _⟩
  have hx : x.length = (c.length / keyWrapSemiblockSize - 1) * keyWrapSemiblockSize := hsized.2
  dsimp only [aesBlockSize, keyWrapSemiblockSize] at hx hlong ⊢
  omega

/-- Unwrapping a wrapping gives back the plaintext. -/
theorem keyWrapWith_false_of_true {iv x c : ByteString}
    (hwrap : outcome (keyWrapWith x true iv callback.run) = .ok c) :
    outcome (keyWrapWith c false iv callback.run) = .ok x := by
  obtain ⟨hiv, hlong, hdvd, a, r, hrounds, rfl⟩ := (keyWrapWith_true_eq_ok_iff callback).mp hwrap
  obtain ⟨hsized, hback⟩ := keyWrapRounds_true callback (wellSized_of_dvd hiv hdvd) hrounds
  have ha : a.length = keyWrapSemiblockSize := hsized.1
  have hr : r.length = x.length := hsized.2.trans (Nat.div_mul_cancel hdvd)
  refine (keyWrapWith_false_eq_ok_iff callback).mpr ⟨hiv, ?_, ?_, ?_⟩
  · rw [List.length_append, ha, hr]
    omega
  · rw [List.length_append, ha, hr]
    exact (Nat.dvd_add_right (dvd_refl _)).mpr hdvd
  · rw [List.take_left' ha, List.drop_left' ha]
    exact hback

/-- Wrapping accepts exactly the inputs of at least two whole semiblocks. -/
theorem exists_keyWrapWith_true_iff (iv x : ByteString) :
    (∃ wrapped, outcome (keyWrapWith x true iv callback.run) = .ok wrapped) ↔
      iv.length = 8 ∧ 16 ≤ x.length ∧ 8 ∣ x.length := by
  constructor
  · rintro ⟨wrapped, hwrap⟩
    obtain ⟨hiv, hlong, hdvd, -⟩ := (keyWrapWith_true_eq_ok_iff callback).mp hwrap
    exact ⟨hiv, hlong, hdvd⟩
  · rintro ⟨hiv, hlong, hdvd⟩
    obtain ⟨a, r, hrounds⟩ := exists_keyWrapRounds_true callback (wellSized_of_dvd hiv hdvd)
    exact ⟨a ++ r, (keyWrapWith_true_eq_ok_iff callback).mpr
      ⟨hiv, hlong, hdvd, a, r, hrounds, rfl⟩⟩

/-- RFC 3394 wrap and unwrap are exact inverses. For every callback that answers with a
permutation of the 16-byte blocks and its inverse and every initial value, unwrapping `c` returns
`x` exactly when wrapping `x` returns `c`; and wrapping accepts exactly the inputs whose length
is a multiple of eight and at least sixteen, under an initial value of eight bytes. -/
theorem keyWrapWith_decrypt_iff_encrypt (iv x c : ByteString) :
    (outcome (keyWrapWith c false iv callback.run) = .ok x ↔
      outcome (keyWrapWith x true iv callback.run) = .ok c) ∧
    ((∃ wrapped, outcome (keyWrapWith x true iv callback.run) = .ok wrapped) ↔
      iv.length = 8 ∧ 16 ≤ x.length ∧ 8 ∣ x.length) :=
  ⟨⟨keyWrapWith_true_of_false callback, keyWrapWith_false_of_true callback⟩,
    exists_keyWrapWith_true_iff callback iv x⟩

/-! ### RFC 5649: the pair `(a, r)` and its wrapping -/

section PaddedFields

variable {semiblocks : ℕ}

/-- Decrypting a wrapping gives back the pair it was made from, and the wrapping is one
semiblock longer than `r`. -/
theorem unwrapPaddedFields_wrapPaddedFields {a r c : ByteString}
    (hsized : WellSized semiblocks (a, r))
    (hwrap : outcome (wrapPaddedFields semiblocks a r callback.run) = .ok c) :
    c.length = (semiblocks + 1) * keyWrapSemiblockSize ∧
      outcome (unwrapPaddedFields semiblocks c callback.run) = .ok (a, r) := by
  have ha : a.length = keyWrapSemiblockSize := hsized.1
  have hr : r.length = semiblocks * keyWrapSemiblockSize := hsized.2
  unfold wrapPaddedFields at hwrap
  unfold unwrapPaddedFields
  by_cases hone : semiblocks = 1
  · rw [if_pos hone] at hwrap ⊢
    have hblock : (a ++ r).length = aesBlockSize := by
      rw [List.length_append, ha, hr, hone, one_mul, aesBlockSize_eq]
    obtain ⟨hc, hback⟩ := callback.outcome_transformBlock_comm hblock hwrap
    refine ⟨?_, outcome_bind_eq_ok.mpr ⟨a ++ r, hback, ?_⟩⟩
    · rw [hc, hone]
      rfl
    · rw [List.take_left' ha, List.drop_left' ha]
      rfl
  · rw [if_neg hone] at hwrap ⊢
    obtain ⟨⟨a', r'⟩, hrounds, hresult⟩ := outcome_bind_eq_ok.mp hwrap
    obtain rfl : a' ++ r' = c := Except.ok.inj hresult
    obtain ⟨hsized', hback⟩ := keyWrapRounds_true callback hsized hrounds
    have ha' : a'.length = keyWrapSemiblockSize := hsized'.1
    have hr' : r'.length = semiblocks * keyWrapSemiblockSize := hsized'.2
    refine ⟨?_, ?_⟩
    · rw [List.length_append, ha', hr']
      ring
    · rw [List.take_left' ha', List.drop_left' ha']
      exact hback

/-- Encrypting the pair a wrapping decrypts to gives back the wrapping. -/
theorem wrapPaddedFields_unwrapPaddedFields {a r c : ByteString}
    (hc : c.length = (semiblocks + 1) * keyWrapSemiblockSize)
    (hunwrap : outcome (unwrapPaddedFields semiblocks c callback.run) = .ok (a, r)) :
    WellSized semiblocks (a, r) ∧
      outcome (wrapPaddedFields semiblocks a r callback.run) = .ok c := by
  unfold unwrapPaddedFields at hunwrap
  unfold wrapPaddedFields
  by_cases hone : semiblocks = 1
  · rw [if_pos hone] at hunwrap ⊢
    obtain ⟨transformed, hcall, hresult⟩ := outcome_bind_eq_ok.mp hunwrap
    have hpair := Prod.mk.inj (Except.ok.inj hresult)
    have hblock : c.length = aesBlockSize := by
      rw [hc, hone]
      rfl
    obtain ⟨htransformed, hback⟩ := callback.outcome_transformBlock_comm hblock hcall
    obtain ⟨hhead, htail⟩ := length_halves htransformed
    rw [← hpair.1, ← hpair.2]
    refine ⟨⟨hhead, ?_⟩, ?_⟩
    · rw [htail, hone, one_mul]
    · rw [List.take_append_drop]
      exact hback
  · rw [if_neg hone] at hunwrap ⊢
    have hsplit : WellSized semiblocks
        (c.take keyWrapSemiblockSize, c.drop keyWrapSemiblockSize) := by
      refine ⟨?_, ?_⟩
      · rw [List.length_take, hc, Nat.succ_mul]
        omega
      · rw [List.length_drop, hc, Nat.succ_mul]
        omega
    obtain ⟨hsized, hback⟩ := keyWrapRounds_false callback hsplit hunwrap
    refine ⟨hsized, outcome_bind_eq_ok.mpr ⟨_, hback, ?_⟩⟩
    dsimp only
    rw [List.take_append_drop]
    rfl

/-- Wrapping a well-sized pair succeeds. -/
theorem exists_wrapPaddedFields {a r : ByteString} (hsized : WellSized semiblocks (a, r)) :
    ∃ c, outcome (wrapPaddedFields semiblocks a r callback.run) = .ok c := by
  unfold wrapPaddedFields
  by_cases hone : semiblocks = 1
  · rw [if_pos hone]
    have hblock : (a ++ r).length = aesBlockSize := by
      rw [List.length_append, hsized.1, hsized.2, hone, one_mul, aesBlockSize_eq]
    exact ⟨_, callback.outcome_transformBlock ⟨a ++ r, hblock⟩ true⟩
  · rw [if_neg hone]
    obtain ⟨a', r', hrounds⟩ := exists_keyWrapRounds_true callback hsized
    exact ⟨a' ++ r', outcome_bind_eq_ok.mpr ⟨(a', r'), hrounds, rfl⟩⟩

end PaddedFields

/-! ### RFC 5649: the accumulated flag -/

/-- No byte from a position on is nonzero exactly when the bytes from there on are zeros. -/
theorem any_zipIdx_eq_false_iff (bytes : ByteString) (position : ℕ) :
    (bytes.zipIdx.any fun entry ↦
      !decide (entry.2 < position) && !decide (entry.1 = 0)) = false ↔
      bytes.drop position = List.replicate (bytes.length - position) 0 := by
  rw [List.eq_replicate_iff, List.length_drop, List.any_eq_false]
  constructor
  · intro hclear
    refine ⟨rfl, fun byte hbyte ↦ ?_⟩
    obtain ⟨index, hindex, rfl⟩ := List.mem_iff_getElem.mp hbyte
    rw [List.getElem_drop]
    rw [List.length_drop] at hindex
    have hentry := hclear (bytes[position + index], position + index)
      (List.mk_mem_zipIdx_iff_getElem?.mpr (List.getElem?_eq_getElem (by omega)))
    simpa using hentry
  · rintro ⟨-, hzero⟩ ⟨byte, index⟩ hentry
    by_cases hindex : index < position
    · simp [hindex]
    · have hget := List.mk_mem_zipIdx_iff_getElem?.mp hentry
      obtain ⟨hlength, rfl⟩ := List.getElem?_eq_some_iff.mp hget
      have hmem : bytes[index] ∈ bytes.drop position :=
        List.mem_drop_iff_getElem.mpr ⟨index - position, by omega, by
          congr 1
          omega⟩
      simp [hzero _ hmem]

/-- The flag stays clear exactly on the pairs whose `a` carries the alternative initial value,
whose length field ends in the last semiblock, and whose pad bytes are zero. -/
theorem paddedFieldsInvalid_eq_false_iff (aiv : ByteString) (semiblocks : ℕ)
    (a r : ByteString) :
    paddedFieldsInvalid aiv semiblocks a r = false ↔
      a.take 4 = aiv ∧ (semiblocks - 1) * 8 < fromBeBytes (a.drop 4) ∧
        fromBeBytes (a.drop 4) ≤ semiblocks * 8 ∧
          r.drop (fromBeBytes (a.drop 4)) =
            List.replicate (r.length - fromBeBytes (a.drop 4)) 0 := by
  rw [← any_zipIdx_eq_false_iff]
  unfold paddedFieldsInvalid
  dsimp only
  rw [foldl_or_eq (fun entry : UInt8 × ℕ ↦
    !decide (entry.2 < fromBeBytes (a.drop 4)) && !decide (entry.1 = 0))]
  simp only [Bool.or_eq_false_iff, Bool.not_eq_false', decide_eq_true_eq, decide_eq_false_iff_not,
    not_lt, and_assoc, keyWrapSemiblockSize]

/-! ### RFC 5649: wrap and unwrap -/

/-- The number of semiblocks of a padded input. -/
abbrev paddedSemiblocks (x : ByteString) : ℕ :=
  (x.length + 7) / keyWrapSemiblockSize

/-- A padded input. -/
abbrev padded (x : ByteString) : ByteString :=
  x ++ List.replicate (paddedSemiblocks x * keyWrapSemiblockSize - x.length) 0

theorem length_padded (x : ByteString) :
    (padded x).length = paddedSemiblocks x * keyWrapSemiblockSize := by
  rw [List.length_append, List.length_replicate]
  dsimp only [paddedSemiblocks, keyWrapSemiblockSize]
  omega

/-- What a successful padded wrap computes. -/
theorem keyWrapWithPaddingWith_true_eq_ok_iff {aiv x c : ByteString} :
    outcome (keyWrapWithPaddingWith x true aiv callback.run) = .ok c ↔
      aiv.length = 4 ∧ 1 ≤ x.length ∧ x.length ≤ 2 ^ 32 - 1 ∧
        outcome (wrapPaddedFields (paddedSemiblocks x) (paddedInitialValue aiv x.length)
          (padded x) callback.run) = .ok c := by
  unfold keyWrapWithPaddingWith
  rw [outcome_ite_throw_eq_ok_iff, not_not, if_pos rfl, outcome_ite_throw_eq_ok_iff, not_or,
    not_lt, ← ne_eq, ← List.length_pos_iff, and_assoc]
  rfl

/-- What a successful padded unwrap computes. -/
theorem keyWrapWithPaddingWith_false_eq_ok_iff {aiv x c : ByteString} :
    outcome (keyWrapWithPaddingWith c false aiv callback.run) = .ok x ↔
      aiv.length = 4 ∧ aesBlockSize ≤ c.length ∧ keyWrapSemiblockSize ∣ c.length ∧
        ∃ a r, outcome (unwrapPaddedFields (c.length / keyWrapSemiblockSize - 1) c
            callback.run) = .ok (a, r) ∧
          paddedFieldsInvalid aiv (c.length / keyWrapSemiblockSize - 1) a r = false ∧
            r.take (fromBeBytes (a.drop 4)) = x := by
  unfold keyWrapWithPaddingWith
  rw [outcome_ite_throw_eq_ok_iff, not_not, if_neg Bool.false_ne_true,
    outcome_ite_throw_eq_ok_iff, not_or, not_lt, not_not, outcome_bind_eq_ok, and_assoc]
  refine and_congr_right fun _ ↦ and_congr_right fun _ ↦ and_congr_right fun _ ↦ ?_
  constructor
  · rintro ⟨⟨a, r⟩, hfields, hresult⟩
    obtain ⟨hflag, hplain⟩ := outcome_ite_throw_eq_ok_iff.mp hresult
    exact ⟨a, r, hfields, Bool.eq_false_of_not_eq_true hflag, Except.ok.inj hplain⟩
  · rintro ⟨a, r, hfields, hflag, rfl⟩
    exact ⟨(a, r), hfields,
      outcome_ite_throw_eq_ok_iff.mpr ⟨Bool.eq_false_iff.mp hflag, rfl⟩⟩

/-- The pair a padded wrap starts from is well sized. -/
theorem wellSized_padded {aiv x : ByteString} (haiv : aiv.length = 4) :
    WellSized (paddedSemiblocks x) (paddedInitialValue aiv x.length, padded x) := by
  refine ⟨?_, length_padded x⟩
  change (aiv ++ toBeBytes 4 x.length).length = keyWrapSemiblockSize
  rw [List.length_append, haiv, length_toBeBytes]

/-- The length field of the pair a padded wrap starts from is the length of the input. -/
theorem lengthField_paddedInitialValue {aiv x : ByteString} (haiv : aiv.length = 4)
    (hlength : x.length ≤ 2 ^ 32 - 1) :
    fromBeBytes ((paddedInitialValue aiv x.length).drop 4) = x.length := by
  rw [paddedInitialValue, List.drop_left' haiv]
  exact fromBeBytes_toBeBytes_of_lt (by omega)

/-- The pair a padded wrap starts from leaves the flag clear. -/
theorem paddedFieldsInvalid_padded {aiv x : ByteString} (haiv : aiv.length = 4)
    (hnonempty : 1 ≤ x.length) (hlength : x.length ≤ 2 ^ 32 - 1) :
    paddedFieldsInvalid aiv (paddedSemiblocks x) (paddedInitialValue aiv x.length)
      (padded x) = false := by
  rw [paddedFieldsInvalid_eq_false_iff, lengthField_paddedInitialValue haiv hlength]
  refine ⟨List.take_left' haiv, ?_, ?_, ?_⟩
  · dsimp only [paddedSemiblocks, keyWrapSemiblockSize]
    omega
  · dsimp only [paddedSemiblocks, keyWrapSemiblockSize]
    omega
  · rw [length_padded, padded, List.drop_left]

/-- A pair that leaves the flag clear is the one a padded wrap of its plaintext starts from. -/
theorem padded_of_paddedFieldsInvalid {aiv a r : ByteString} {semiblocks : ℕ}
    (hsized : WellSized semiblocks (a, r)) (hpositive : 1 ≤ semiblocks)
    (hvalid : paddedFieldsInvalid aiv semiblocks a r = false) :
    let x := r.take (fromBeBytes (a.drop 4))
    1 ≤ x.length ∧ x.length ≤ 2 ^ 32 - 1 ∧ paddedSemiblocks x = semiblocks ∧
      paddedInitialValue aiv x.length = a ∧ padded x = r := by
  obtain ⟨haiv, hmin, hmax, hzero⟩ := (paddedFieldsInvalid_eq_false_iff _ _ _ _).mp hvalid
  have ha : a.length = 8 := hsized.1
  have hr : r.length = semiblocks * 8 := hsized.2
  have hfield : (a.drop 4).length = 4 := by
    rw [List.length_drop, ha]
  have hlt := fromBeBytes_lt (a.drop 4)
  rw [hfield] at hlt
  have hx : (r.take (fromBeBytes (a.drop 4))).length = fromBeBytes (a.drop 4) := by
    rw [List.length_take, hr]
    omega
  have hcount : paddedSemiblocks (r.take (fromBeBytes (a.drop 4))) = semiblocks := by
    dsimp only [paddedSemiblocks, keyWrapSemiblockSize]
    rw [hx]
    omega
  refine ⟨by omega, by omega, hcount, ?_, ?_⟩
  · have hencoded := toBeBytes_fromBeBytes (a.drop 4)
    rw [hfield] at hencoded
    rw [hx, paddedInitialValue, hencoded, ← haiv, List.take_append_drop]
  · rw [padded, hcount, hx, ← hr, ← hzero, List.take_append_drop]

/-- Wrapping the plaintext of an unwrapping gives back what was unwrapped. -/
theorem keyWrapWithPaddingWith_true_of_false {aiv x c : ByteString}
    (hunwrap : outcome (keyWrapWithPaddingWith c false aiv callback.run) = .ok x) :
    outcome (keyWrapWithPaddingWith x true aiv callback.run) = .ok c := by
  obtain ⟨haiv, hlong, hdvd, a, r, hfields, hflag, rfl⟩ :=
    (keyWrapWithPaddingWith_false_eq_ok_iff callback).mp hunwrap
  have hc : c.length = (c.length / keyWrapSemiblockSize - 1 + 1) * keyWrapSemiblockSize := by
    dsimp only [aesBlockSize, keyWrapSemiblockSize] at hlong hdvd ⊢
    omega
  have hpositive : 1 ≤ c.length / keyWrapSemiblockSize - 1 := by
    dsimp only [aesBlockSize, keyWrapSemiblockSize] at hlong hdvd ⊢
    omega
  obtain ⟨hsized, hback⟩ := wrapPaddedFields_unwrapPaddedFields callback hc hfields
  obtain ⟨hnonempty, hshort, hcount, hinitial, hpadded⟩ :=
    padded_of_paddedFieldsInvalid hsized hpositive hflag
  refine (keyWrapWithPaddingWith_true_eq_ok_iff callback).mpr ⟨haiv, hnonempty, hshort, ?_⟩
  rw [hcount, hinitial, hpadded]
  exact hback

/-- Unwrapping a wrapping gives back the plaintext. -/
theorem keyWrapWithPaddingWith_false_of_true {aiv x c : ByteString}
    (hwrap : outcome (keyWrapWithPaddingWith x true aiv callback.run) = .ok c) :
    outcome (keyWrapWithPaddingWith c false aiv callback.run) = .ok x := by
  obtain ⟨haiv, hnonempty, hshort, hfields⟩ :=
    (keyWrapWithPaddingWith_true_eq_ok_iff callback).mp hwrap
  obtain ⟨hc, hback⟩ :=
    unwrapPaddedFields_wrapPaddedFields callback (wellSized_padded haiv) hfields
  have hcount : c.length / keyWrapSemiblockSize - 1 = paddedSemiblocks x := by
    rw [hc, Nat.mul_div_cancel _ (by decide), Nat.add_sub_cancel]
  refine (keyWrapWithPaddingWith_false_eq_ok_iff callback).mpr ⟨haiv, ?_, ⟨_, hc.trans
    (mul_comm _ _)⟩, paddedInitialValue aiv x.length, padded x, ?_, ?_, ?_⟩
  · rw [hc]
    dsimp only [aesBlockSize, paddedSemiblocks, keyWrapSemiblockSize]
    omega
  · rw [hcount]
    exact hback
  · rw [hcount]
    exact paddedFieldsInvalid_padded haiv hnonempty hshort
  · rw [lengthField_paddedInitialValue haiv hshort, padded, List.take_left]

/-- Padded wrapping accepts exactly the inputs of 1 to `2 ^ 32 - 1` bytes. -/
theorem exists_keyWrapWithPaddingWith_true_iff (aiv x : ByteString) :
    (∃ wrapped, outcome (keyWrapWithPaddingWith x true aiv callback.run) = .ok wrapped) ↔
      aiv.length = 4 ∧ 1 ≤ x.length ∧ x.length ≤ 2 ^ 32 - 1 := by
  constructor
  · rintro ⟨wrapped, hwrap⟩
    obtain ⟨haiv, hnonempty, hshort, -⟩ :=
      (keyWrapWithPaddingWith_true_eq_ok_iff callback).mp hwrap
    exact ⟨haiv, hnonempty, hshort⟩
  · rintro ⟨haiv, hnonempty, hshort⟩
    obtain ⟨wrapped, hfields⟩ := exists_wrapPaddedFields callback (wellSized_padded haiv)
    exact ⟨wrapped, (keyWrapWithPaddingWith_true_eq_ok_iff callback).mpr
      ⟨haiv, hnonempty, hshort, hfields⟩⟩

/-- Padded unwrapping accepts exactly what decrypts to a well-formed pair. -/
theorem exists_keyWrapWithPaddingWith_false_iff (aiv c : ByteString) :
    (∃ plaintext,
        outcome (keyWrapWithPaddingWith c false aiv callback.run) = .ok plaintext) ↔
      aiv.length = 4 ∧ 16 ≤ c.length ∧ 8 ∣ c.length ∧
        ∃ a r, outcome (unwrapPaddedFields (c.length / 8 - 1) c callback.run) = .ok (a, r) ∧
          a.take 4 = aiv ∧
          fromBeBytes (a.drop 4) ∈ Set.Ioc (8 * (c.length / 8 - 1 - 1)) (8 * (c.length / 8 - 1)) ∧
          ∀ byte ∈ r.drop (fromBeBytes (a.drop 4)), byte = 0 := by
  constructor
  · rintro ⟨plaintext, hunwrap⟩
    obtain ⟨haiv, hlong, hdvd, a, r, hfields, hflag, -⟩ :=
      (keyWrapWithPaddingWith_false_eq_ok_iff callback).mp hunwrap
    obtain ⟨htake, hmin, hmax, hzero⟩ := (paddedFieldsInvalid_eq_false_iff _ _ _ _).mp hflag
    refine ⟨haiv, hlong, hdvd, a, r, hfields, htake, ⟨?_, ?_⟩, fun byte hbyte ↦ ?_⟩
    · rw [mul_comm]
      exact hmin
    · rw [mul_comm]
      exact hmax
    · rw [hzero] at hbyte
      exact List.eq_of_mem_replicate hbyte
  · rintro ⟨haiv, hlong, hdvd, a, r, hfields, htake, ⟨hmin, hmax⟩, hzero⟩
    rw [mul_comm] at hmin hmax
    refine ⟨_, (keyWrapWithPaddingWith_false_eq_ok_iff callback).mpr
      ⟨haiv, hlong, hdvd, a, r, hfields, ?_, rfl⟩⟩
    rw [paddedFieldsInvalid_eq_false_iff]
    exact ⟨htake, hmin, hmax, List.eq_replicate_iff.mpr ⟨List.length_drop, hzero⟩⟩

/-- RFC 5649 padded wrap and unwrap are exact inverses. For every callback that answers with a
permutation of the 16-byte blocks and its inverse and every alternative initial value: unwrapping
`c` returns `x` exactly when wrapping `x` returns `c`; wrapping accepts exactly the inputs of 1
to `2 ^ 32 - 1` bytes, under an alternative initial value of four bytes; and unwrapping accepts
exactly the whole-semiblock inputs of at least two semiblocks whose decrypted pair carries the
alternative initial value, a length field in the last semiblock and only zero pad bytes. -/
theorem keyWrapWithPaddingWith_decrypt_iff_encrypt (aiv x c : ByteString) :
    (outcome (keyWrapWithPaddingWith c false aiv callback.run) = .ok x ↔
      outcome (keyWrapWithPaddingWith x true aiv callback.run) = .ok c) ∧
    ((∃ wrapped, outcome (keyWrapWithPaddingWith x true aiv callback.run) = .ok wrapped) ↔
      aiv.length = 4 ∧ 1 ≤ x.length ∧ x.length ≤ 2 ^ 32 - 1) ∧
    ((∃ plaintext,
        outcome (keyWrapWithPaddingWith c false aiv callback.run) = .ok plaintext) ↔
      aiv.length = 4 ∧ 16 ≤ c.length ∧ 8 ∣ c.length ∧
        ∃ a r, outcome (unwrapPaddedFields (c.length / 8 - 1) c callback.run) = .ok (a, r) ∧
          a.take 4 = aiv ∧
          fromBeBytes (a.drop 4) ∈ Set.Ioc (8 * (c.length / 8 - 1 - 1)) (8 * (c.length / 8 - 1)) ∧
          ∀ byte ∈ r.drop (fromBeBytes (a.drop 4)), byte = 0) :=
  ⟨⟨keyWrapWithPaddingWith_true_of_false callback,
      keyWrapWithPaddingWith_false_of_true callback⟩,
    exists_keyWrapWithPaddingWith_true_iff callback aiv x,
    exists_keyWrapWithPaddingWith_false_iff callback aiv c⟩

end SoftwareKeyCore.KeyWrap
