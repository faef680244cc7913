import SoftwareKeyCore.RsaSigning.PublicOperations

/-!
# Lengths of PSS encodings near the end of the words

`rsa_signing.rs`: the length arithmetic of `pss_encoded_digest` and `verify_pss_encoded_digest`.
Both add the length of the hash, the salt length of the caller and two without a check, and the
verifier multiplies the length of the encoded message by eight before anything bounds it.

`OverflowsEncoding` and `OverflowsVerification` are the inputs whose arithmetic overflows.
`answer_pssEncodedDigest_eq_none_iff` and `answer_verifyPssEncodedDigest_eq_none_iff` are that they
are the only ones that panic, and `encodesSafely_iff` and `verifiesSafely_iff` that on all others a
salt that does not fit is refused.
-/

set_option autoImplicit false
set_option relaxedAutoImplicit false

namespace SoftwareKeyCore.RsaSigning

open ByteString CallbackSession CheckedSlice MaskedBytes Panicking

/-- The inputs of the encoder whose sum of lengths is past the words. -/
def OverflowsEncoding (modulusBits : ℕ) (parameters : RsaPssParameters) (digest : ByteString) :
    Prop :=
  digest.length = parameters.hash.outputLength ∧ modulusBits ≠ 0 ∧
    2 ^ 64 ≤ parameters.hash.outputLength + parameters.saltLength + 2

/-- The inputs of the verifier whose sum of lengths is past the words, or whose encoded message has
a number of bits past the words. -/
def OverflowsVerification (encoded : ByteString) (modulusBits : ℕ) (parameters : RsaPssParameters)
    (digest : ByteString) : Prop :=
  digest.length = parameters.hash.outputLength ∧
    ∃ emBits zeros message, modulusBits = emBits + 1 ∧
      encoded = List.replicate zeros 0 ++ message ∧ message.length = emBits ⌈/⌉ 8 ∧
      (2 ^ 64 ≤ parameters.hash.outputLength + parameters.saltLength + 2 ∨
        parameters.hash.outputLength + parameters.saltLength + 2 ≤ message.length ∧
          message.getLast? = some 0xbc ∧ 2 ^ 64 ≤ 8 * message.length)

/-- The encoder does not overflow, and it refuses a salt that does not fit the encoded message. -/
structure EncodesSafely (hashes : HashFunctions) (fill : RandomFill) (modulusBits : ℕ)
    (parameters : RsaPssParameters) (digest : ByteString) : Prop where
  no_overflow : answer (pssEncodedDigest hashes fill modulusBits parameters digest) ≠ none
  refuses : ∀ emBits, digest.length = parameters.hash.outputLength → modulusBits = emBits + 1 →
    emBits ⌈/⌉ 8 < parameters.hash.outputLength + parameters.saltLength + 2 →
      answer (pssEncodedDigest hashes fill modulusBits parameters digest) =
        some (.error .inputTooLong)

/-- The verifier does not overflow, and it refuses a salt that does not fit the encoded message. -/
structure VerifiesSafely (hashes : HashFunctions) (encoded : ByteString) (modulusBits : ℕ)
    (parameters : RsaPssParameters) (digest : ByteString) : Prop where
  no_overflow : answer (verifyPssEncodedDigest hashes encoded modulusBits parameters digest) ≠ none
  refuses : ∀ emBits, digest.length = parameters.hash.outputLength → modulusBits = emBits + 1 →
    emBits ⌈/⌉ 8 < parameters.hash.outputLength + parameters.saltLength + 2 →
      answer (verifyPssEncodedDigest hashes encoded modulusBits parameters digest) =
        some (.error .invalidSignature)

section

variable {hashes : HashFunctions} {fill : RandomFill} {modulusBits emBits : ℕ}
  {parameters : RsaPssParameters} {digest message encoded : ByteString}

/-! ### The encoder -/

/-- The encoder panics where its sum of lengths overflows, and nowhere else. -/
theorem answer_pssEncodedDigest_eq_none_iff :
    answer (pssEncodedDigest hashes fill modulusBits parameters digest) = none ↔
      OverflowsEncoding modulusBits parameters digest := by
  constructor
  · intro hpanic
    have hpanics : ∀ result, answer (pssEncodedDigest hashes fill modulusBits parameters digest) ≠
        some result := fun result hanswer ↦ nomatch hpanic.symm.trans hanswer
    refine ⟨?_, ?_, ?_⟩
    · by_contra hdigest
      refine hpanics (.error .invalidDigestLength) ?_
      rw [pssEncodedDigest, if_pos hdigest]
      rfl
    · rintro rfl
      unfold pssEncodedDigest at hpanic
      split_ifs at hpanic
      · exact absurd hpanic (Option.some_ne_none _)
      · exact absurd hpanic (Option.some_ne_none _)
    · by_contra hrange
      obtain ⟨result, hanswer⟩ :=
        exists_answer_pssEncodedDigest hashes fill modulusBits (not_le.mp hrange) digest
      exact hpanics result hanswer
  · rintro ⟨hdigest, hmodulus, hsum⟩
    obtain ⟨emBits, hbits⟩ := Nat.exists_eq_add_one_of_ne_zero hmodulus
    unfold pssEncodedDigest
    rw [if_neg (not_not.mpr hdigest), subtract_eq_some_iff.mpr hbits]
    dsimp only
    rw [answer_checkedAdd_bind, if_neg (not_lt.mpr hsum)]

/-- The encoder is safe exactly on the inputs whose sum of lengths does not overflow. -/
theorem encodesSafely_iff :
    EncodesSafely hashes fill modulusBits parameters digest ↔
      ¬ OverflowsEncoding modulusBits parameters digest := by
  constructor
  · exact fun hsafe hoverflow ↦
      hsafe.no_overflow (answer_pssEncodedDigest_eq_none_iff.mpr hoverflow)
  · intro hoverflow
    refine ⟨fun hpanic ↦ hoverflow (answer_pssEncodedDigest_eq_none_iff.mp hpanic), ?_⟩
    intro emBits hdigest hbits hshort
    have hrange : parameters.hash.outputLength + parameters.saltLength + 2 < 2 ^ 64 := by
      by_contra hsum
      exact hoverflow ⟨hdigest, by omega, not_lt.mp hsum⟩
    unfold pssEncodedDigest
    rw [if_neg (not_not.mpr hdigest), subtract_eq_some_iff.mpr hbits]
    dsimp only
    rw [answer_checkedAdd_bind, if_pos hrange, if_pos hshort]
    rfl

/-! ### The verifier -/

theorem safe_pssSalt {saltLength : ℕ} (hsalt : saltLength + 1 < 2 ^ 64) (db : ByteString) :
    Safe (pssSalt db saltLength) fun _ ↦ True := by
  refine (safe_orPanic (checkedAdd_eq_some_iff.mpr ⟨hsalt, rfl⟩)).bind fun tail htail ↦ ?_
  rw [htail]
  cases hseparator : subtract db.length (saltLength + 1) with
  | none => exact safe_throw _ _
  | some separator =>
    have hlength := subtract_eq_some_iff.mp hseparator
    refine (safe_throwIf _ _).bind fun _ _ ↦ ?_
    refine (safe_orPanic (sliceTo_eq_some (by omega))).bind fun zeros _ ↦ ?_
    refine (safe_throwIf _ _).bind fun _ _ ↦ ?_
    exact (safe_orPanic (sliceFrom_eq_some (by omega))).mono fun _ _ ↦ trivial

theorem safe_hasUnusedBits {unused : ℕ} (hunused : unused < 8) (maskedDb : ByteString) :
    Safe (hasUnusedBits maskedDb unused) fun _ ↦ True := by
  unfold hasUnusedBits
  split_ifs with hzero
  · exact safe_pure trivial
  · cases maskedDb.head? with
    | none => exact safe_pure trivial
    | some value =>
      have hmask : Safe (ε := RsaConstructionError) (unusedMask unused) fun _ ↦ True := by
        refine (safe_checkedSub hunused.le).bind fun shift hshift ↦ ?_
        exact (safe_orPanic (if_pos (by omega))).mono fun _ _ ↦ trivial
      exact hmask.bind fun _ _ ↦ safe_pure trivial

/-- A block whose number of bits is in the words is verified without a panic. -/
theorem safe_verifyPssBlock {maskedDb : ByteString} (hmaskedDb : maskedDb ≠ [])
    (hproduct : 8 * (emBits ⌈/⌉ 8) < 2 ^ 64) (hsalt : parameters.saltLength + 1 < 2 ^ 64)
    (h : ByteString) :
    Safe (verifyPssBlock hashes maskedDb h emBits parameters digest) fun _ ↦ True := by
  obtain ⟨hle, hunused⟩ := unused_lt emBits
  refine (safe_orPanic (checkedMul_eq_some_iff.mpr ⟨hproduct, rfl⟩)).bind fun usedBits hused ↦ ?_
  rw [hused]
  refine (safe_checkedSub hle).bind fun unused hdifference ↦ ?_
  rw [← hdifference] at hunused
  refine (safe_hasUnusedBits hunused maskedDb).bind fun unusedSet _ ↦ ?_
  refine (safe_throwIf _ _).bind fun _ _ ↦ (safe_ofResult _ _).bind fun mask hmask ↦ ?_
  refine (safe_orPanic (if_pos hunused)).bind fun top _ ↦ ?_
  have hdb : 0 < (xorInPlace maskedDb mask).length := by
    have hlength := length_mgf1_eq hashes hmask
    rw [xorInPlace_eq hlength, length_xorBytes, hlength, min_self]
    exact List.length_pos_iff.mpr hmaskedDb
  refine (safe_orPanic (modifyByte_eq_some hdb _)).bind fun db _ ↦ ?_
  refine (safe_pssSalt hsalt db).bind fun salt _ ↦ ?_
  exact (safe_throwIf _ _).mono fun _ _ ↦ trivial

/-- The verification of a message panics where the sum of lengths overflows and, on a message that
passes the test of its length and of its last byte, where its number of bits does. -/
theorem answer_verifyPssMessage_eq_none_iff (hlength : message.length = emBits ⌈/⌉ 8) :
    answer (verifyPssMessage hashes message emBits parameters digest) = none ↔
      2 ^ 64 ≤ parameters.hash.outputLength + parameters.saltLength + 2 ∨
        parameters.hash.outputLength + parameters.saltLength + 2 ≤ message.length ∧
          message.getLast? = some 0xbc ∧ 2 ^ 64 ≤ 8 * message.length := by
  by_cases hrange : parameters.hash.outputLength + parameters.saltLength + 2 < 2 ^ 64
  swap
  · rw [not_lt] at hrange
    exact iff_of_true (answer_verifyPssMessage_of_overflow hrange) (.inl hrange)
  rw [or_iff_right (not_le.mpr hrange)]
  by_cases hshape : parameters.hash.outputLength + parameters.saltLength + 2 ≤ message.length ∧
      message.getLast? = some 0xbc
  swap
  · rw [answer_verifyPssMessage_of_not_shape hrange hshape]
    exact iff_of_false (Option.some_ne_none _) fun h ↦ hshape ⟨h.1, h.2.1⟩
  rw [answer_verifyPssMessage_of_shape hrange hshape, and_iff_right hshape.1,
    and_iff_right hshape.2]
  have hmaskedDb : message.take (message.length - parameters.hash.outputLength - 1) ≠ [] := by
    rw [← List.length_pos_iff, List.length_take]
    omega
  by_cases hproduct : 8 * (emBits ⌈/⌉ 8) < 2 ^ 64
  · rw [hlength] at hmaskedDb ⊢
    exact iff_of_false
      (safe_verifyPssBlock hmaskedDb hproduct (by omega) _).answer_ne_none (not_le.mpr hproduct)
  · unfold verifyPssBlock
    rw [checkedMul, if_neg hproduct, hlength]
    exact iff_of_true rfl (not_lt.mp hproduct)

/-- The verifier panics where its arithmetic overflows, and nowhere else. -/
theorem answer_verifyPssEncodedDigest_eq_none_iff :
    answer (verifyPssEncodedDigest hashes encoded modulusBits parameters digest) = none ↔
      OverflowsVerification encoded modulusBits parameters digest := by
  constructor
  · intro hpanic
    have hdigest : digest.length = parameters.hash.outputLength := by
      by_contra hdigest
      rw [verifyPssEncodedDigest, if_pos hdigest] at hpanic
      exact absurd hpanic (Option.some_ne_none _)
    have hmodulus : modulusBits ≠ 0 := by
      rintro rfl
      rw [verifyPssEncodedDigest, if_neg (not_not.mpr hdigest)] at hpanic
      exact absurd hpanic (Option.some_ne_none _)
    obtain ⟨emBits, hbits⟩ := Nat.exists_eq_add_one_of_ne_zero hmodulus
    by_cases hpadded : IsPadded emBits encoded
    · obtain ⟨zeros, message, rfl, hlength⟩ := hpadded
      rw [answer_verifyPssEncodedDigest_of_padded hdigest hbits zeros hlength] at hpanic
      exact ⟨hdigest, emBits, zeros, message, hbits, rfl, hlength,
        (answer_verifyPssMessage_eq_none_iff hlength).mp hpanic⟩
    · rw [answer_verifyPssEncodedDigest_of_not_padded hdigest hbits hpadded] at hpanic
      exact absurd hpanic (Option.some_ne_none _)
  · rintro ⟨hdigest, emBits, zeros, message, hbits, rfl, hlength, hoverflow⟩
    rw [answer_verifyPssEncodedDigest_of_padded hdigest hbits zeros hlength]
    exact (answer_verifyPssMessage_eq_none_iff hlength).mpr hoverflow

/-- The verifier is safe exactly on the inputs whose arithmetic does not overflow. -/
theorem verifiesSafely_iff :
    VerifiesSafely hashes encoded modulusBits parameters digest ↔
      ¬ OverflowsVerification encoded modulusBits parameters digest := by
  constructor
  · exact fun hsafe hoverflow ↦
      hsafe.no_overflow (answer_verifyPssEncodedDigest_eq_none_iff.mpr hoverflow)
  · intro hoverflow
    refine ⟨fun hpanic ↦ hoverflow (answer_verifyPssEncodedDigest_eq_none_iff.mp hpanic), ?_⟩
    intro emBits hdigest hbits hshort
    by_cases hpadded : IsPadded emBits encoded
    · obtain ⟨zeros, message, rfl, hlength⟩ := hpadded
      rw [answer_verifyPssEncodedDigest_of_padded hdigest hbits zeros hlength]
      refine answer_verifyPssMessage_of_not_shape ?_ fun hshape ↦ ?_
      swap
      · exact absurd hshape.1 (not_le.mpr (hlength ▸ hshort))
      by_contra hsum
      exact hoverflow ⟨hdigest, emBits, zeros, message, hbits, rfl, hlength, .inl (not_lt.mp hsum)⟩
    · exact answer_verifyPssEncodedDigest_of_not_padded hdigest hbits hpadded

/-! ### Verification with a key -/

/-- The encoding of a number is padded exactly when the number fits the encoded message. -/
theorem isPadded_toBeBytes_iff {width value : ℕ} (hwidth : emBits ⌈/⌉ 8 ≤ width)
    (hvalue : value < 256 ^ width) :
    IsPadded emBits (toBeBytes width value) ↔ value < 256 ^ (emBits ⌈/⌉ 8) := by
  constructor
  · rintro ⟨zeros, message, hbytes, hlength⟩
    have hnumber := congrArg fromBeBytes hbytes
    rw [fromBeBytes_toBeBytes_of_lt hvalue, fromBeBytes_replicate_zero_append] at hnumber
    rw [hnumber, ← hlength]
    exact fromBeBytes_lt message
  · intro hshort
    have hpadded := toBeBytes_fromBeBytes_of_le
      ((length_toBeBytes (emBits ⌈/⌉ 8) value).le.trans hwidth)
    rw [fromBeBytes_toBeBytes_of_lt hshort] at hpadded
    exact ⟨_, _, hpadded, length_toBeBytes _ _⟩

/-- With a modulus far from the end of the words, verification panics on the signatures of the key
whose public power fits the encoded message, when the sum of lengths overflows. -/
theorem answer_rsaVerifyPssDigest_eq_none_iff {rsaEncrypt : RsaEncrypt} {key : RsaKeys.RsaPublicKey}
    {signature : ByteString} (hmodulus : key.bits < 2 ^ 60) :
    answer (rsaVerifyPssDigest hashes rsaEncrypt key parameters digest signature) = none ↔
      signature.length = key.size ∧ fromBeBytes signature < key.n ∧
        (∃ value, rsaEncrypt key (fromBeBytes signature) = some value ∧
          value < 256 ^ ((key.bits - 1) ⌈/⌉ 8)) ∧
        digest.length = parameters.hash.outputLength ∧
        2 ^ 64 ≤ parameters.hash.outputLength + parameters.saltLength + 2 := by
  have hwidth : (key.bits - 1) ⌈/⌉ 8 ≤ key.size := by
    rw [RsaKeys.RsaPublicKey.size, Digest.divCeil, Nat.ceilDiv_eq_add_pred_div]
    omega
  have hpower : 256 ^ ((key.bits - 1) ⌈/⌉ 8) ≤ 256 ^ key.size :=
    Nat.pow_le_pow_right (by norm_num) hwidth
  unfold rsaVerifyPssDigest
  constructor
  · intro hpanic
    cases hrecovered : publicOperation rsaEncrypt key signature with
    | error error =>
      rw [hrecovered] at hpanic
      exact absurd hpanic (Option.some_ne_none _)
    | ok recovered =>
      rw [hrecovered, answer_bind_of_ok (answer_ofResult _ _),
        answer_verifyPssEncodedDigest_eq_none_iff] at hpanic
      obtain ⟨hlength, hlt, value, hvalue, hfits, rfl⟩ := publicOperation_eq_ok_iff.mp hrecovered
      obtain ⟨hdigest, emBits, zeros, message, hbits, hbytes, hmessage, hoverflow⟩ := hpanic
      have hemBits : key.bits - 1 = emBits := by omega
      refine ⟨hlength, hlt, ⟨value, hvalue, ?_⟩, hdigest, ?_⟩
      · rw [← isPadded_toBeBytes_iff hwidth hfits, hemBits]
        exact ⟨zeros, message, hbytes, hmessage⟩
      · rw [Nat.ceilDiv_eq_add_pred_div] at hmessage
        refine hoverflow.elim id fun hlong ↦ ?_
        omega
  · rintro ⟨hlength, hlt, ⟨value, hvalue, hshort⟩, hdigest, hsum⟩
    have hbits : 0 < key.bits := Nat.size_pos.mpr (Nat.zero_lt_of_lt hlt)
    have hrecovered : publicOperation rsaEncrypt key signature = .ok (toBeBytes key.size value) :=
      publicOperation_eq_ok_iff.mpr ⟨hlength, hlt, value, hvalue, hshort.trans_le hpower, rfl⟩
    obtain ⟨zeros, message, hbytes, hmessage⟩ :=
      (isPadded_toBeBytes_iff hwidth (hshort.trans_le hpower)).mpr hshort
    rw [hrecovered, answer_bind_of_ok (answer_ofResult _ _),
      answer_verifyPssEncodedDigest_eq_none_iff]
    exact ⟨hdigest, key.bits - 1, zeros, message, by omega, hbytes, hmessage, .inl hsum⟩

end

end SoftwareKeyCore.RsaSigning
