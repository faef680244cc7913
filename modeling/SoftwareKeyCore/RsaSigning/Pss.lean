import SoftwareKeyCore.Foundation.MaskedBytes
import SoftwareKeyCore.RsaSigning.CallbackConstructions

/-!
# RSASSA-PSS verification

`rsa_signing.rs`, `verify_pss_encoded_digest`, beside the encoder `pss_encoded_digest`. Slices,
subtractions, shifts, and the sums and products of lengths are checked.

`IsPssMessage` is the encoded message of RFC 8017 §9.1.1 for a salt. The encoder answers it for the
salt it draws (`answer_pssEncodedDigest_eq_ok_iff`). The verifier accepts a message when its
unused bits are clear and the block it unmasks is a run of zeros, a one and a salt with the hash of
the message (`PassesPss`), after any number of zero bytes
(`answer_verifyPssEncodedDigest_eq_ok_iff`). `passesPss_iff` is that these are the encoded messages.
-/

set_option autoImplicit false
set_option relaxedAutoImplicit false

namespace SoftwareKeyCore.RsaSigning

open ByteString CallbackSession CheckedSlice MaskedBytes Panicking

variable (hashes : HashFunctions)

/-! ### Verification -/

/-- `0xff << (8 - unused_bits)` of a byte. -/
def unusedMask (unused : ℕ) : Panicking RsaConstructionError UInt8 := do
  let shift ← checkedSub 8 unused
  orPanic (if shift < 8 then some ((0xff : UInt8) <<< UInt8.ofNat shift) else none)

/-- The test of the unused bits of the first byte. -/
def hasUnusedBits (maskedDb : ByteString) (unused : ℕ) : Panicking RsaConstructionError Bool :=
  if unused = 0 then pure false
  else match maskedDb.head? with
    | none => pure false
    | some value => do
      let mask ← unusedMask unused
      pure (decide (value &&& mask ≠ 0))

/-- The salt of an unmasked data block: what follows a run of zeros and a one. -/
def pssSalt (db : ByteString) (saltLength : ℕ) : Panicking RsaConstructionError ByteString := do
  let tail ← orPanic (checkedAdd saltLength 1)
  match subtract db.length tail with
  | none => throw .invalidSignature
  | some separator => do
      throwIf .invalidSignature (db[separator]? ≠ some 1)
      let zeros ← orPanic (sliceTo db separator)
      throwIf .invalidSignature (zeros.any (fun value ↦ decide (value ≠ 0)) = true)
      orPanic (sliceFrom db (separator + 1))

/-- The verification of a masked data block against the hash that follows it. -/
def verifyPssBlock (maskedDb h : ByteString) (emBits : ℕ) (parameters : RsaPssParameters)
    (digest : ByteString) : Panicking RsaConstructionError Unit := do
  let usedBits ← orPanic (checkedMul 8 (emBits ⌈/⌉ 8))
  let unused ← checkedSub usedBits emBits
  let unusedSet ← hasUnusedBits maskedDb unused
  throwIf .invalidSignature (unusedSet = true)
  let mask ← ofResult id (mgf1 hashes h maskedDb.length parameters.mgfHash)
  let db := xorInPlace maskedDb mask
  let topMask ← orPanic (if unused < 8 then some ((0xff : UInt8) >>> UInt8.ofNat unused) else none)
  let db ← orPanic (modifyByte db 0 (· &&& topMask))
  let salt ← pssSalt db parameters.saltLength
  throwIf .invalidSignature
    (hashes.digest parameters.hash (List.replicate 8 0 ++ digest ++ salt) ≠ h)

/-- The verification of an encoded message without the zero bytes before it. -/
def verifyPssMessage (encoded : ByteString) (emBits : ℕ) (parameters : RsaPssParameters)
    (digest : ByteString) : Panicking RsaConstructionError Unit := do
  let hashLength := parameters.hash.outputLength
  let withSalt ← orPanic (checkedAdd hashLength parameters.saltLength)
  let required ← orPanic (checkedAdd withSalt 2)
  throwIf .invalidSignature (encoded.length < required ∨ encoded.getLast? ≠ some 0xbc)
  let withoutHash ← checkedSub encoded.length hashLength
  let hOffset ← checkedSub withoutHash 1
  let maskedDb ← orPanic (sliceTo encoded hOffset)
  let h ← orPanic (sliceRange encoded hOffset (hOffset + hashLength))
  verifyPssBlock hashes maskedDb h emBits parameters digest

/-- `verify_pss_encoded_digest`. -/
def verifyPssEncodedDigest (encoded : ByteString) (modulusBits : ℕ)
    (parameters : RsaPssParameters) (digest : ByteString) :
    Panicking RsaConstructionError Unit :=
  if digest.length ≠ parameters.hash.outputLength then throw .invalidDigestLength
  else match subtract modulusBits 1 with
    | none => throw .invalidKey
    | some emBits =>
      match subtract encoded.length (emBits ⌈/⌉ 8) with
      | none => throw .invalidSignature
      | some prefixLength => do
        let padding ← orPanic (sliceTo encoded prefixLength)
        throwIf .invalidSignature (padding.any (fun byte ↦ decide (byte ≠ 0)) = true)
        let encoded ← orPanic (sliceFrom encoded prefixLength)
        verifyPssMessage hashes encoded emBits parameters digest

/-! ### Encoded messages -/

/-- The hash of a digest and a salt. -/
def pssHash (parameters : RsaPssParameters) (digest salt : ByteString) : ByteString :=
  hashes.digest parameters.hash (List.replicate 8 0 ++ digest ++ salt)

/-- The data block of a salt. -/
def pssDataBlock (emLength : ℕ) (parameters : RsaPssParameters) (salt : ByteString) : ByteString :=
  List.replicate (emLength - parameters.saltLength - parameters.hash.outputLength - 2) 0 ++
    1 :: salt

/-- The encoded message of RFC 8017 §9.1.1 for a salt. -/
def IsPssMessage (emBits : ℕ) (parameters : RsaPssParameters) (digest salt message : ByteString) :
    Prop :=
  ∃ mask, mgf1 hashes (pssHash hashes parameters digest salt)
      (pssDataBlock (emBits ⌈/⌉ 8) parameters salt).length parameters.mgfHash = .ok mask ∧
    message = clearTop (topMask (8 * (emBits ⌈/⌉ 8) - emBits))
      (xorBytes (pssDataBlock (emBits ⌈/⌉ 8) parameters salt) mask) ++
        pssHash hashes parameters digest salt ++ [0xbc]

/-- The inputs that both sides admit: a digest of the hash, a modulus that has bits, and a salt
length that is within the range of lengths and fits the encoded message. -/
structure FitsPss (modulusBits emBits : ℕ) (parameters : RsaPssParameters) (digest : ByteString) :
    Prop where
  length_digest : digest.length = parameters.hash.outputLength
  bits_eq : modulusBits = emBits + 1
  required_lt : parameters.hash.outputLength + parameters.saltLength + 2 < 2 ^ 64
  required_le : parameters.hash.outputLength + parameters.saltLength + 2 ≤ emBits ⌈/⌉ 8

/-- A message that the verifier accepts: its unused bits are clear, and the block it unmasks is a
run of zeros, a one and a salt whose hash is that of the message. -/
def PassesPss (emBits : ℕ) (parameters : RsaPssParameters) (digest salt message : ByteString) :
    Prop :=
  ∃ maskedDb mask, message = maskedDb ++ pssHash hashes parameters digest salt ++ [0xbc] ∧
    clearTop (topMask (8 * (emBits ⌈/⌉ 8) - emBits)) maskedDb = maskedDb ∧
    mgf1 hashes (pssHash hashes parameters digest salt) maskedDb.length parameters.mgfHash =
      .ok mask ∧
    clearTop (topMask (8 * (emBits ⌈/⌉ 8) - emBits)) (xorBytes maskedDb mask) =
      pssDataBlock (emBits ⌈/⌉ 8) parameters salt

section

variable {hashes} {modulusBits emBits : ℕ} {parameters : RsaPssParameters}
  {digest salt message : ByteString}

theorem length_pssHash (parameters : RsaPssParameters) (digest salt : ByteString) :
    (pssHash hashes parameters digest salt).length = parameters.hash.outputLength :=
  hashes.length_digest _ _

/-- At most seven bits are unused. -/
theorem unused_lt (emBits : ℕ) :
    emBits ≤ 8 * (emBits ⌈/⌉ 8) ∧ 8 * (emBits ⌈/⌉ 8) - emBits < 8 := by
  rw [Nat.ceilDiv_eq_add_pred_div]
  omega

/-- A data block starts with a zero or a one, so that its unused bits are clear. -/
theorem clearTop_pssDataBlock (emLength : ℕ) (parameters : RsaPssParameters) (salt : ByteString)
    {unused : ℕ} (hunused : unused < 8) :
    clearTop (topMask unused) (pssDataBlock emLength parameters salt) =
      pssDataBlock emLength parameters salt := by
  unfold pssDataBlock
  cases emLength - parameters.saltLength - parameters.hash.outputLength - 2 with
  | zero =>
    change (1 &&& topMask unused) :: salt = 1 :: salt
    rw [one_and_topMask hunused]
  | succ zeros =>
    rw [List.replicate_succ, List.cons_append, clearTop_cons, UInt8.zero_and]

theorem FitsPss.length_pssDataBlock (hfits : FitsPss modulusBits emBits parameters digest)
    (hsalt : salt.length = parameters.saltLength) :
    (pssDataBlock (emBits ⌈/⌉ 8) parameters salt).length + parameters.hash.outputLength + 1 =
      emBits ⌈/⌉ 8 := by
  have hrequired := hfits.required_le
  unfold pssDataBlock
  rw [List.length_append, List.length_replicate, List.length_cons, hsalt]
  omega

/-- The messages that the verifier accepts are the encoded messages. -/
theorem passesPss_iff (hfits : FitsPss modulusBits emBits parameters digest)
    (hsalt : salt.length = parameters.saltLength) :
    (message.length = emBits ⌈/⌉ 8 ∧ PassesPss hashes emBits parameters digest salt message) ↔
      IsPssMessage hashes emBits parameters digest salt message := by
  obtain ⟨-, hunused⟩ := unused_lt emBits
  have hclear := clearTop_pssDataBlock (emBits ⌈/⌉ 8) parameters salt hunused
  have hlength := hfits.length_pssDataBlock hsalt
  constructor
  · rintro ⟨hmessage, maskedDb, mask, rfl, hmaskedClear, hmask, hunmasked⟩
    simp only [List.length_append, length_pssHash, List.length_singleton] at hmessage
    have hsame : maskedDb.length = (pssDataBlock (emBits ⌈/⌉ 8) parameters salt).length := by omega
    have hmaskLength := length_mgf1_eq hashes hmask
    rw [hsame] at hmask hmaskLength
    refine ⟨mask, hmask, ?_⟩
    rw [← (clearTop_xorBytes_eq_iff hmaskLength.ge (hsame.trans hmaskLength.symm).le hclear).mpr
      ⟨hmaskedClear, hunmasked⟩]
  · rintro ⟨mask, hmask, rfl⟩
    have hmaskLength := length_mgf1_eq hashes hmask
    have hsame : (clearTop (topMask (8 * (emBits ⌈/⌉ 8) - emBits))
        (xorBytes (pssDataBlock (emBits ⌈/⌉ 8) parameters salt) mask)).length =
          (pssDataBlock (emBits ⌈/⌉ 8) parameters salt).length := by
      rw [length_clearTop, length_xorBytes, hmaskLength, min_self]
    refine ⟨?_, _, mask, rfl, clearTop_clearTop _ _, by rw [hsame]; exact hmask, ?_⟩
    · simp only [List.length_append, hsame, length_pssHash, List.length_singleton]
      exact hlength
    · exact clearTop_xorBytes_cancel hmaskLength.ge hclear

/-! ### What the encoder answers -/

theorem subtract_eq_some_iff {left right difference : ℕ} :
    subtract left right = some difference ↔ left = difference + right := by
  unfold subtract
  split_ifs with hle
  · rw [Option.some.injEq]
    omega
  · exact iff_of_false not_false (by omega)

/-- What the encoder computes for inputs it admits. -/
theorem answer_pssEncodedDigest_of_fits (hfits : FitsPss modulusBits emBits parameters digest)
    {fill : RandomFill} {salt : List.Vector UInt8 parameters.saltLength}
    (hfill : fill parameters.saltLength = some salt) :
    answer (pssEncodedDigest hashes fill modulusBits parameters digest) =
      some ((mgf1 hashes (pssHash hashes parameters digest salt.toList)
        (pssDataBlock (emBits ⌈/⌉ 8) parameters salt.toList).length parameters.mgfHash).map
          fun mask ↦ clearTop (topMask (8 * (emBits ⌈/⌉ 8) - emBits))
            (xorBytes (pssDataBlock (emBits ⌈/⌉ 8) parameters salt.toList) mask) ++
              pssHash hashes parameters digest salt.toList ++ [0xbc]) := by
  have hrange := hfits.required_lt
  have hrequired := hfits.required_le
  obtain ⟨hle, hunused⟩ := unused_lt emBits
  have hblock : List.replicate (emBits ⌈/⌉ 8 - parameters.saltLength -
      parameters.hash.outputLength - 2) 0 ++ [1] ++ salt.toList =
        pssDataBlock (emBits ⌈/⌉ 8) parameters salt.toList := by
    rw [List.append_assoc, List.singleton_append, pssDataBlock]
  unfold pssEncodedDigest
  rw [if_neg (not_not.mpr hfits.length_digest), subtract_eq_some_iff.mpr hfits.bits_eq]
  dsimp only
  rw [answer_checkedAdd_bind, if_pos hrange, if_neg (by omega), hfill]
  dsimp only
  rw [answer_bind_of_ok (answer_checkedSub_of_le (by omega)),
    answer_bind_of_ok (answer_checkedSub_of_le (by omega)),
    answer_bind_of_ok (answer_checkedSub_of_le (by omega)), hblock, ← pssHash]
  cases hmask : mgf1 hashes (pssHash hashes parameters digest salt.toList)
    (pssDataBlock (emBits ⌈/⌉ 8) parameters salt.toList).length parameters.mgfHash with
  | error error => exact answer_bind_of_error (answer_ofResult _ _)
  | ok mask =>
    have hmaskLength := length_mgf1_eq hashes hmask
    have hanswer : answer (ofResult id (.ok mask : Except RsaConstructionError ByteString)) =
        some (.ok mask) := answer_ofResult _ _
    have hproduct := eight_mul_lt_of_mgf1 hashes hmask
      (hfits.length_pssDataBlock salt.toList_length)
    rw [answer_bind_of_ok hanswer, xorInPlace_eq hmaskLength,
      checkedMul_eq_some_iff.mpr ⟨hproduct, rfl⟩, orPanic_some_bind,
      answer_bind_of_ok (answer_checkedSub_of_le hle), if_pos hunused, orPanic_some_bind,
      modifyByte_eq_some, orPanic_some_bind]
    · rfl
    · rw [length_xorBytes, hmaskLength, min_self]
      unfold pssDataBlock
      simp

/-- The encoder answers a message only for inputs it admits and a salt it has drawn. -/
theorem fitsPss_of_answer_eq_ok {fill : RandomFill}
    (hanswer : answer (pssEncodedDigest hashes fill modulusBits parameters digest) =
      some (.ok message)) :
    ∃ emBits salt, FitsPss modulusBits emBits parameters digest ∧
      fill parameters.saltLength = some salt := by
  unfold pssEncodedDigest at hanswer
  obtain ⟨hdigest, hanswer⟩ := answer_ite_throw_eq_ok_iff.mp hanswer
  cases hbits : subtract modulusBits 1 with
  | none =>
    rw [hbits] at hanswer
    exact absurd hanswer answer_throw_ne_ok
  | some emBits =>
    rw [hbits] at hanswer
    obtain ⟨withSalt, hwithSalt, hanswer⟩ := answer_bind_eq_ok_iff.mp hanswer
    obtain ⟨required, hrequired, hanswer⟩ := answer_bind_eq_ok_iff.mp hanswer
    rw [answer_orPanic_eq_ok_iff, checkedAdd_eq_some_iff] at hwithSalt hrequired
    obtain ⟨hfit, hanswer⟩ := answer_ite_throw_eq_ok_iff.mp hanswer
    cases hfill : fill parameters.saltLength with
    | none =>
      rw [hfill] at hanswer
      exact absurd hanswer answer_throw_ne_ok
    | some salt =>
      refine ⟨emBits, salt, ⟨not_not.mp hdigest, subtract_eq_some_iff.mp hbits, ?_, ?_⟩, rfl⟩
      · omega
      · omega

/-- The encoder answers the encoded message of the salt it draws. -/
theorem answer_pssEncodedDigest_eq_ok_iff {fill : RandomFill} :
    answer (pssEncodedDigest hashes fill modulusBits parameters digest) = some (.ok message) ↔
      ∃ emBits salt, FitsPss modulusBits emBits parameters digest ∧
        fill parameters.saltLength = some salt ∧
          IsPssMessage hashes emBits parameters digest salt.toList message := by
  constructor
  · intro hanswer
    obtain ⟨emBits, salt, hfits, hfill⟩ := fitsPss_of_answer_eq_ok hanswer
    rw [answer_pssEncodedDigest_of_fits hfits hfill, Option.some.injEq,
      FallibleResult.map_eq_ok_iff] at hanswer
    obtain ⟨mask, hmask, hmessage⟩ := hanswer
    exact ⟨emBits, salt, hfits, hfill, mask, hmask, hmessage.symm⟩
  · rintro ⟨emBits, salt, hfits, hfill, mask, hmask, hmessage⟩
    rw [answer_pssEncodedDigest_of_fits hfits hfill, hmask, hmessage]
    rfl

/-! ### What the verifier accepts -/

theorem any_ne_zero_eq_false_iff {bytes : ByteString} :
    ¬ bytes.any (fun value ↦ decide (value ≠ 0)) = true ↔
      bytes = List.replicate bytes.length 0 := by
  rw [List.eq_replicate_iff]
  simp

/-- The salt of a data block. -/
theorem answer_pssSalt_eq_ok_iff {db : ByteString} {saltLength : ℕ} :
    answer (pssSalt db saltLength) = some (.ok salt) ↔
      salt.length = saltLength ∧ saltLength + 1 < 2 ^ 64 ∧
        ∃ zeros, db = List.replicate zeros 0 ++ 1 :: salt := by
  unfold pssSalt
  rw [answer_bind_eq_ok_iff]
  simp only [answer_orPanic_eq_ok_iff, checkedAdd_eq_some_iff]
  constructor
  · rintro ⟨tail, ⟨hrange, rfl⟩, haccepted⟩
    cases hseparator : subtract db.length (saltLength + 1) with
    | none =>
      rw [hseparator] at haccepted
      exact absurd haccepted answer_throw_ne_ok
    | some separator =>
      rw [hseparator] at haccepted
      simp only [answer_bind_eq_ok_iff, answer_throwIf_eq_ok_iff, answer_orPanic_eq_ok_iff]
        at haccepted
      obtain ⟨⟨⟩, hone, zeros, hzeros, ⟨⟩, hany, hrest⟩ := haccepted
      have hlength := subtract_eq_some_iff.mp hseparator
      rw [sliceTo_eq_some (by omega), Option.some.injEq] at hzeros
      rw [sliceFrom_eq_some (by omega), Option.some.injEq] at hrest
      obtain ⟨hlt, hget⟩ := List.getElem?_eq_some_iff.mp (not_not.mp hone)
      rw [any_ne_zero_eq_false_iff, ← hzeros] at hany
      refine ⟨?_, hrange, (db.take separator).length, ?_⟩
      · rw [← hrest, List.length_drop]
        omega
      · rw [← hany, ← hrest, ← hget, List.getElem_cons_drop, List.take_append_drop]
  · rintro ⟨rfl, hrange, zeros, rfl⟩
    have hseparator : subtract (List.replicate zeros 0 ++ 1 :: salt).length (salt.length + 1) =
        some zeros := by
      rw [subtract_eq_some_iff, List.length_append, List.length_replicate, List.length_cons]
    refine ⟨_, ⟨hrange, rfl⟩, ?_⟩
    rw [hseparator]
    simp only [answer_bind_eq_ok_iff, answer_throwIf_eq_ok_iff, answer_orPanic_eq_ok_iff]
    refine ⟨(), by simp, List.replicate zeros 0, ?_, (), by simp, ?_⟩
    · rw [sliceTo_eq_some (by simp), List.take_left' List.length_replicate]
    · rw [sliceFrom_eq_some (by simp), ← List.drop_drop, List.drop_left' List.length_replicate]
      rfl

/-- The test of the unused bits, as what clearing them changes. -/
theorem answer_hasUnusedBits_eq_ok_iff {maskedDb : ByteString} {unused : ℕ} {unusedSet : Bool}
    (hunused : unused < 8) :
    answer (hasUnusedBits maskedDb unused) = some (.ok unusedSet) ↔
      (unusedSet = false ↔ clearTop (topMask unused) maskedDb = maskedDb) := by
  rw [clearTop_eq_self_iff hunused]
  unfold hasUnusedBits
  by_cases hzero : unused = 0
  · rw [if_pos hzero, answer_pure_eq_ok_iff]
    simp [hzero, eq_comm]
  · rw [if_neg hzero]
    cases maskedDb with
    | nil =>
      rw [List.head?_nil, answer_pure_eq_ok_iff]
      simp [eq_comm]
    | cons byte maskedDb =>
      have hmask : answer (unusedMask unused) =
          some (.ok ((0xff : UInt8) <<< UInt8.ofNat (8 - unused))) := by
        unfold unusedMask
        rw [answer_bind_of_ok (answer_checkedSub_of_le hunused.le), if_pos (by omega)]
        rfl
      rw [List.head?_cons]
      dsimp only
      rw [answer_bind_of_ok hmask, answer_pure_eq_ok_iff]
      cases unusedSet <;> simp [hzero]

/-- What the verifier accepts of a masked block and a hash. -/
theorem answer_verifyPssBlock_eq_ok_iff {maskedDb h : ByteString} (hmaskedDb : maskedDb ≠ []) :
    answer (verifyPssBlock hashes maskedDb h emBits parameters digest) = some (.ok ()) ↔
      8 * (emBits ⌈/⌉ 8) < 2 ^ 64 ∧
      clearTop (topMask (8 * (emBits ⌈/⌉ 8) - emBits)) maskedDb = maskedDb ∧
      ∃ mask salt zeros, mgf1 hashes h maskedDb.length parameters.mgfHash = .ok mask ∧
        clearTop (topMask (8 * (emBits ⌈/⌉ 8) - emBits)) (xorBytes maskedDb mask) =
          List.replicate zeros 0 ++ 1 :: salt ∧
        salt.length = parameters.saltLength ∧ parameters.saltLength + 1 < 2 ^ 64 ∧
        pssHash hashes parameters digest salt = h := by
  obtain ⟨hle, hunused⟩ := unused_lt emBits
  unfold verifyPssBlock
  by_cases hproduct : 8 * (emBits ⌈/⌉ 8) < 2 ^ 64
  swap
  · rw [checkedMul, if_neg hproduct]
    exact iff_of_false (fun haccepted ↦ nomatch haccepted) fun h ↦ hproduct h.1
  rw [checkedMul_eq_some_iff.mpr ⟨hproduct, rfl⟩, orPanic_some_bind,
    answer_bind_of_ok (answer_checkedSub_of_le hle), and_iff_right hproduct]
  simp only [answer_bind_eq_ok_iff, answer_hasUnusedBits_eq_ok_iff hunused, if_pos hunused,
    answer_throwIf_eq_ok_iff, answer_orPanic_eq_ok_iff, answer_ofResult, Option.some.injEq,
    FallibleResult.mapError_eq_ok_iff, answer_pssSalt_eq_ok_iff]
  have hmodify : ∀ mask, mgf1 hashes h maskedDb.length parameters.mgfHash = .ok mask → ∀ top,
      modifyByte (xorInPlace maskedDb mask) 0 (· &&& top) =
        some (clearTop top (xorBytes maskedDb mask)) := by
    intro mask hmask top
    have hlength := length_mgf1_eq hashes hmask
    rw [xorInPlace_eq hlength, modifyByte_eq_some]
    · rfl
    · rw [length_xorBytes, hlength, min_self]
      exact List.length_pos_iff.mpr hmaskedDb
  constructor
  · rintro ⟨unusedSet, hset, ⟨⟩, hclear, mask, hmask, top, rfl, db, hdb, salt,
      ⟨hsalt, hrange, zeros, rfl⟩, hhash⟩
    rw [hmodify mask hmask, Option.some.injEq] at hdb
    exact ⟨hset.mp (by simpa using hclear), mask, salt, zeros, hmask, hdb, hsalt, hrange,
      not_not.mp hhash⟩
  · rintro ⟨hclear, mask, salt, zeros, hmask, hdb, hsalt, hrange, hhash⟩
    refine ⟨false, by simp [hclear], (), by simp, mask, hmask, _, rfl, _, hmodify mask hmask _,
      salt, ⟨hsalt, hrange, zeros, hdb⟩, not_not.mpr hhash⟩

/-- A byte string that ends with a byte is what stands before the last bytes, those bytes and it. -/
theorem eq_take_append_slice {encoded : ByteString} {length : ℕ} {byte : UInt8}
    (hlength : length + 1 ≤ encoded.length) (hlast : encoded.getLast? = some byte) :
    encoded = encoded.take (encoded.length - length - 1) ++
      slice encoded (encoded.length - length - 1) length ++ [byte] := by
  obtain ⟨front, rfl⟩ := List.getLast?_eq_some_iff.mp hlast
  rw [List.length_append, List.length_singleton] at hlength ⊢
  have hstart : front.length + 1 - length - 1 ≤ front.length := by omega
  have hrest : (front.drop (front.length + 1 - length - 1)).length = length := by
    rw [List.length_drop]
    omega
  rw [slice, List.drop_append_of_le_length hstart, List.take_append_of_le_length hstart,
    List.take_left' hrest, List.take_append_drop]

/-- The verification of a message panics where its sum of lengths is past the words. -/
theorem answer_verifyPssMessage_of_overflow
    (hrange : 2 ^ 64 ≤ parameters.hash.outputLength + parameters.saltLength + 2) :
    answer (verifyPssMessage hashes message emBits parameters digest) = none := by
  unfold verifyPssMessage
  dsimp only
  rw [answer_checkedAdd_bind, if_neg (not_lt.mpr hrange)]

/-- A message that is too short for the salt or has another last byte is refused. -/
theorem answer_verifyPssMessage_of_not_shape
    (hrange : parameters.hash.outputLength + parameters.saltLength + 2 < 2 ^ 64)
    (hshape : ¬ (parameters.hash.outputLength + parameters.saltLength + 2 ≤ message.length ∧
      message.getLast? = some 0xbc)) :
    answer (verifyPssMessage hashes message emBits parameters digest) =
      some (.error .invalidSignature) := by
  rw [not_and_or, not_le] at hshape
  unfold verifyPssMessage
  dsimp only
  rw [answer_checkedAdd_bind, if_pos hrange, throwIf_of_pos hshape]
  rfl

/-- Any other message is verified as a masked block and the hash after it. -/
theorem answer_verifyPssMessage_of_shape
    (hrange : parameters.hash.outputLength + parameters.saltLength + 2 < 2 ^ 64)
    (hshape : parameters.hash.outputLength + parameters.saltLength + 2 ≤ message.length ∧
      message.getLast? = some 0xbc) :
    answer (verifyPssMessage hashes message emBits parameters digest) =
      answer (verifyPssBlock hashes
        (message.take (message.length - parameters.hash.outputLength - 1))
        (slice message (message.length - parameters.hash.outputLength - 1)
          parameters.hash.outputLength) emBits parameters digest) := by
  have hroom := hshape.1
  have hguard : ¬ (message.length < parameters.hash.outputLength + parameters.saltLength + 2 ∨
      message.getLast? ≠ some 0xbc) :=
    fun h ↦ h.elim (not_lt.mpr hroom) fun hne ↦ hne hshape.2
  unfold verifyPssMessage
  dsimp only
  rw [answer_checkedAdd_bind, if_pos hrange, throwIf_of_neg hguard, pure_bind,
    answer_bind_of_ok (answer_checkedSub_of_le (by omega)),
    answer_bind_of_ok (answer_checkedSub_of_le (by omega)), sliceTo_eq_some (by omega),
    orPanic_some_bind, sliceRange_eq_some (by omega) (by omega), orPanic_some_bind,
    Nat.add_sub_cancel_left]

/-- What the verifier accepts of a message of the encoded length. -/
theorem answer_verifyPssMessage_eq_ok_iff (hlength : message.length = emBits ⌈/⌉ 8) :
    answer (verifyPssMessage hashes message emBits parameters digest) = some (.ok ()) ↔
      parameters.hash.outputLength + parameters.saltLength + 2 < 2 ^ 64 ∧
      parameters.hash.outputLength + parameters.saltLength + 2 ≤ emBits ⌈/⌉ 8 ∧
      ∃ salt, salt.length = parameters.saltLength ∧
        PassesPss hashes emBits parameters digest salt message := by
  by_cases hrange : parameters.hash.outputLength + parameters.saltLength + 2 < 2 ^ 64
  swap
  · rw [answer_verifyPssMessage_of_overflow (not_lt.mp hrange)]
    exact iff_of_false (fun haccepted ↦ nomatch haccepted) fun h ↦ hrange h.1
  by_cases hshape : parameters.hash.outputLength + parameters.saltLength + 2 ≤ message.length ∧
      message.getLast? = some 0xbc
  swap
  · rw [answer_verifyPssMessage_of_not_shape hrange hshape]
    refine iff_of_false (fun haccepted ↦ nomatch haccepted) ?_
    rintro ⟨-, hroom, salt, -, maskedDb, mask, rfl, -⟩
    exact hshape ⟨hlength ▸ hroom, List.getLast?_concat⟩
  obtain ⟨hroom, hlast⟩ := hshape
  have hmaskedLength : (message.take (message.length - parameters.hash.outputLength - 1)).length =
      message.length - parameters.hash.outputLength - 1 := by
    rw [List.length_take]
    omega
  have hmaskedNe : message.take (message.length - parameters.hash.outputLength - 1) ≠ [] :=
    List.length_pos_iff.mp (by omega)
  rw [answer_verifyPssMessage_of_shape hrange ⟨hroom, hlast⟩,
    answer_verifyPssBlock_eq_ok_iff hmaskedNe]
  constructor
  · rintro ⟨-, hclear, mask, salt, zeros, hmask, hdb, hsalt, -, hhash⟩
    have hhashRoom : parameters.hash.outputLength + 1 ≤ message.length := by omega
    have hsplit := eq_take_append_slice hhashRoom hlast
    rw [← hhash] at hsplit hmask
    have hzeros : zeros =
        emBits ⌈/⌉ 8 - parameters.saltLength - parameters.hash.outputLength - 2 := by
      have hdbLength := congrArg List.length hdb
      rw [length_clearTop, length_xorBytes, length_mgf1_eq hashes hmask, min_self,
        List.length_append, List.length_replicate, List.length_cons] at hdbLength
      omega
    refine ⟨hrange, hlength ▸ hroom, salt, hsalt, _, mask, hsplit, hclear, hmask, ?_⟩
    rw [hdb, hzeros, pssDataBlock]
  · rintro ⟨-, hrequired, salt, hsalt, maskedDb, mask, rfl, hclear, hmask, hdb⟩
    have hhash : (pssHash hashes parameters digest salt).length = parameters.hash.outputLength :=
      length_pssHash parameters digest salt
    rw [List.length_append, List.length_append, hhash, List.length_singleton] at hlength
    have hOffset : (maskedDb ++ pssHash hashes parameters digest salt ++ [0xbc]).length -
        parameters.hash.outputLength - 1 = maskedDb.length := by
      rw [List.length_append, List.length_append, hhash, List.length_singleton]
      omega
    rw [hOffset, slice, List.append_assoc, List.take_left, List.drop_left, List.take_left' hhash]
    exact ⟨eight_mul_lt_of_mgf1 hashes hmask hlength, hclear, mask, salt, _, hmask, hdb, hsalt,
      by omega, rfl⟩

/-- Zero bytes before a message of the encoded length. -/
def IsPadded (emBits : ℕ) (encoded : ByteString) : Prop :=
  ∃ zeros message, encoded = List.replicate zeros 0 ++ message ∧ message.length = emBits ⌈/⌉ 8

/-- The verifier of an encoding leaves the zero bytes before a message out. -/
theorem answer_verifyPssEncodedDigest_of_padded
    (hdigest : digest.length = parameters.hash.outputLength) (hbits : modulusBits = emBits + 1)
    (zeros : ℕ) (hlength : message.length = emBits ⌈/⌉ 8) :
    answer (verifyPssEncodedDigest hashes (List.replicate zeros 0 ++ message) modulusBits parameters
      digest) = answer (verifyPssMessage hashes message emBits parameters digest) := by
  have hzeros : subtract (List.replicate zeros 0 ++ message).length (emBits ⌈/⌉ 8) =
      some zeros := by
    rw [subtract_eq_some_iff, List.length_append, List.length_replicate, hlength]
  have hguard : answer (throwIf RsaConstructionError.invalidSignature
      ((List.replicate zeros (0 : UInt8)).any (fun byte ↦ decide (byte ≠ 0)) = true)) =
        some (.ok ()) := by
    rw [answer_throwIf_eq_ok_iff, any_ne_zero_eq_false_iff, List.length_replicate]
  unfold verifyPssEncodedDigest
  rw [if_neg (not_not.mpr hdigest), subtract_eq_some_iff.mpr hbits]
  dsimp only
  rw [hzeros]
  dsimp only
  rw [sliceTo_eq_some (by simp), orPanic_some_bind, List.take_left' List.length_replicate,
    answer_bind_of_ok hguard, sliceFrom_eq_some (by simp), orPanic_some_bind,
    List.drop_left' List.length_replicate]

/-- The verifier of an encoding refuses what is not a message after zero bytes. -/
theorem answer_verifyPssEncodedDigest_of_not_padded {encoded : ByteString}
    (hdigest : digest.length = parameters.hash.outputLength) (hbits : modulusBits = emBits + 1)
    (hpadded : ¬ IsPadded emBits encoded) :
    answer (verifyPssEncodedDigest hashes encoded modulusBits parameters digest) =
      some (.error .invalidSignature) := by
  unfold verifyPssEncodedDigest
  rw [if_neg (not_not.mpr hdigest), subtract_eq_some_iff.mpr hbits]
  dsimp only
  cases hzeros : subtract encoded.length (emBits ⌈/⌉ 8) with
  | none => rfl
  | some zeros =>
    have hlength := subtract_eq_some_iff.mp hzeros
    dsimp only
    rw [sliceTo_eq_some (by omega), orPanic_some_bind, throwIf_of_pos]
    · rfl
    · by_contra hzero
      rw [any_ne_zero_eq_false_iff] at hzero
      refine hpadded ⟨(encoded.take zeros).length, encoded.drop zeros, ?_, ?_⟩
      · rw [← hzero, List.take_append_drop]
      · rw [List.length_drop]
        omega

/-- The verifier accepts what follows any number of zero bytes and is a message that it accepts. -/
theorem answer_verifyPssEncodedDigest_eq_ok_iff {encoded : ByteString} :
    answer (verifyPssEncodedDigest hashes encoded modulusBits parameters digest) = some (.ok ()) ↔
      ∃ emBits zeros message salt, FitsPss modulusBits emBits parameters digest ∧
        encoded = List.replicate zeros 0 ++ message ∧ salt.length = parameters.saltLength ∧
        IsPssMessage hashes emBits parameters digest salt message := by
  constructor
  · intro haccepted
    have hentered := haccepted
    unfold verifyPssEncodedDigest at hentered
    obtain ⟨hdigest, hentered⟩ := answer_ite_throw_eq_ok_iff.mp hentered
    rw [not_not] at hdigest
    cases hsubtract : subtract modulusBits 1 with
    | none =>
      rw [hsubtract] at hentered
      exact absurd hentered answer_throw_ne_ok
    | some emBits =>
      have hbits := subtract_eq_some_iff.mp hsubtract
      by_cases hpadded : IsPadded emBits encoded
      · obtain ⟨zeros, message, rfl, hlength⟩ := hpadded
        rw [answer_verifyPssEncodedDigest_of_padded hdigest hbits zeros hlength] at haccepted
        obtain ⟨hrange, hrequired, salt, hsalt, hpasses⟩ :=
          (answer_verifyPssMessage_eq_ok_iff hlength).mp haccepted
        have hfits : FitsPss modulusBits emBits parameters digest :=
          ⟨hdigest, hbits, hrange, hrequired⟩
        exact ⟨emBits, zeros, message, salt, hfits, rfl, hsalt,
          (passesPss_iff hfits hsalt).mp ⟨hlength, hpasses⟩⟩
      · rw [answer_verifyPssEncodedDigest_of_not_padded hdigest hbits hpadded] at haccepted
        exact nomatch haccepted
  · rintro ⟨emBits, zeros, message, salt, hfits, rfl, hsalt, hmessage⟩
    obtain ⟨hlength, hpasses⟩ := (passesPss_iff hfits hsalt).mpr hmessage
    rw [answer_verifyPssEncodedDigest_of_padded hfits.length_digest hfits.bits_eq zeros hlength]
    exact (answer_verifyPssMessage_eq_ok_iff hlength).mpr
      ⟨hfits.required_lt, hfits.required_le, salt, hsalt, hpasses⟩

end

/-- The verifier accepts exactly what is, after zero bytes, an output of the encoder for some salt
of the salt length.

Assumes of the hash functions only the lengths of their digests. -/
theorem verifyPssEncodedDigest_accepts_iff (hashes : HashFunctions) (modulusBits : ℕ)
    (parameters : RsaPssParameters) (digest encoded : ByteString) :
    answer (verifyPssEncodedDigest hashes encoded modulusBits parameters digest) = some (.ok ()) ↔
      ∃ zeros message, encoded = List.replicate zeros 0 ++ message ∧
        ∃ salt : List.Vector UInt8 parameters.saltLength,
          answer (pssEncodedDigest hashes (seedFill salt) modulusBits parameters digest) =
            some (.ok message) := by
  rw [answer_verifyPssEncodedDigest_eq_ok_iff]
  constructor
  · rintro ⟨emBits, zeros, message, salt, hfits, rfl, hsalt, hmessage⟩
    refine ⟨zeros, message, rfl, ⟨salt, hsalt⟩, ?_⟩
    exact answer_pssEncodedDigest_eq_ok_iff.mpr ⟨emBits, ⟨salt, hsalt⟩, hfits, seedFill_self _,
      hmessage⟩
  · rintro ⟨zeros, message, rfl, salt, hanswer⟩
    obtain ⟨emBits, salt', hfits, -, hmessage⟩ := answer_pssEncodedDigest_eq_ok_iff.mp hanswer
    exact ⟨emBits, zeros, message, salt'.toList, hfits, rfl, salt'.toList_length, hmessage⟩

end SoftwareKeyCore.RsaSigning
