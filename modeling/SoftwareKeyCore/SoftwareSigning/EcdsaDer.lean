import SoftwareKeyCore.Foundation.CallbackSession
import SoftwareKeyCore.Foundation.CheckedSlice
import SoftwareKeyCore.Foundation.DerEncoding
import SoftwareKeyCore.SoftwareSigning.KeyKind

/-!
# DER signatures of ECDSA

`software_signing.rs`, `ecdsa_signature_from_der` with `der_length` and `der_positive_integer`: the
hand-written parser that turns a DER signature into two numbers of a fixed width. The offset that
the functions advance is threaded; additions, indices, slices and the capacity of the output are
checked.

`derLength_eq_ok_iff` and `derPositiveInteger_eq_ok_iff` say which bytes each function reads from
its offset, and `ecdsaSignatureFromDer_accepts_der` that the parser accepts exactly the DER
encodings of the pairs of numbers that fit the width.
-/

set_option autoImplicit false
set_option relaxedAutoImplicit false

namespace SoftwareKeyCore.SoftwareSigning

open ByteString CallbackSession CheckedSlice DerEncoding Panicking

/-- `Option::ok_or_else`, of a computation that may panic. -/
def okOrElse {ε α : Type} (error : ε) (computation : Panicking Unit α) : Panicking ε α :=
  ExceptT.mk ((answer computation).map fun result ↦ result.mapError fun _ ↦ error)

/-- `der_length`: the length, and the offset after it. -/
def derLength (encoded : ByteString) (offset : ℕ) : Panicking Unit (ℕ × ℕ) := do
  let first ← Panicking.orError () encoded[offset]?
  let offset ← expect (checkedAdd offset 1)
  if first ≤ 0x7f then pure (first.toNat, offset)
  else if first = 0x81 then do
    let length ← Panicking.orError () encoded[offset]?
    let length := length.toNat
    let offset ← expect (checkedAdd offset 1)
    if 0x80 ≤ length then pure (length, offset) else throw ()
  else throw ()

/-- The checks of `der_positive_integer` on the bytes of a content: without a leading zero. -/
def positiveValue (value : ByteString) : Panicking Unit ByteString :=
  if value = [] then throw ()
  else do
    let first ← expect value[0]?
    if first &&& 0x80 ≠ 0 then throw ()
    else if 1 < value.length ∧ first = 0 then do
      let second ← expect value[1]?
      if second &&& 0x80 = 0 then throw () else expect (sliceFrom value 1)
    else pure value

/-- `der_positive_integer`: the bytes of the number, and the offset after it. -/
def derPositiveInteger (encoded : ByteString) (offset : ℕ) : Panicking Unit (ByteString × ℕ) := do
  let tag ← Panicking.orError () encoded[offset]?
  if tag ≠ 0x02 then throw ()
  else do
    let offset ← expect (checkedAdd offset 1)
    let (length, offset) ← derLength encoded offset
    let stop ← Panicking.orError () (checkedAdd offset length)
    let value ← Panicking.orError () (sliceRange encoded offset stop)
    let offset ← expect (checkedAdd offset length)
    let value ← positiveValue value
    pure (value, offset)

/-- The output of `ecdsa_signature_from_der`: both numbers at the ends of their halves. -/
def fixedWidthPair (outputLength coordinateLength : ℕ) (r s : ByteString) : Option ByteString := do
  let output := List.replicate outputLength 0
  let start ← subtract coordinateLength r.length
  let output ← copyInto output start coordinateLength r
  let start ← subtract outputLength s.length
  copyInto output start output.length s

/-- `ecdsa_signature_from_der`; no result is a panic. -/
def ecdsaSignatureFromDer (signature : ByteString) (coordinateLength : ℕ) :
    Option (Except SoftwareSigningError ByteString) := answer do
  if coordinateLength = 0 ∨ signature[0]? ≠ some 0x30 then throw .invalidSignature
  else do
    let offset ← expect (checkedAdd 0 1)
    let (sequenceLength, offset) ← okOrElse .invalidSignature (derLength signature offset)
    if checkedAdd offset sequenceLength ≠ some signature.length then throw .invalidSignature
    else do
      let (r, offset) ← okOrElse .invalidSignature (derPositiveInteger signature offset)
      let (s, offset) ← okOrElse .invalidSignature (derPositiveInteger signature offset)
      if offset ≠ signature.length ∨ coordinateLength < r.length ∨ coordinateLength < s.length then
        throw .invalidSignature
      else do
        let outputLength ← Panicking.orError .invalidSignature (checkedMul coordinateLength 2)
        let outputLength ← allocate outputLength
        expect (fixedWidthPair outputLength coordinateLength r s)

/-! ### The parts of the parser -/

theorem answer_okOrElse_eq_ok_iff {ε α : Type} {error : ε} {computation : Panicking Unit α}
    {value : α} : answer (okOrElse error computation) = some (.ok value) ↔
      answer computation = some (.ok value) := by
  change (answer computation).map _ = _ ↔ _
  rw [Option.map_eq_some_iff]
  constructor
  · rintro ⟨result, hresult, hvalue⟩
    rw [FallibleResult.mapError_eq_ok_iff] at hvalue
    rw [hresult, hvalue]
  · intro hanswer
    exact ⟨_, hanswer, rfl⟩

/-- The sign bit of a byte. -/
theorem and_signBit_eq_zero_iff (byte : UInt8) : byte &&& 0x80 = 0 ↔ byte < 0x80 := by
  have hall : ∀ value < 256, value &&& 128 = 0 ↔ value < 128 := by decide +kernel
  rw [← UInt8.toNat_inj, UInt8.toNat_and, UInt8.lt_iff_toNat_lt]
  exact hall byte.toNat byte.toNat_lt

variable {encoded : ByteString} {offset next : ℕ}

/-- A length is read from an offset when its shortest form, of at most two bytes, stands there. -/
theorem derLength_eq_ok_iff (hoffset : offset < 2 ^ 32) {length : ℕ} :
    answer (derLength encoded offset) = some (.ok (length, next)) ↔
      length < 0x100 ∧ ReadsAt encoded offset (lengthBytes length) next := by
  have hnext : checkedAdd offset 1 = some (offset + 1) :=
    checkedAdd_eq_some_iff.mpr ⟨by omega, rfl⟩
  have hlast : checkedAdd (offset + 1) 1 = some (offset + 1 + 1) :=
    checkedAdd_eq_some_iff.mpr ⟨by omega, rfl⟩
  unfold derLength
  simp only [answer_bind_eq_ok_iff, answer_orError_eq_ok_iff, hnext, expect_some_bind, hlast]
  constructor
  · rintro ⟨first, hfirst, hrest⟩
    have hbyte := first.toNat_lt
    by_cases hshort : first ≤ 0x7f
    · rw [if_pos hshort, answer_pure_eq_ok_iff, Prod.mk.injEq] at hrest
      obtain ⟨rfl, rfl⟩ := hrest
      have hlt : first.toNat < 0x80 := Nat.lt_succ_of_le (UInt8.le_iff_toNat_le.mp hshort)
      rw [lengthBytes_of_lt hlt, UInt8.ofNat_toNat, readsAt_singleton]
      exact ⟨hbyte, hfirst, rfl⟩
    · rw [if_neg hshort] at hrest
      by_cases hlong : first = 0x81
      · rw [if_pos hlong, answer_bind_eq_ok_iff] at hrest
        obtain ⟨second, hsecond, hrest⟩ := hrest
        rw [answer_orError_eq_ok_iff] at hsecond
        by_cases hle : 0x80 ≤ second.toNat
        · rw [if_pos hle, answer_pure_eq_ok_iff, Prod.mk.injEq] at hrest
          obtain ⟨rfl, rfl⟩ := hrest
          rw [lengthBytes_of_le hle second.toNat_lt, UInt8.ofNat_toNat, readsAt_cons,
            readsAt_singleton]
          exact ⟨second.toNat_lt, hlong ▸ hfirst, hsecond, rfl⟩
        · rw [if_neg hle] at hrest
          exact absurd hrest answer_throw_ne_ok
      · rw [if_neg hlong] at hrest
        exact absurd hrest answer_throw_ne_ok
  · rintro ⟨hlt, hreads⟩
    have hbyte : (UInt8.ofNat length).toNat = length := UInt8.toNat_ofNat_of_lt hlt
    by_cases hshort : length < 0x80
    · rw [lengthBytes_of_lt hshort, readsAt_singleton] at hreads
      have hle : UInt8.ofNat length ≤ 0x7f := by
        rw [UInt8.le_iff_toNat_le, hbyte]
        exact Nat.le_of_lt_succ hshort
      refine ⟨_, hreads.1, ?_⟩
      rw [if_pos hle, hbyte, hreads.2, answer_pure]
    · rw [lengthBytes_of_le (not_lt.mp hshort) hlt, readsAt_cons, readsAt_singleton] at hreads
      obtain ⟨hfirst, hsecond, rfl⟩ := hreads
      refine ⟨_, hfirst, ?_⟩
      rw [if_neg (by decide), if_pos rfl,
        answer_bind_of_ok (answer_orError_eq_ok_iff.mpr hsecond), hbyte, if_pos (not_lt.mp hshort),
        answer_pure]

/-- The content of an integer passes the checks, as the shortest encoding of the integer. -/
theorem positiveValue_eq_ok_iff {content value : ByteString} :
    answer (positiveValue content) = some (.ok value) ↔
      ∃ number, content = integerContent number ∧ value = toBytesBe number := by
  rw [exists_integerContent_iff]
  unfold positiveValue clearSign
  simp only [answer_ite_throw_eq_ok_iff, answer_bind_eq_ok_iff, answer_expect_eq_ok_iff, not_not,
    and_signBit_eq_zero_iff]
  cases content with
  | nil =>
    refine iff_of_false (fun h ↦ h.1 rfl) ?_
    rintro ⟨hminimal, hcontent⟩
    split_ifs at hcontent
    exact (hcontent ▸ hminimal : IsMinimal [])
  | cons first rest =>
    simp only [List.getElem?_cons_zero, Option.some.injEq, exists_eq_left', List.length_cons,
      reduceCtorEq, not_false_eq_true, true_and]
    cases rest with
    | nil =>
      rw [if_neg fun h ↦ absurd h.1 (lt_irrefl 1), answer_pure_eq_ok_iff]
      constructor
      · rintro ⟨hclear, rfl⟩
        exact ⟨.inr rfl, (if_neg (UInt8.not_le.mpr hclear)).symm⟩
      · rintro ⟨-, hcontent⟩
        split_ifs at hcontent with hsign
        · obtain ⟨-, rfl⟩ := List.cons_eq_cons.mp hcontent
          exact absurd hsign (by decide)
        · obtain rfl := hcontent
          exact ⟨UInt8.not_le.mp hsign, rfl⟩
    | cons second rest =>
      by_cases hfirst : first = 0
      · subst hfirst
        have hindex : (0 :: second :: rest)[1]? = some second := rfl
        have hslice : sliceFrom (0 :: second :: rest) 1 = some (second :: rest) :=
          sliceFrom_eq_some (Nat.succ_le_succ (Nat.zero_le _))
        rw [if_pos ⟨Nat.succ_lt_succ (Nat.succ_pos _), rfl⟩, hindex, expect_some_bind, hslice,
          answer_ite_throw_eq_ok_iff, answer_expect_eq_ok_iff, Option.some.injEq, UInt8.not_lt]
        constructor
        · rintro ⟨-, hsign, rfl⟩
          refine ⟨.inl ?_, (if_pos hsign).symm⟩
          rintro rfl
          exact absurd hsign (by decide)
        · rintro ⟨hminimal, hcontent⟩
          split_ifs at hcontent with hsign
          · obtain ⟨-, rfl⟩ := List.cons_eq_cons.mp hcontent
            exact ⟨by decide, hsign, rfl⟩
          · rw [← hcontent] at hminimal
            exact absurd hminimal (by simp [IsMinimal])
      · rw [if_neg fun h ↦ hfirst h.2, answer_pure_eq_ok_iff]
        constructor
        · rintro ⟨hclear, rfl⟩
          exact ⟨.inl hfirst, (if_neg (UInt8.not_le.mpr hclear)).symm⟩
        · rintro ⟨-, hcontent⟩
          split_ifs at hcontent with hsign
          · exact absurd (List.cons_eq_cons.mp hcontent).1 hfirst
          · obtain rfl := hcontent
            exact ⟨UInt8.not_le.mp hsign, rfl⟩

/-- The bytes between two offsets are those that stand at the first. -/
theorem sliceRange_eq_some_iff {length : ℕ} {part : ByteString} (hpart : part ≠ []) :
    sliceRange encoded offset (offset + length) = some part ↔
      part.length = length ∧ ReadsAt encoded offset part (offset + length) := by
  unfold sliceRange
  rw [Nat.add_sub_cancel_left]
  constructor
  · intro hslice
    split_ifs at hslice with hrange
    rw [Option.some.injEq] at hslice
    have hlength : part.length = length := by
      rw [← hslice, length_slice]
      omega
    refine ⟨hlength, ?_, by rw [hlength]⟩
    rw [← hslice, slice]
    exact List.take_prefix _ _
  · rintro ⟨rfl, hreads⟩
    rw [if_pos ⟨Nat.le_add_right _ _, hreads.next_le hpart⟩, slice]
    exact congrArg some (List.prefix_iff_eq_take.mp hreads.1).symm

/-- An integer is read from an offset when its encoding, of at most 255 bytes, stands there. -/
theorem derPositiveInteger_eq_ok_iff (hoffset : offset < 2 ^ 16) {value : ByteString} :
    answer (derPositiveInteger encoded offset) = some (.ok (value, next)) ↔
      ∃ number, value = toBytesBe number ∧ (integerContent number).length < 0x100 ∧
        ReadsAt encoded offset (integer number) next := by
  have hnext : checkedAdd offset 1 = some (offset + 1) :=
    checkedAdd_eq_some_iff.mpr ⟨by omega, rfl⟩
  have hcontent : ∀ number, integerContent number ≠ [] := by
    intro number hnil
    obtain ⟨hminimal, hsign⟩ := exists_integerContent_iff.mp ⟨number, hnil.symm, rfl⟩
    unfold clearSign at hsign
    split_ifs at hsign
    exact (hsign ▸ hminimal : IsMinimal [])
  have hsum : ∀ {length middle : ℕ}, length < 0x100 →
      ReadsAt encoded (offset + 1) (lengthBytes length) middle →
        checkedAdd middle length = some (middle + length) := by
    intro length middle hlt hreads
    have hbytes := length_lengthBytes_le hlt
    have hmiddle := hreads.2
    exact checkedAdd_eq_some_iff.mpr ⟨by omega, rfl⟩
  unfold derPositiveInteger
  simp only [answer_bind_eq_ok_iff, answer_orError_eq_ok_iff, answer_ite_throw_eq_ok_iff, not_not,
    hnext, expect_some_bind, answer_expect_eq_ok_iff, answer_pure_eq_ok_iff, Prod.exists,
    Prod.mk.injEq, derLength_eq_ok_iff (show offset + 1 < 2 ^ 32 by omega)]
  constructor
  · rintro ⟨tag, htag, rfl, length, middle, ⟨hlt, hlength⟩, stop, hstop, content, hslice, last,
      hlast, value', hvalue, rfl, rfl⟩
    rw [hsum hlt hlength, Option.some.injEq] at hstop hlast
    subst hstop hlast
    obtain ⟨number, rfl, rfl⟩ := positiveValue_eq_ok_iff.mp hvalue
    obtain ⟨rfl, hreads⟩ := (sliceRange_eq_some_iff (hcontent number)).mp hslice
    refine ⟨number, rfl, hlt, ?_⟩
    rw [integer, tagged, readsAt_cons, readsAt_append]
    exact ⟨htag, middle, hlength, hreads⟩
  · rintro ⟨number, rfl, hlt, hreads⟩
    rw [integer, tagged, readsAt_cons, readsAt_append] at hreads
    obtain ⟨htag, middle, hlength, hreads⟩ := hreads
    obtain rfl := hreads.2
    exact ⟨_, htag, rfl, _, middle, ⟨hlt, hlength⟩, _, hsum hlt hlength, _,
      (sliceRange_eq_some_iff (hcontent number)).mpr ⟨rfl, hreads⟩, _, hsum hlt hlength, _,
      positiveValue_eq_ok_iff.mpr ⟨number, rfl, rfl⟩, rfl, rfl⟩

/-- Two byte strings that fit the width stand at the ends of their halves. -/
theorem fixedWidthPair_eq_some {width : ℕ} {r s : ByteString} (hr : r.length ≤ width)
    (hs : s.length ≤ width) :
    fixedWidthPair (width * 2) width r s =
      some ((List.replicate (width - r.length) 0 ++ r) ++
        (List.replicate (width - s.length) 0 ++ s)) := by
  have hzeros : (List.replicate (width * 2) (0 : UInt8)).length = width * 2 := List.length_replicate
  have hhalf : (List.replicate (width - r.length) 0 ++ r).length = width := by
    rw [List.length_append, List.length_replicate]
    omega
  have hrest : width * 2 - (width - r.length + r.length) = width := by omega
  have hfirst : copyInto (List.replicate (width * 2) 0) (width - r.length) width r =
      some ((List.replicate (width - r.length) 0 ++ r) ++ List.replicate width 0) := by
    rw [copyInto_eq_some (Nat.sub_le _ _) (by omega) (by omega), writeSlice, List.take_replicate,
      Nat.min_eq_left (by omega), List.drop_replicate, hrest]
  have hlength : ((List.replicate (width - r.length) 0 ++ r) ++
      List.replicate width 0).length = width * 2 := by
    rw [List.length_append, hhalf, List.length_replicate, mul_two]
  have hzeroCount : width * 2 - s.length - width = width - s.length := by omega
  unfold fixedWidthPair
  dsimp only
  rw [subtract_eq_some hr, Option.bind_eq_bind, Option.bind_some, hfirst, Option.bind_eq_bind,
    Option.bind_some, subtract_eq_some (by omega), Option.bind_some,
    copyInto_length (by omega) (by omega), List.take_append, hhalf,
    List.take_of_length_le (by omega), List.take_replicate, hzeroCount,
    Nat.min_eq_left (Nat.sub_le _ _), List.append_assoc _ _ s]

/-- Two numbers that fit the width fill their halves. -/
theorem fixedWidthPair_toBytesBe {width r s : ℕ} (hr : (toBytesBe r).length ≤ width)
    (hs : (toBytesBe s).length ≤ width) :
    fixedWidthPair (width * 2) width (toBytesBe r) (toBytesBe s) =
      some (toBeBytes width r ++ toBeBytes width s) := by
  rw [fixedWidthPair_eq_some hr hs, toBeBytes_eq_append hr, toBeBytes_eq_append hs]

/-! ### Accepted signatures -/

section

variable {signature output : ByteString} {width : ℕ}

/-- Numbers that fit a supported width have encodings with lengths of at most two bytes. -/
theorem length_integer_le {number : ℕ} (hwidth : width ≤ 124)
    (hlength : (toBytesBe number).length ≤ width) :
    (integerContent number).length < 0x80 ∧ (integer number).length ≤ 127 := by
  have hcontent := length_integerContent_le number
  have hshort : (integerContent number).length < 0x80 := by omega
  refine ⟨hshort, ?_⟩
  rw [integer, tagged, lengthBytes_of_lt hshort, List.length_cons, List.length_append,
    List.length_singleton]
  omega

/-- What the parser accepts, statement by statement. -/
theorem exists_of_ecdsaSignatureFromDer_eq_ok
    (haccepts : ecdsaSignatureFromDer signature width = some (.ok output)) :
    ∃ r s, (toBytesBe r).length ≤ width ∧ (toBytesBe s).length ≤ width ∧
      signature = integerPair r s ∧ output = toBeBytes width r ++ toBeBytes width s := by
  unfold ecdsaSignatureFromDer at haccepts
  simp only [answer_ite_throw_eq_ok_iff, answer_bind_eq_ok_iff, answer_okOrElse_eq_ok_iff,
    answer_orError_eq_ok_iff, answer_expect_eq_ok_iff, answer_allocate_eq_ok_iff,
    checkedAdd_eq_some_iff, checkedMul_eq_some_iff, not_or, not_not, not_lt, Prod.exists]
    at haccepts
  obtain ⟨⟨-, htag⟩, start, ⟨-, rfl⟩, sequenceLength, first, hlength, ⟨-, hsequence⟩, rBytes,
    second, hr, sBytes, last, hs, ⟨rfl, hrWidth, hsWidth⟩, outputLength, ⟨-, rfl⟩, -, ⟨-, rfl⟩,
    houtput⟩ := haccepts
  obtain ⟨hlt, hlength⟩ := (derLength_eq_ok_iff (by decide)).mp hlength
  have hlengthBytes := length_lengthBytes_le hlt
  have hfirst := hlength.2
  obtain ⟨r, rfl, hrLength, hr⟩ := (derPositiveInteger_eq_ok_iff (by omega)).mp hr
  have hrLengthBytes := length_lengthBytes_le hrLength
  have hsecond := hr.2
  rw [integer, tagged, List.length_cons, List.length_append] at hsecond
  obtain ⟨s, rfl, hsLength, hs⟩ := (derPositiveInteger_eq_ok_iff (by omega)).mp hs
  have hbody : ReadsAt signature first (integer r ++ integer s) signature.length :=
    readsAt_append.mpr ⟨second, hr, hs⟩
  have hsequenceLength : sequenceLength = (integer r ++ integer s).length := by
    have hend := hbody.2
    omega
  refine ⟨r, s, hrWidth, hsWidth, ?_, ?_⟩
  · rw [← readsAt_zero_length_iff, integerPair, tagged, readsAt_cons, readsAt_append,
      ← hsequenceLength]
    exact ⟨htag, first, hlength, hbody⟩
  · rw [fixedWidthPair_toBytesBe hrWidth hsWidth, Option.some.injEq] at houtput
    exact houtput.symm

/-- The encoding of two numbers that fit a supported width is accepted. -/
theorem ecdsaSignatureFromDer_integerPair (hpositive : 1 ≤ width) (hwidth : width ≤ 124) {r s : ℕ}
    (hr : (toBytesBe r).length ≤ width) (hs : (toBytesBe s).length ≤ width) :
    ecdsaSignatureFromDer (integerPair r s) width =
      some (.ok (toBeBytes width r ++ toBeBytes width s)) := by
  obtain ⟨hrContent, hrLength⟩ := length_integer_le hwidth hr
  obtain ⟨hsContent, hsLength⟩ := length_integer_le hwidth hs
  have hbodyLength : (integer r ++ integer s).length < 0x100 := by
    rw [List.length_append]
    omega
  have hreads := readsAt_zero_length_iff.mpr (rfl : integerPair r s = integerPair r s)
  rw [integerPair, tagged, readsAt_cons, readsAt_append, ← tagged, ← integerPair] at hreads
  obtain ⟨htag, first, hlength, hbody⟩ := hreads
  have hlengthBytes := length_lengthBytes_le hbodyLength
  have hfirst := hlength.2
  have hsequence := hbody.2
  rw [readsAt_append] at hbody
  obtain ⟨second, hrReads, hsReads⟩ := hbody
  have hsecond := hrReads.2
  unfold ecdsaSignatureFromDer
  simp only [answer_ite_throw_eq_ok_iff, answer_bind_eq_ok_iff, answer_okOrElse_eq_ok_iff,
    answer_orError_eq_ok_iff, answer_expect_eq_ok_iff, answer_allocate_eq_ok_iff,
    checkedAdd_eq_some_iff, checkedMul_eq_some_iff, not_or, not_not, not_lt, Prod.exists]
  exact ⟨⟨by omega, htag⟩, 1, ⟨by decide, rfl⟩, _, first,
    (derLength_eq_ok_iff (by decide)).mpr ⟨hbodyLength, hlength⟩, ⟨by omega, hsequence.symm⟩, _,
    second, (derPositiveInteger_eq_ok_iff (by omega)).mpr ⟨r, rfl, by omega, hrReads⟩, _, _,
    (derPositiveInteger_eq_ok_iff (by omega)).mpr ⟨s, rfl, by omega, hsReads⟩, ⟨rfl, hr, hs⟩, _,
    ⟨by omega, rfl⟩, _, ⟨by rw [isizeMax]; omega, rfl⟩, fixedWidthPair_toBytesBe hr hs⟩

end

/-! ### Refused signatures -/

theorem safe_okOrElse {ε α : Type} (error : ε) {computation : Panicking Unit α} {post : α → Prop}
    (hsafe : Safe computation post) : Safe (okOrElse error computation) post := by
  obtain ⟨result, hanswer, hpost⟩ := hsafe
  refine ⟨result.mapError fun _ ↦ error, ?_, fun value hvalue ↦ ?_⟩
  · change (answer computation).map _ = _
    rw [hanswer]
    rfl
  · exact hpost value (FallibleResult.mapError_eq_ok_iff.mp hvalue)

theorem avoids_okOrElse {ε α : Type} {error error' : ε} (hne : error' ≠ error)
    (computation : Panicking Unit α) : Avoids error (okOrElse error' computation) := by
  intro hanswer
  change (answer computation).map _ = _ at hanswer
  obtain ⟨result, -, hresult⟩ := Option.map_eq_some_iff.mp hanswer
  cases result with
  | ok value => cases hresult
  | error _ => exact hne (Except.error.inj hresult)

/-- A length is read without a panic, and is at most two bytes long. -/
theorem safe_derLength (hoffset : offset < 2 ^ 32) :
    Safe (derLength encoded offset) fun result ↦ result.1 < 0x100 ∧ result.2 ≤ offset + 2 := by
  have hnext : checkedAdd offset 1 = some (offset + 1) :=
    checkedAdd_eq_some_iff.mpr ⟨by omega, rfl⟩
  have hlast : checkedAdd (offset + 1) 1 = some (offset + 1 + 1) :=
    checkedAdd_eq_some_iff.mpr ⟨by omega, rfl⟩
  unfold derLength
  refine (safe_orError () encoded[offset]?).bind fun first _ ↦ ?_
  rw [hnext, expect_some_bind]
  split_ifs
  · exact safe_pure ⟨first.toNat_lt, Nat.le_succ _⟩
  · refine (safe_orError () encoded[offset + 1]?).bind fun second _ ↦ ?_
    dsimp only
    rw [hlast, expect_some_bind]
    split_ifs
    · exact safe_pure ⟨second.toNat_lt, le_rfl⟩
    · exact safe_throw _ _
  · exact safe_throw _ _

/-- The checks of a content index within it. -/
theorem safe_positiveValue (content : ByteString) : Safe (positiveValue content) fun _ ↦ True := by
  unfold positiveValue
  cases content with
  | nil => exact safe_throw _ _
  | cons first rest =>
    rw [if_neg (List.cons_ne_nil _ _), List.getElem?_cons_zero, expect_some_bind]
    split_ifs with hsign hzero
    · exact safe_throw _ _
    · have hrest : 0 < rest.length := Nat.lt_of_succ_lt_succ hzero.1
      rw [List.getElem?_cons_succ, List.getElem?_eq_getElem hrest, expect_some_bind]
      split_ifs
      · exact safe_throw _ _
      · exact (safe_expect (sliceFrom_eq_some (Nat.succ_le_succ (Nat.zero_le _)))).mono
          fun _ _ ↦ trivial
    · exact safe_pure trivial

/-- An integer is read without a panic, and is less than 300 bytes long. -/
theorem safe_derPositiveInteger (hoffset : offset < 2 ^ 16) :
    Safe (derPositiveInteger encoded offset) fun result ↦ result.2 < offset + 300 := by
  have hnext : checkedAdd offset 1 = some (offset + 1) :=
    checkedAdd_eq_some_iff.mpr ⟨by omega, rfl⟩
  unfold derPositiveInteger
  refine (safe_orError () encoded[offset]?).bind fun tag _ ↦ ?_
  split_ifs
  · exact safe_throw _ _
  rw [hnext, expect_some_bind]
  refine (safe_derLength (by omega)).bind fun result hresult ↦ ?_
  obtain ⟨length, middle⟩ := result
  obtain ⟨hlength, hmiddle⟩ := hresult
  dsimp only at hlength hmiddle ⊢
  have hsum : checkedAdd middle length = some (middle + length) :=
    checkedAdd_eq_some_iff.mpr ⟨by omega, rfl⟩
  refine (safe_orError () _).bind fun stop _ ↦ ?_
  refine (safe_orError () _).bind fun content _ ↦ ?_
  rw [hsum, expect_some_bind]
  refine (safe_positiveValue content).bind fun value _ ↦ ?_
  exact safe_pure (by dsimp only; omega)

section

variable {signature : ByteString} {width : ℕ}

/-- No signature makes the parser read or slice out of range, and no width that an output of twice
the width can be allocated for makes it panic. -/
theorem ecdsaSignatureFromDer_ne_none (hwidth : width * 2 ≤ isizeMax) :
    ecdsaSignatureFromDer signature width ≠ none := by
  refine Safe.answer_ne_none (?_ : Safe _ fun _ ↦ True)
  split_ifs
  · exact safe_throw _ _
  rw [show checkedAdd 0 1 = some 1 by rfl, expect_some_bind]
  refine (safe_okOrElse _ (safe_derLength (by decide))).bind fun result hresult ↦ ?_
  obtain ⟨sequenceLength, first⟩ := result
  dsimp only at hresult ⊢
  split_ifs
  · exact safe_throw _ _
  refine (safe_okOrElse _ (safe_derPositiveInteger (by omega))).bind fun result hresult ↦ ?_
  obtain ⟨r, second⟩ := result
  dsimp only at hresult ⊢
  refine (safe_okOrElse _ (safe_derPositiveInteger (by omega))).bind fun result _ ↦ ?_
  obtain ⟨s, last⟩ := result
  dsimp only
  split_ifs with hlong
  · exact safe_throw _ _
  rw [not_or, not_or, not_lt, not_lt] at hlong
  refine (safe_orError _ _).bind fun outputLength houtput ↦ ?_
  obtain ⟨-, rfl⟩ := checkedMul_eq_some_iff.mp houtput
  refine (safe_allocate hwidth).bind fun allocated hallocated ↦ ?_
  rw [hallocated]
  exact (safe_expect (fixedWidthPair_eq_some hlong.2.1 hlong.2.2)).mono fun _ _ ↦ trivial

/-- The parser has one error. -/
theorem ecdsaSignatureFromDer_ne_error {error : SoftwareSigningError}
    (hne : SoftwareSigningError.invalidSignature ≠ error) :
    ecdsaSignatureFromDer signature width ≠ some (.error error) := by
  refine avoids_ite (avoids_throw hne) ((avoids_expect _ _).bind fun offset ↦ ?_)
  refine (avoids_okOrElse hne _).bind fun ⟨sequenceLength, first⟩ ↦ ?_
  refine avoids_ite (avoids_throw hne) ((avoids_okOrElse hne _).bind fun ⟨r, second⟩ ↦ ?_)
  refine (avoids_okOrElse hne _).bind fun ⟨s, last⟩ ↦ ?_
  refine avoids_ite (avoids_throw hne) ((avoids_orError hne _).bind fun outputLength ↦ ?_)
  exact (avoids_expect _ _).bind fun _ ↦ avoids_expect _ _

end

/-- `ecdsa_signature_from_der` accepts exactly strict DER. For every width from 1 to 124 and every
byte string: the result is an output exactly when the byte string is the DER encoding of a sequence
of two integers that fit the width, and the output is both in the width. So the conversion is
injective and inverts the encoding of every pair in the width; and no byte string makes it panic,
what is not accepted being an invalid signature.

With a width of at most 124 the length of the sequence fits in the two bytes that the parser
reads; the supported curves are all within it. -/
theorem ecdsaSignatureFromDer_accepts_der {width : ℕ} (hpositive : 1 ≤ width)
    (hwidth : width ≤ 124) :
    (∀ signature output, ecdsaSignatureFromDer signature width = some (.ok output) ↔
      ∃ r s, r < 256 ^ width ∧ s < 256 ^ width ∧ signature = integerPair r s ∧
        output = toBeBytes width r ++ toBeBytes width s) ∧
    (∀ signature signature' output,
      ecdsaSignatureFromDer signature width = some (.ok output) →
        ecdsaSignatureFromDer signature' width = some (.ok output) → signature = signature') ∧
    (∀ r s : ByteString, r.length = width → s.length = width →
      ecdsaSignatureFromDer (integerPair (fromBeBytes r) (fromBeBytes s)) width =
        some (.ok (r ++ s))) ∧
    ∀ signature, (∃ output, ecdsaSignatureFromDer signature width = some (.ok output)) ∨
      ecdsaSignatureFromDer signature width = some (.error .invalidSignature) := by
  have haccepts : ∀ signature output, ecdsaSignatureFromDer signature width = some (.ok output) ↔
      ∃ r s, r < 256 ^ width ∧ s < 256 ^ width ∧ signature = integerPair r s ∧
        output = toBeBytes width r ++ toBeBytes width s := by
    intro signature output
    simp only [← length_toBytesBe_le_iff hpositive]
    constructor
    · exact exists_of_ecdsaSignatureFromDer_eq_ok
    · rintro ⟨r, s, hr, hs, rfl, rfl⟩
      exact ecdsaSignatureFromDer_integerPair hpositive hwidth hr hs
  refine ⟨haccepts, ?_, ?_, ?_⟩
  · intro signature signature' output houtput houtput'
    obtain ⟨r, s, hr, hs, rfl, rfl⟩ := (haccepts _ _).mp houtput
    obtain ⟨r', s', hr', hs', rfl, hequal⟩ := (haccepts _ _).mp houtput'
    obtain ⟨hfirst, hsecond⟩ := List.append_inj hequal
      ((length_toBeBytes _ _).trans (length_toBeBytes _ _).symm)
    rw [← fromBeBytes_toBeBytes_of_lt hr, hfirst, fromBeBytes_toBeBytes_of_lt hr',
      ← fromBeBytes_toBeBytes_of_lt hs, hsecond, fromBeBytes_toBeBytes_of_lt hs']
  · rintro r s rfl hs
    refine (haccepts _ _).mpr ⟨_, _, fromBeBytes_lt r, hs ▸ fromBeBytes_lt s, rfl, ?_⟩
    rw [toBeBytes_fromBeBytes, ← hs, toBeBytes_fromBeBytes]
  · intro signature
    rcases hanswer : ecdsaSignatureFromDer signature width with _ | result
    · exact absurd hanswer (ecdsaSignatureFromDer_ne_none (by rw [isizeMax]; omega))
    · cases result with
      | ok output => exact .inl ⟨output, rfl⟩
      | error error =>
        refine .inr (congrArg (fun error ↦ some (Except.error error)) ?_)
        by_contra hne
        exact ecdsaSignatureFromDer_ne_error (Ne.symm hne) hanswer

/-- The coordinates of P-256: a number with its sign padded, and one of two bytes. -/
theorem ecdsaSignatureFromDer_accepts_der_p256 :
    ecdsaSignatureFromDer [0x30, 0x08, 0x02, 0x02, 0x00, 0x80, 0x02, 0x02, 0x01, 0x02] 32 =
      some (.ok (List.replicate 31 0 ++ [0x80] ++ (List.replicate 30 0 ++ [0x01, 0x02]))) :=
  ((ecdsaSignatureFromDer_accepts_der (by decide) (by decide)).1 _ _).mpr
    ⟨0x80, 0x0102, by decide, by decide, by decide, by decide⟩

end SoftwareKeyCore.SoftwareSigning
