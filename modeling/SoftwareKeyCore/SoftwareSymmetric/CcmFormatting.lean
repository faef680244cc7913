import SoftwareKeyCore.SoftwareSymmetric.Ccm

/-!
# The formatting of CCM

The byte strings that `ccm_with` hands to the cipher, for any two accepted calls. The input of the
CBC-MAC is injective and prefix-free: it determines the nonce, the associated data, the tag length
and the plaintext (`macInput_prefixFree`). Its first block is no counter block (`firstBlock_ne`),
and counter blocks determine their nonce and their index (`counterBlock_inj`). `Accepted` is what an
accepted call hands to a cipher of any behaviour, and `ccm_formatting` says the three facts of any
two accepted calls.

The lengths are unambiguous by `ccmAadLength_append_inj`, which tells the two encodings of the
length of the associated data apart, and by `Accepts.dataLength_lt_pow`, which is the capacity of
the length and counter fields.
-/

set_option autoImplicit false
set_option relaxedAutoImplicit false

namespace SoftwareKeyCore.Ccm

open ByteString CallbackSession CheckedSlice FallibleResult SoftwareSymmetric

/-! ### Fields -/

variable {nonce nonce' aad aad' : ByteString} {tagLength tagLength' dataLength dataLength' : ℕ}

/-- The length and counter fields hold every length. -/
theorem Accepts.dataLength_lt_pow (haccepts : Accepts nonce aad tagLength dataLength) :
    dataLength < 256 ^ fieldBytes nonce := by
  rw [show (256 : ℕ) = 2 ^ 8 by rfl, ← pow_mul, mul_comm]
  by_cases hfield : fieldBytes nonce < 8
  · exact haccepts.dataLength_lt hfield
  · have hwidth : fieldBytes nonce = 8 := le_antisymm haccepts.fieldBytes_le (not_lt.mp hfield)
    have hcapacity := haccepts.capacity_lt
    have hcover := le_ceilDiv_mul (by decide : 0 < 16) dataLength
    rw [hwidth]
    omega

/-- An encoding determines the number that it holds. -/
theorem toBeBytes_injective {width left right : ℕ} (hleft : left < 256 ^ width)
    (hright : right < 256 ^ width) (hequal : toBeBytes width left = toBeBytes width right) :
    left = right := by
  have hvalue := congrArg fromBeBytes hequal
  rwa [fromBeBytes_toBeBytes_of_lt hleft, fromBeBytes_toBeBytes_of_lt hright] at hvalue

/-- The three fields of the first byte. -/
theorem toNat_ccmFlags (aad : ByteString) (htag : tagLength ∈ [4, 6, 8, 10, 12, 14, 16])
    {lengthBytes : ℕ} (hlength : lengthBytes ≤ 8) :
    (ccmFlags aad tagLength lengthBytes).toNat =
      (if aad = [] then 0 else 64) + 8 * ((tagLength - 2) / 2) + (lengthBytes - 1) := by
  have hall : ∀ tagLength ∈ [4, 6, 8, 10, 12, 14, 16], ∀ lengthBytes ∈ List.range 9,
      (((0 : UInt8) <<< 6) ||| UInt8.ofNat ((tagLength - 2) / 2) <<< 3 |||
          UInt8.ofNat (lengthBytes - 1)).toNat =
        0 + 8 * ((tagLength - 2) / 2) + (lengthBytes - 1) ∧
      (((1 : UInt8) <<< 6) ||| UInt8.ofNat ((tagLength - 2) / 2) <<< 3 |||
          UInt8.ofNat (lengthBytes - 1)).toNat =
        64 + 8 * ((tagLength - 2) / 2) + (lengthBytes - 1) := by
    decide
  have hboth := hall tagLength htag lengthBytes (List.mem_range.mpr (by omega))
  unfold ccmFlags
  split_ifs with haad
  · exact hboth.1
  · exact hboth.2

/-- The first byte determines whether there are associated data, the tag length and the width of
the fields. -/
theorem ccmFlags_inj (htag : tagLength ∈ [4, 6, 8, 10, 12, 14, 16])
    (htag' : tagLength' ∈ [4, 6, 8, 10, 12, 14, 16]) {lengthBytes lengthBytes' : ℕ}
    (hlength : 1 ≤ lengthBytes ∧ lengthBytes ≤ 8) (hlength' : 1 ≤ lengthBytes' ∧ lengthBytes' ≤ 8)
    (hflags : ccmFlags aad tagLength lengthBytes = ccmFlags aad' tagLength' lengthBytes') :
    (aad = [] ↔ aad' = []) ∧ tagLength = tagLength' ∧ lengthBytes = lengthBytes' := by
  have hvalues := congrArg UInt8.toNat hflags
  rw [toNat_ccmFlags aad htag hlength.2, toNat_ccmFlags aad' htag' hlength'.2] at hvalues
  have hodd : ∀ length ∈ [4, 6, 8, 10, 12, 14, 16], length ≤ 16 ∧ 2 ∣ length ∧ 4 ≤ length := by
    decide
  obtain ⟨hle, hdvd, hge⟩ := hodd tagLength htag
  obtain ⟨hle', hdvd', hge'⟩ := hodd tagLength' htag'
  by_cases haad : aad = [] <;> by_cases haad' : aad' = [] <;>
    simp only [haad, haad', if_true, if_false, true_and, false_and, iff_self, false_iff, iff_false,
      not_true] at hvalues ⊢ <;> omega

/-- The two encodings of a length of associated data are told apart by their first bytes, and
each determines the length. -/
theorem ccmAadLength_append_inj {length length' : ℕ} (hlength : length < 2 ^ 32)
    (hlength' : length' < 2 ^ 32) {rest rest' : ByteString}
    (hequal : ccmAadLength length ++ rest = ccmAadLength length' ++ rest') : length = length' := by
  have hfirst : ∀ (length : ℕ) (rest : ByteString), fromBeBytes
      ((ccmAadLength length ++ rest).take 2) = if length < 0xff00 then length else 0xfffe := by
    intro length rest
    unfold ccmAadLength
    split_ifs with hshort
    · rw [List.take_left' (length_toBeBytes 2 length)]
      exact fromBeBytes_toBeBytes_of_lt (by omega)
    · rfl
  have hsecond : ∀ (length : ℕ) (rest : ByteString), length < 2 ^ 32 → ¬ length < 0xff00 →
      fromBeBytes (((ccmAadLength length ++ rest).drop 2).take 4) = length := by
    intro length rest hlength hlong
    unfold ccmAadLength
    rw [if_neg hlong, List.append_assoc, List.cons_append, List.cons_append, List.nil_append,
      List.drop_succ_cons, List.drop_succ_cons, List.drop_zero,
      List.take_left' (length_toBeBytes 4 length)]
    exact fromBeBytes_toBeBytes_of_lt (by omega)
  have hvalues := hfirst length rest
  rw [hequal, hfirst length' rest'] at hvalues
  by_cases hshort : length < 0xff00
  · rw [if_pos hshort] at hvalues
    split_ifs at hvalues with hshort'
    · exact hvalues.symm
    · omega
  · rw [if_neg hshort] at hvalues
    by_cases hshort' : length' < 0xff00
    · rw [if_pos hshort'] at hvalues
      omega
    · rw [← hsecond length rest hlength hshort, hequal, hsecond length' rest' hlength' hshort']

/-- Padding of equally long byte strings is injective. -/
theorem padToBlocks_append_inj {left right rest rest' : ByteString}
    (hlength : left.length = right.length)
    (hequal : padToBlocks left ++ rest = padToBlocks right ++ rest') :
    left = right ∧ rest = rest' := by
  obtain ⟨hpadded, hrest⟩ := List.append_inj hequal (by
    rw [length_padToBlocks, length_padToBlocks, hlength])
  rw [padToBlocks_eq, padToBlocks_eq] at hpadded
  exact ⟨List.append_inj_left hpadded hlength, hrest⟩

/-- The associated data of the CBC-MAC determine themselves, whatever follows. -/
theorem macAad_append_inj (hnil : aad = [] ↔ aad' = []) (haad : aad.length ≤ 2 ^ 32 - 1)
    (haad' : aad'.length ≤ 2 ^ 32 - 1) {rest rest' : ByteString}
    (hequal : macAad aad ++ rest = macAad aad' ++ rest') : aad = aad' ∧ rest = rest' := by
  by_cases hempty : aad = []
  · have hempty' := hnil.mp hempty
    rw [hempty, hempty'] at hequal ⊢
    exact ⟨rfl, hequal⟩
  · rw [macAad, macAad, if_neg hempty, if_neg (mt hnil.mpr hempty)] at hequal
    have hlength : aad.length = aad'.length := by
      have hsplit := hequal
      rw [padToBlocks_eq, padToBlocks_eq, List.append_assoc, List.append_assoc, List.append_assoc,
        List.append_assoc] at hsplit
      exact ccmAadLength_append_inj (by omega) (by omega) hsplit
    obtain ⟨hdata, hrest⟩ := padToBlocks_append_inj (by
      rw [List.length_append, List.length_append, hlength]) hequal
    rw [hlength] at hdata
    exact ⟨List.append_cancel_left hdata, hrest⟩

/-! ### The input of the CBC-MAC -/

/-- The input of the CBC-MAC is prefix-free and determines the nonce, the associated data, the
tag length and the plaintext. -/
theorem macInput_prefixFree {plaintext plaintext' : ByteString}
    (haccepts : Accepts nonce aad tagLength plaintext.length)
    (haccepts' : Accepts nonce' aad' tagLength' plaintext'.length)
    (hinitial : macInput nonce aad tagLength plaintext <+:
      macInput nonce' aad' tagLength' plaintext') :
    nonce = nonce' ∧ aad = aad' ∧ tagLength = tagLength' ∧ plaintext = plaintext' := by
  have hfill := haccepts.fieldBytes_add
  have hfill' := haccepts'.fieldBytes_add
  have hnonce := haccepts.nonce_le
  have hnonce' := haccepts'.nonce_le
  obtain ⟨tail, hequal⟩ := hinitial
  rw [macInput, macInput, List.append_assoc, List.append_assoc (macAad aad)] at hequal
  obtain ⟨hfirst, hrest⟩ := List.append_inj hequal (by simp; omega)
  rw [List.cons_append, List.cons_append, List.cons.injEq] at hfirst
  obtain ⟨hflags, hfields⟩ := hfirst
  obtain ⟨hnil, htag, hwidth⟩ := ccmFlags_inj haccepts.tagLength_mem haccepts'.tagLength_mem
    ⟨by omega, haccepts.fieldBytes_le⟩ ⟨by omega, haccepts'.fieldBytes_le⟩ hflags
  obtain ⟨hnonces, hlengths⟩ := List.append_inj hfields (by omega)
  obtain ⟨haads, hpayload⟩ := macAad_append_inj hnil haccepts.aad_le haccepts'.aad_le hrest
  have hlength : plaintext.length = plaintext'.length := by
    rw [← hwidth] at hlengths
    refine toBeBytes_injective haccepts.dataLength_lt_pow ?_ hlengths
    rw [hwidth]
    exact haccepts'.dataLength_lt_pow
  rw [← List.append_nil (padToBlocks plaintext')] at hpayload
  exact ⟨hnonces, haads, htag, (padToBlocks_append_inj hlength hpayload).1⟩

/-! ### Counter blocks -/

/-- The first block of the CBC-MAC. -/
theorem take_macInput {plaintext : ByteString}
    (haccepts : Accepts nonce aad tagLength plaintext.length) :
    (macInput nonce aad tagLength plaintext).take 16 =
      ccmFlags aad tagLength (fieldBytes nonce) :: nonce ++
        toBeBytes (fieldBytes nonce) plaintext.length := by
  have hfill := haccepts.fieldBytes_add
  refine List.take_left' ?_
  simp
  omega

/-- The first block of the CBC-MAC is no counter block. -/
theorem firstBlock_ne {plaintext : ByteString} {blockCount : ℕ}
    (haccepts : Accepts nonce aad tagLength plaintext.length)
    (haccepts' : Accepts nonce' aad' tagLength' dataLength') :
    (macInput nonce aad tagLength plaintext).take 16 ∉
      counterBlockList (fieldBytes nonce') nonce' blockCount := by
  intro hmem
  obtain ⟨counter, -, hblock⟩ := List.mem_map.mp hmem
  rw [take_macInput haccepts, List.cons_append, List.cons_append, List.cons.injEq] at hblock
  have hvalue := congrArg UInt8.toNat hblock.1
  have hwidth := haccepts'.fieldBytes_le
  rw [toNat_ccmFlags aad haccepts.tagLength_mem haccepts.fieldBytes_le, UInt8.toNat_ofNat',
    Nat.mod_eq_of_lt (by omega)] at hvalue
  have hge : ∀ length ∈ [4, 6, 8, 10, 12, 14, 16], 1 ≤ (length - 2) / 2 := by decide
  have htag := hge tagLength haccepts.tagLength_mem
  omega

/-- A counter block determines its nonce and its counter. -/
theorem counterBlock_inj {counter counter' : ℕ}
    (haccepts : Accepts nonce aad tagLength dataLength)
    (haccepts' : Accepts nonce' aad' tagLength' dataLength')
    (hcounter : counter ≤ dataLength ⌈/⌉ 16) (hcounter' : counter' ≤ dataLength' ⌈/⌉ 16)
    (hequal : UInt8.ofNat (fieldBytes nonce - 1) :: nonce ++ toBeBytes (fieldBytes nonce) counter =
      UInt8.ofNat (fieldBytes nonce' - 1) :: nonce' ++ toBeBytes (fieldBytes nonce') counter') :
    nonce = nonce' ∧ counter = counter' := by
  have hfill := haccepts.fieldBytes_add
  have hfill' := haccepts'.fieldBytes_add
  have hle := haccepts.fieldBytes_le
  have hle' := haccepts'.fieldBytes_le
  have hnonce := haccepts.nonce_le
  have hnonce' := haccepts'.nonce_le
  have hfits : ∀ {dataLength counter width : ℕ}, dataLength < 256 ^ width →
      counter ≤ dataLength ⌈/⌉ 16 → counter < 256 ^ width := by
    intro dataLength counter width hlength hcounter
    have hshort : dataLength ⌈/⌉ 16 ≤ dataLength := by
      rw [Nat.ceilDiv_eq_add_pred_div]
      omega
    omega
  rw [List.cons_append, List.cons_append, List.cons.injEq] at hequal
  have hvalue := congrArg UInt8.toNat hequal.1
  rw [UInt8.toNat_ofNat', UInt8.toNat_ofNat', Nat.mod_eq_of_lt (by omega),
    Nat.mod_eq_of_lt (by omega)] at hvalue
  have hwidth : fieldBytes nonce = fieldBytes nonce' := by omega
  obtain ⟨hnonces, hcounters⟩ := List.append_inj hequal.2 (by omega)
  refine ⟨hnonces, ?_⟩
  rw [← hwidth] at hcounters
  refine toBeBytes_injective (hfits haccepts.dataLength_lt_pow hcounter) ?_ hcounters
  rw [hwidth]
  exact hfits haccepts'.dataLength_lt_pow hcounter'

/-! ### Accepted calls -/

/-- The arguments of a call of `ccm_with`. -/
structure CcmCall where
  dataLength : ℕ
  nonce : ByteString
  aad : ByteString
  tagLength : ℕ
  input : ByteString
  encrypting : Bool

/-- The call over a cipher of any behaviour. -/
def CcmCall.run {σ ε : Type} (call : CcmCall)
    (callback : CcmOperation × ByteString → StateM σ (Except ε ByteString)) :
    ExceptT (CcmError ε) (Observed σ (CcmOperation × ByteString) ε) ByteString :=
  ccmWith call.dataLength call.nonce call.aad call.tagLength call.input call.encrypting
    fun operation query ↦ observed callback (operation, query)

/-- Over some cipher the call is accepted: it hands the counter blocks and the input of the
CBC-MAC to the cipher. The plaintext is the input when encrypting, and the output when
decrypting. -/
def CcmCall.Accepted (call : CcmCall) (plaintext counterBlocks macInput : ByteString) : Prop :=
  ∃ (σ ε : Type) (callback : CcmOperation × ByteString → StateM σ (Except ε ByteString))
    (state : σ) (output : ByteString) (calls : List (Call (CcmOperation × ByteString) ε)),
    runObserved (call.run callback) state = some (.ok output, calls) ∧
      plaintext = (if call.encrypting then call.input else output) ∧
      calls.map Call.query = [(.encryptBlocks, counterBlocks), (.cbcMac, macInput)]

/-- What the part after the checks of the arguments hands to the cipher. -/
theorem queries_ccmTransform {σ ε : Type} {lengthBytes : ℕ} {payload transformed tag : ByteString}
    {encrypting : Bool} {callback : CcmOperation × ByteString → StateM σ (Except ε ByteString)}
    {state : σ} {final : σ × List (Call (CcmOperation × ByteString) ε)}
    (hfill : lengthBytes + nonce.length = 15) (hfield : lengthBytes ≤ 8)
    (hrun : (ccmTransform lengthBytes payload.length nonce aad tagLength payload encrypting
      fun operation query ↦ observed callback (operation, query)).run (state, []) =
        some (.ok (transformed, tag), final)) :
    (payload.length ⌈/⌉ 16 + 1) * 16 < 2 ^ 64 ∧ transformed.length = payload.length ∧
      final.2.map Call.query =
        [(.encryptBlocks, (counterBlockList lengthBytes nonce (payload.length ⌈/⌉ 16)).flatten),
          (.cbcMac, (ccmFlags aad tagLength lengthBytes :: nonce ++
            toBeBytes lengthBytes payload.length) ++ (macAad aad ++
              padToBlocks (if encrypting then payload else transformed)))] := by
  unfold ccmTransform at hrun
  simp only [run_bind_eq_ok_iff, run_orPanic_eq_ok_iff, run_orThrow_eq_ok_iff, orError_eq_ok_iff,
    run_pure_eq_ok_iff, ccmCounterBlocks_eq_some hfill hfield, ccmMacInput_eq_some hfill hfield,
    maskBlocks_eq, counterCapacity_eq_some_iff, Option.some.injEq, Prod.mk.injEq, aesBlockSize]
    at hrun
  obtain ⟨_, session, ⟨⟨hcapacity, -⟩, rfl⟩, counterBlocks, _, ⟨rfl, rfl⟩, keyStream, middle,
    hstream, _, _, ⟨hdrop, rfl⟩, macInput, _, ⟨rfl, rfl⟩, mac, last, hmac, _, _, ⟨htake, rfl⟩, _, _,
    ⟨hmask, rfl⟩, ⟨rfl, rfl⟩, rfl⟩ := hrun
  obtain ⟨hmiddle, hlength⟩ := run_checkedCall_of_eq_ok hstream
  obtain ⟨hlast, -⟩ := run_checkedCall_of_eq_ok hmac
  rw [length_flatten_counterBlockList hfill] at hlength
  rw [sliceFrom_eq_some (by omega), Option.some.injEq] at hdrop
  subst hdrop
  refine ⟨hcapacity, ?_, ?_⟩
  · rw [length_xorBytes, min_eq_left (length_le_drop_keyStream hlength)]
  · rw [hlast, hmiddle]
    rfl

/-- An accepted call hands the formatted blocks of accepted arguments to the cipher. -/
theorem CcmCall.Accepted.spec {call : CcmCall} {plaintext counterBlocks macInput : ByteString}
    (haccepted : call.Accepted plaintext counterBlocks macInput) :
    Accepts call.nonce call.aad call.tagLength plaintext.length ∧
      counterBlocks = Ccm.counterBlocks call.nonce plaintext.length ∧
      macInput = Ccm.macInput call.nonce call.aad call.tagLength plaintext := by
  obtain ⟨σ, ε, callback, state, output, calls, hobserved, hplaintext, hqueries⟩ := haccepted
  obtain ⟨⟨result, state', calls'⟩, hrun, hpair⟩ := Option.map_eq_some_iff.mp hobserved
  obtain ⟨rfl, rfl⟩ := Prod.mk.inj hpair
  unfold CcmCall.run ccmWith at hrun
  simp only [run_ite_throw_eq_ok_iff, run_bind_eq_ok_iff, run_orPanic_eq_ok_iff,
    run_orThrow_eq_ok_iff, not_not, not_lt] at hrun
  obtain ⟨⟨hle, hge⟩, htag, lengthBytes, _, ⟨hfield, rfl⟩, hlength, haad, expected, _,
    ⟨hexpected, rfl⟩, hinput, ⟨payload, suppliedTag⟩, _, ⟨hsplit, rfl⟩, ⟨transformed, tag⟩, final,
    htransform, hresult⟩ := hrun
  rw [subtract_eq_some (by omega), Option.some.injEq] at hfield
  subst hfield
  -- The payload has the declared length, and the plaintext is the one that the CBC-MAC reads.
  have hpayload : payload.length = call.dataLength ∧ (state', calls') = final ∧
      plaintext = if call.encrypting then payload else transformed := by
    cases hdirection : call.encrypting with
    | true =>
      rw [hdirection] at hsplit hexpected hplaintext
      obtain ⟨rfl, rfl⟩ := Prod.mk.inj (Option.some.inj hsplit)
      obtain ⟨-, rfl⟩ := run_pure_eq_ok_iff.mp hresult
      exact ⟨hinput.trans (Except.ok.inj hexpected).symm, rfl, hplaintext⟩
    | false =>
      rw [hdirection] at hsplit hexpected hplaintext
      rw [ccmExpectedInput, if_neg Bool.false_ne_true, orError_eq_ok_iff,
        checkedAdd_eq_some_iff] at hexpected
      have hbound : call.dataLength ≤ call.input.length := by omega
      rw [ccmSplit, if_neg Bool.false_ne_true, sliceTo_eq_some hbound,
        sliceFrom_eq_some hbound] at hsplit
      obtain ⟨rfl, rfl⟩ := Prod.mk.inj (Option.some.inj hsplit)
      dsimp only at hresult
      by_cases hequal : tag = call.input.drop call.dataLength
      · rw [if_pos hequal, run_pure_eq_ok_iff] at hresult
        rw [hresult.1, ← hresult.2]
        exact ⟨List.length_take_of_le hbound, rfl, hplaintext⟩
      · rw [if_neg hequal] at hresult
        exact absurd hresult run_throw_ne_ok
  obtain ⟨hdeclared, rfl, rfl⟩ := hpayload
  rw [← hdeclared] at htransform hlength
  obtain ⟨hcapacity, htransformed, hhanded⟩ :=
    queries_ccmTransform (fieldBytes_add_length hge) (fieldBytes_le hle) htransform
  have hplainLength : (if call.encrypting then payload else transformed).length =
      payload.length := by
    split_ifs
    · rfl
    · exact htransformed
  rw [hqueries] at hhanded
  simp only [List.cons.injEq, Prod.mk.injEq, true_and, and_true] at hhanded
  rw [hplainLength]
  refine ⟨⟨hle, hge, htag, ?_, haad, hcapacity⟩, hhanded.1, ?_⟩
  · intro hshort
    exact not_le.mp fun hlong ↦ hlength ⟨hshort, hlong⟩
  · rw [hhanded.2, Ccm.macInput, hplainLength]

/-- The formatting of CCM, for any two accepted calls: the input of the CBC-MAC is injective and
prefix-free, its first block is no counter block, and equal counter blocks have one nonce and one
index.

Assumes nothing but that both calls are accepted; the two need not share a nonce, a tag length or
a length of payload. -/
theorem ccm_formatting {call call' : CcmCall}
    {plaintext counterBlocks macInput plaintext' counterBlocks' macInput' : ByteString}
    (haccepted : call.Accepted plaintext counterBlocks macInput)
    (haccepted' : call'.Accepted plaintext' counterBlocks' macInput') :
    (macInput <+: macInput' → call.nonce = call'.nonce ∧ call.aad = call'.aad ∧
      call.tagLength = call'.tagLength ∧ plaintext = plaintext') ∧
    macInput.take 16 ∉ chunks 16 counterBlocks' ∧
    ∀ (index index' : ℕ) (block : ByteString), (chunks 16 counterBlocks)[index]? = some block →
      (chunks 16 counterBlocks')[index']? = some block →
        call.nonce = call'.nonce ∧ index = index' := by
  obtain ⟨haccepts, rfl, rfl⟩ := haccepted.spec
  obtain ⟨haccepts', rfl, rfl⟩ := haccepted'.spec
  have hchunks : ∀ {nonce aad : ByteString} {tagLength dataLength : ℕ},
      Accepts nonce aad tagLength dataLength → chunks 16 (counterBlocks nonce dataLength) =
        counterBlockList (fieldBytes nonce) nonce (dataLength ⌈/⌉ 16) :=
    fun haccepts ↦ chunks_flatten (by decide)
      (length_counterBlockList haccepts.fieldBytes_add _)
  rw [hchunks haccepts, hchunks haccepts']
  refine ⟨macInput_prefixFree haccepts haccepts', firstBlock_ne haccepts haccepts', ?_⟩
  intro index index' block hblock hblock'
  simp only [counterBlockList, List.getElem?_map, Option.map_eq_some_iff,
    List.getElem?_eq_some_iff, List.length_range, List.getElem_range] at hblock hblock'
  obtain ⟨_, ⟨hindex, rfl⟩, hblock⟩ := hblock
  obtain ⟨_, ⟨hindex', rfl⟩, hblock'⟩ := hblock'
  exact counterBlock_inj haccepts haccepts' (Nat.le_of_lt_succ hindex)
    (Nat.le_of_lt_succ hindex') (hblock.trans hblock'.symm)

/-- An encryption of one byte with some associated data. -/
def sampleCall (aad : ByteString) : CcmCall where
  dataLength := 1
  nonce := List.replicate 7 0
  aad := aad
  tagLength := 4
  input := [0x61]
  encrypting := true

/-- A cipher that answers zeros. -/
def zeroCipher (query : CcmOperation × ByteString) : StateM Unit (Except Unit ByteString) :=
  match query with
  | (.encryptBlocks, blocks) => pure (.ok (List.replicate blocks.length 0))
  | (.cbcMac, _) => pure (.ok (List.replicate 16 0))

theorem sampleCall_nil_accepted :
    (sampleCall []).Accepted [0x61] (counterBlocks (List.replicate 7 0) 1)
      (macInput (List.replicate 7 0) [] 4 [0x61]) :=
  ⟨Unit, Unit, zeroCipher, (), [0x61, 0, 0, 0, 0], _, rfl, rfl, rfl⟩

theorem sampleCall_singleton_accepted :
    (sampleCall [0x62]).Accepted [0x61] (counterBlocks (List.replicate 7 0) 1)
      (macInput (List.replicate 7 0) [0x62] 4 [0x61]) :=
  ⟨Unit, Unit, zeroCipher, (), [0x61, 0, 0, 0, 0], _, rfl, rfl, rfl⟩

/-- Two calls that differ in their associated data only. -/
theorem ccm_formatting_sampleCalls :
    (macInput (List.replicate 7 0) [] 4 [0x61] <+: macInput (List.replicate 7 0) [0x62] 4 [0x61] →
      (sampleCall []).nonce = (sampleCall [0x62]).nonce ∧
        (sampleCall []).aad = (sampleCall [0x62]).aad ∧
        (sampleCall []).tagLength = (sampleCall [0x62]).tagLength ∧
        ([0x61] : ByteString) = [0x61]) ∧
    (macInput (List.replicate 7 0) [] 4 [0x61]).take 16 ∉
      chunks 16 (counterBlocks (List.replicate 7 0) 1) ∧
    ∀ (index index' : ℕ) (block : ByteString),
      (chunks 16 (counterBlocks (List.replicate 7 0) 1))[index]? = some block →
      (chunks 16 (counterBlocks (List.replicate 7 0) 1))[index']? = some block →
        (sampleCall []).nonce = (sampleCall [0x62]).nonce ∧ index = index' :=
  ccm_formatting sampleCall_nil_accepted sampleCall_singleton_accepted

end SoftwareKeyCore.Ccm
