import SoftwareKeyCore.SoftwareSymmetric.BlockwiseModes
import SoftwareKeyCore.SoftwareSymmetric.Cmac

/-!
# The software ciphers

`software_symmetric.rs`: ECB and CBC over the AES and triple DES of the third-party crates. A cipher
under a key is a pair of inverse functions on its blocks (`BlockCiphers`). The CBC functions call
`cbc_with` with the ECB functions, and map its errors. A result is `none` when the code panics, as the
debug assertions of the callbacks would.

`cbcOutcome` is what a CBC function returns, the checks in their order. An encryption of no block does
not call the cipher, so it does not see that the key is not one; a decryption of no block does.
`isEcbPair_and_isCbcPair` puts the functions of the two ciphers together: they undo each other under a
key, and refuse for these reasons only.
-/

set_option autoImplicit false
set_option relaxedAutoImplicit false

namespace SoftwareKeyCore.SoftwareSymmetric

open ByteString CallbackSession CheckedSlice Cmac FallibleResult Panicking

/-- `TDES_BLOCK_SIZE`. -/
abbrev tdesBlockSize : ℕ := 8

/-- The ciphers of the crates under their keys. The constructor of triple DES takes the keys of its
length. -/
structure BlockCiphers where
  aes : (key : ByteString) → BlockPermutation aesBlockSize
  tdesEde3 : (key : ByteString) → Option (BlockPermutation tdesBlockSize)
  isSome_tdesEde3 : ∀ {key}, (tdesEde3 key).isSome ↔ key.length = 24

section

variable (ciphers : BlockCiphers)

/-- `AesCipher::new`. -/
def aesCipher (key : ByteString) :
    Except SoftwareSymmetricError (BlockPermutation aesBlockSize) :=
  if key.length = 16 ∨ key.length = 24 ∨ key.length = 32 then .ok (ciphers.aes key)
  else .error .invalidKeyLength

/-- `transform_ecb`. -/
def transformEcb (key input : ByteString) (encrypt : Bool) :
    Except SoftwareSymmetricError ByteString :=
  if ¬ aesBlockSize ∣ input.length then .error .invalidDataLength
  else do
    let cipher ← aesCipher ciphers key
    .ok (cipher.transform encrypt input)

/-- `encrypt_aes_ecb`. -/
def encryptAesEcb (key plaintext : ByteString) : Except SoftwareSymmetricError ByteString :=
  transformEcb ciphers key plaintext true

/-- `decrypt_aes_ecb`. -/
def decryptAesEcb (key ciphertext : ByteString) : Except SoftwareSymmetricError ByteString :=
  transformEcb ciphers key ciphertext false

/-- `map_software_block_mode_error`. -/
def mapSoftwareBlockModeError :
    BlockCipherModeError SoftwareSymmetricError → SoftwareSymmetricError
  | .invalidIvLength => .invalidIvLength
  | .blockOperation error => error
  | .invalidBlockSize | .invalidDataLength | .invalidCounterBits | .inputTooLong
  | .invalidBlockOutput => .invalidDataLength

/-- `encrypt_aes_cbc`. -/
def encryptAesCbc (key iv plaintext : ByteString) :
    Option (Except SoftwareSymmetricError ByteString) :=
  (answer (cbcWith aesBlockSize iv plaintext true fun blocks encrypting ↦
    -- The assertion of the callback.
    if encrypting then some (encryptAesEcb ciphers key blocks) else none)).map
      (Except.mapError mapSoftwareBlockModeError)

/-- `decrypt_aes_cbc`. -/
def decryptAesCbc (key iv ciphertext : ByteString) :
    Option (Except SoftwareSymmetricError ByteString) :=
  (answer (cbcWith aesBlockSize iv ciphertext false fun blocks encrypting ↦
    if encrypting then none else some (decryptAesEcb ciphers key blocks))).map
      (Except.mapError mapSoftwareBlockModeError)

/-- `crypt_tdes_ecb`. -/
def cryptTdesEcb (key input : ByteString) (encrypting : Bool) :
    Except SoftwareSymmetricError ByteString :=
  if key.length ≠ 24 then .error .invalidKeyLength
  else if ¬ tdesBlockSize ∣ input.length then .error .invalidDataLength
  else do
    let cipher ← orError .invalidKeyLength (ciphers.tdesEde3 key)
    .ok (cipher.transform encrypting input)

/-- `encrypt_tdes_ecb`. -/
def encryptTdesEcb (key plaintext : ByteString) : Except SoftwareSymmetricError ByteString :=
  cryptTdesEcb ciphers key plaintext true

/-- `decrypt_tdes_ecb`. -/
def decryptTdesEcb (key ciphertext : ByteString) : Except SoftwareSymmetricError ByteString :=
  cryptTdesEcb ciphers key ciphertext false

/-- `crypt_tdes_cbc`. -/
def cryptTdesCbc (key : ByteString) (iv : List.Vector UInt8 tdesBlockSize) (input : ByteString)
    (encrypting : Bool) : Option (Except SoftwareSymmetricError ByteString) :=
  (answer (cbcWith tdesBlockSize iv.toList input encrypting fun blocks operation ↦
    some (if operation then encryptTdesEcb ciphers key blocks
      else decryptTdesEcb ciphers key blocks))).map (Except.mapError mapSoftwareBlockModeError)

/-- `encrypt_tdes_cbc`. -/
def encryptTdesCbc (key : ByteString) (iv : List.Vector UInt8 tdesBlockSize)
    (plaintext : ByteString) : Option (Except SoftwareSymmetricError ByteString) :=
  cryptTdesCbc ciphers key iv plaintext true

/-- `decrypt_tdes_cbc`. -/
def decryptTdesCbc (key : ByteString) (iv : List.Vector UInt8 tdesBlockSize)
    (ciphertext : ByteString) : Option (Except SoftwareSymmetricError ByteString) :=
  cryptTdesCbc ciphers key iv ciphertext false

end

/-! ### CBC over a cipher that may be missing -/

section

variable {ε : Type} {size : ℕ} {cipher : Except ε (BlockPermutation size)}
  {transform : ByteString → Except ε ByteString} {iv input : ByteString}

/-- The calls of an encryption are encryptions. -/
theorem cbcWith_true_congr {callback : ByteString → Bool → Option (Except ε ByteString)}
    (hcallback : ∀ block, callback block true = answering transform block) :
    cbcWith size iv input true callback =
      cbcWith size iv input true fun block _ ↦ answering transform block := by
  have hstep : cbcEncryptStep size callback =
      cbcEncryptStep size fun block _ ↦ answering transform block := by
    funext state block
    unfold cbcEncryptStep
    simp only [hcallback]
  unfold cbcWith
  simp only [if_true, hstep]

/-- The call of a decryption is a decryption. -/
theorem cbcWith_false_congr (transform : ByteString → Except ε ByteString)
    {callback : ByteString → Bool → Option (Except ε ByteString)}
    (hcallback : callback input false = answering transform input) :
    cbcWith size iv input false callback =
      cbcWith size iv input false fun blocks _ ↦ answering transform blocks := by
  unfold cbcWith
  simp only [Bool.false_eq_true, if_false, hcallback]

/-- The transform of a block is that of the cipher. -/
def EncryptsBlocks (cipher : Except ε (BlockPermutation size))
    (transform : ByteString → Except ε ByteString) : Prop :=
  ∀ block : ByteString, block.length = size →
    transform block = cipher.map fun permutation ↦ permutation.encrypt.apply block

/-- A block is transformed to a block. -/
theorem EncryptsBlocks.length_output (htransform : EncryptsBlocks cipher transform)
    {block output : ByteString} (hblock : block.length = size)
    (houtput : transform block = .ok output) : output.length = size := by
  rw [htransform block hblock, map_eq_ok_iff] at houtput
  obtain ⟨permutation, -, rfl⟩ := houtput
  exact permutation.encrypt.length_apply hblock

/-- The blocks of CBC over a cipher. -/
theorem cbcBlocks_of_cipher {permutation : BlockPermutation size}
    (htransform : EncryptsBlocks (.ok permutation) transform) {previous : ByteString}
    (hprevious : previous.length = size) {blocks : List ByteString}
    (hblocks : ∀ block ∈ blocks, block.length = size) :
    cbcBlocks transform previous blocks =
      .ok (chainEncrypt permutation.encrypt.apply previous blocks) := by
  induction blocks generalizing previous with
  | nil => rfl
  | cons block blocks ih =>
    rw [List.forall_mem_cons] at hblocks
    have hmixed : (xorBytes block previous).length = size := by
      rw [length_xorBytes, hblocks.1, hprevious, min_self]
    have houtput : transform (xorBytes block previous) =
        .ok (permutation.encrypt.apply (xorBytes block previous)) := htransform _ hmixed
    rw [cbcBlocks, houtput, ok_bind, ih (permutation.encrypt.length_apply hmixed) hblocks.2,
      ok_bind, chainEncrypt]

/-- The result of CBC over a cipher that may be missing, without the checks. -/
def cbcChain (cipher : Except ε (BlockPermutation size)) (iv input : ByteString) :
    (encrypting : Bool) → Except ε ByteString
  | true => if input = [] then .ok [] else cipher.map fun permutation ↦
      (chainEncrypt permutation.encrypt.apply iv (chunksExact size input)).flatten
  | false => cipher.map fun permutation ↦
      (chainDecrypt permutation.decrypt.apply iv (chunksExact size input)).flatten

theorem chunksExact_nil (size : ℕ) : chunksExact size [] = [] := by
  rw [chunksExact, List.length_nil, Nat.zero_div]
  rfl

/-- `cbc_with` encrypts over a cipher. -/
theorem answer_cbcWith_true_of_cipher (hsize : 0 < size)
    (htransform : EncryptsBlocks cipher transform) (hiv : iv.length = size)
    (hinput : size ∣ input.length) :
    answer (cbcWith size iv input true fun block _ ↦ answering transform block) =
      some ((cbcChain cipher iv input true).mapError .blockOperation) := by
  have hblocks : ∀ block ∈ chunksExact size input, block.length = size :=
    fun block hblock ↦ length_of_mem_chunksExact hblock
  rw [answer_cbcWith_true hsize (fun block output ↦ htransform.length_output) hiv hinput, cbcChain]
  by_cases hempty : input = []
  · rw [if_pos hempty, hempty, chunksExact_nil]
    rfl
  · rw [if_neg hempty]
    cases cipher with
    | ok permutation =>
      rw [cbcBlocks_of_cipher htransform hiv hblocks]
      rfl
    | error error =>
      -- The first block already asks for the cipher.
      obtain ⟨block, blocks, hcut⟩ : ∃ block blocks, chunksExact size input = block :: blocks := by
        refine List.exists_cons_of_ne_nil fun hnone ↦ hempty ?_
        rw [← flatten_chunksExact hsize hinput, hnone, List.flatten_nil]
      rw [hcut, List.forall_mem_cons] at hblocks
      have hmixed : (xorBytes block iv).length = size := by
        rw [length_xorBytes, hblocks.1, hiv, min_self]
      have herror : transform (xorBytes block iv) = .error error := htransform _ hmixed
      rw [hcut, cbcBlocks, herror]
      rfl

/-- `cbc_with` decrypts over a cipher. -/
theorem answer_cbcWith_false_of_cipher (hsize : 0 < size)
    (htransform : transform input =
      cipher.map fun permutation ↦ permutation.decrypt.blocks input)
    (hiv : iv.length = size) (hinput : size ∣ input.length) :
    answer (cbcWith size iv input false fun blocks _ ↦ answering transform blocks) =
      some ((cbcChain cipher iv input false).mapError .blockOperation) := by
  cases cipher with
  | ok permutation =>
    have hcall : answering transform input =
        blockwise (ε := ε) (permutation.transform false) input := congrArg some htransform
    have hdecrypt := answer_cbcWith_decrypt (ε := ε) permutation hsize hiv hinput
    unfold cbcBlockwise at hdecrypt
    unfold cbcWith at hdecrypt ⊢
    simp only [Bool.false_eq_true, if_false, hcall] at hdecrypt ⊢
    exact hdecrypt
  | error error =>
    have hcall : answer (checkedCall BlockCipherModeError.blockOperation .invalidBlockOutput
        input.length (answering transform input)) = some (.error (.blockOperation error)) := by
      rw [answer_checkedCall_of_length, htransform]
      · rfl
      · intro output houtput
        rw [htransform] at houtput
        cases houtput
    unfold cbcWith
    rw [if_neg hsize.ne', if_neg (not_not.mpr hiv), if_neg (not_not.mpr hinput),
      if_neg Bool.false_ne_true]
    exact answer_bind_of_error hcall

end

/-! ### The results -/

section

variable {size : ℕ} {cipher : Except SoftwareSymmetricError (BlockPermutation size)}
  {iv input : ByteString}

/-- What a CBC function returns. -/
def cbcOutcome (cipher : Except SoftwareSymmetricError (BlockPermutation size))
    (iv input : ByteString) (encrypting : Bool) : Except SoftwareSymmetricError ByteString :=
  if iv.length ≠ size then .error .invalidIvLength
  else if ¬ size ∣ input.length then .error .invalidDataLength
  else cbcChain cipher iv input encrypting

/-- The error of a mapped chaining is that of the chaining. -/
theorem mapError_mapSoftwareBlockModeError (result : Except SoftwareSymmetricError ByteString) :
    (result.mapError BlockCipherModeError.blockOperation).mapError mapSoftwareBlockModeError =
      result := by
  cases result with
  | ok output => rfl
  | error error => rfl

/-- A CBC function checks the vector and the data before its cipher. -/
theorem map_answer_cbcWith_eq {encrypting : Bool} (hsize : 0 < size)
    {callback : ByteString → Bool → Option (Except SoftwareSymmetricError ByteString)}
    (hanswer : iv.length = size → size ∣ input.length →
      answer (cbcWith size iv input encrypting callback) =
        some ((cbcChain cipher iv input encrypting).mapError .blockOperation)) :
    (answer (cbcWith size iv input encrypting callback)).map
        (Except.mapError mapSoftwareBlockModeError) =
      some (cbcOutcome cipher iv input encrypting) := by
  unfold cbcOutcome
  by_cases hiv : iv.length = size
  · by_cases hinput : size ∣ input.length
    · rw [hanswer hiv hinput, Option.map_some, mapError_mapSoftwareBlockModeError,
        if_neg (not_not.mpr hiv), if_neg (not_not.mpr hinput)]
    · unfold cbcWith
      rw [if_neg hsize.ne', if_neg (not_not.mpr hiv), if_pos hinput, if_neg (not_not.mpr hiv),
        if_pos hinput]
      rfl
  · unfold cbcWith
    rw [if_neg hsize.ne', if_pos hiv, if_pos hiv]
    rfl

end

section

variable (ciphers : BlockCiphers) (key : ByteString)

/-- Triple DES under a key. -/
def tdesCipher : Except SoftwareSymmetricError (BlockPermutation tdesBlockSize) :=
  if key.length ≠ 24 then .error .invalidKeyLength
  else orError .invalidKeyLength (ciphers.tdesEde3 key)

theorem transformEcb_eq {input : ByteString} (encrypt : Bool)
    (hinput : aesBlockSize ∣ input.length) :
    transformEcb ciphers key input encrypt =
      (aesCipher ciphers key).map fun cipher ↦ cipher.transform encrypt input := by
  rw [transformEcb, if_neg (not_not.mpr hinput)]
  cases aesCipher ciphers key with
  | ok cipher => rfl
  | error error => rfl

theorem cryptTdesEcb_eq {input : ByteString} (encrypting : Bool)
    (hinput : tdesBlockSize ∣ input.length) :
    cryptTdesEcb ciphers key input encrypting =
      (tdesCipher ciphers key).map fun cipher ↦ cipher.transform encrypting input := by
  unfold cryptTdesEcb tdesCipher
  rw [if_neg (not_not.mpr hinput)]
  split_ifs with hkey
  · rfl
  · cases ciphers.tdesEde3 key with
    | none => rfl
    | some cipher => rfl

/-- ECB on one block is the cipher. -/
theorem encryptsBlocks_of_whole {size : ℕ}
    {cipher : Except SoftwareSymmetricError (BlockPermutation size)}
    {encrypt : ByteString → Except SoftwareSymmetricError ByteString} (hsize : 0 < size)
    (hwhole : ∀ input : ByteString, size ∣ input.length →
      encrypt input = cipher.map fun cipher ↦ cipher.transform true input) :
    EncryptsBlocks cipher encrypt := by
  intro block hblock
  rw [hwhole block hblock.symm.dvd]
  refine congrArg (Except.map · cipher) (funext fun cipher ↦ ?_)
  exact cipher.encrypt.blocks_block hsize hblock

/-- AES encrypts in CBC. -/
theorem encryptAesCbc_eq (iv plaintext : ByteString) :
    encryptAesCbc ciphers key iv plaintext =
      some (cbcOutcome (aesCipher ciphers key) iv plaintext true) := by
  have hblocks : EncryptsBlocks (aesCipher ciphers key) (encryptAesEcb ciphers key) :=
    encryptsBlocks_of_whole (by decide) fun _ ↦ transformEcb_eq ciphers key true
  refine map_answer_cbcWith_eq (by decide) fun hiv hinput ↦ ?_
  rw [cbcWith_true_congr fun block ↦ rfl]
  exact answer_cbcWith_true_of_cipher (by decide) hblocks hiv hinput

/-- AES decrypts in CBC. -/
theorem decryptAesCbc_eq (iv ciphertext : ByteString) :
    decryptAesCbc ciphers key iv ciphertext =
      some (cbcOutcome (aesCipher ciphers key) iv ciphertext false) := by
  refine map_answer_cbcWith_eq (by decide) fun hiv hinput ↦ ?_
  rw [cbcWith_false_congr (decryptAesEcb ciphers key) rfl]
  exact answer_cbcWith_false_of_cipher (by decide) (transformEcb_eq ciphers key false hinput) hiv
    hinput

/-- Triple DES encrypts in CBC. -/
theorem encryptTdesCbc_eq (iv : List.Vector UInt8 tdesBlockSize) (plaintext : ByteString) :
    encryptTdesCbc ciphers key iv plaintext =
      some (cbcOutcome (tdesCipher ciphers key) iv.toList plaintext true) := by
  have hblocks : EncryptsBlocks (tdesCipher ciphers key) (encryptTdesEcb ciphers key) :=
    encryptsBlocks_of_whole (by decide) fun _ ↦ cryptTdesEcb_eq ciphers key true
  refine map_answer_cbcWith_eq (by decide) fun hiv hinput ↦ ?_
  rw [cbcWith_true_congr fun block ↦ rfl]
  exact answer_cbcWith_true_of_cipher (by decide) hblocks hiv hinput

/-- Triple DES decrypts in CBC. -/
theorem decryptTdesCbc_eq (iv : List.Vector UInt8 tdesBlockSize) (ciphertext : ByteString) :
    decryptTdesCbc ciphers key iv ciphertext =
      some (cbcOutcome (tdesCipher ciphers key) iv.toList ciphertext false) := by
  refine map_answer_cbcWith_eq (by decide) fun hiv hinput ↦ ?_
  rw [cbcWith_false_congr (decryptTdesEcb ciphers key) rfl]
  exact answer_cbcWith_false_of_cipher (by decide) (cryptTdesEcb_eq ciphers key false hinput) hiv
    hinput

end

/-! ### Pairs of functions -/

/-- Two ECB functions under a key, the second of which undoes the first. `foremost` is the error when
both the key and the data are refused. -/
structure IsEcbPair (size : ℕ) (validKey : Prop) (foremost : SoftwareSymmetricError)
    (crypt : ByteString → Bool → Except SoftwareSymmetricError ByteString) : Prop where
  decrypt_iff : ∀ {c p}, crypt c false = .ok p ↔ crypt p true = .ok c
  accepts_iff : ∀ {input encrypting},
    (∃ output, crypt input encrypting = .ok output) ↔ validKey ∧ size ∣ input.length
  refuses_data : ∀ {input encrypting}, validKey → ¬ size ∣ input.length →
    crypt input encrypting = .error .invalidDataLength
  refuses_key : ∀ {input encrypting}, ¬ validKey → size ∣ input.length →
    crypt input encrypting = .error .invalidKeyLength
  refuses_both : ∀ {input encrypting}, ¬ validKey → ¬ size ∣ input.length →
    crypt input encrypting = .error foremost

/-- The reasons for which a CBC function refuses. -/
def RefusesCbc (size : ℕ) (refusesKey : Prop) (iv input : ByteString) :
    SoftwareSymmetricError → Prop
  | .invalidIvLength => iv.length ≠ size
  | .invalidDataLength => iv.length = size ∧ ¬ size ∣ input.length
  | .invalidKeyLength => iv.length = size ∧ size ∣ input.length ∧ refusesKey
  | .authenticationFailed => False

/-- Two CBC functions under a key. They do not panic and refuse for the reasons above, where an
encryption of no block does not look at the key; apart from that the second undoes the first. -/
structure IsCbcPair {ι : Type} (size : ℕ) (bytes : ι → ByteString) (validKey : Prop)
    (encrypt decrypt : ι → ByteString → Option (Except SoftwareSymmetricError ByteString)) :
    Prop where
  decrypt_iff : ∀ {iv c p},
    decrypt iv c = some (.ok p) ↔ validKey ∧ encrypt iv p = some (.ok c)
  encrypt_iff_of_invalid : ∀ {iv p c}, ¬ validKey →
    (encrypt iv p = some (.ok c) ↔ (bytes iv).length = size ∧ p = [] ∧ c = [])
  encrypt_error_iff : ∀ {iv p error}, encrypt iv p = some (.error error) ↔
    RefusesCbc size (¬ validKey ∧ p ≠ []) (bytes iv) p error
  decrypt_error_iff : ∀ {iv c error}, decrypt iv c = some (.error error) ↔
    RefusesCbc size (¬ validKey) (bytes iv) c error
  encrypt_ne_none : ∀ {iv p}, encrypt iv p ≠ none
  decrypt_ne_none : ∀ {iv c}, decrypt iv c ≠ none

/-- The cipher of a key, when there is one. -/
def IsCipherOf {size : ℕ} (validKey : Prop)
    (cipher : Except SoftwareSymmetricError (BlockPermutation size)) : Prop :=
  (∃ permutation, cipher = .ok permutation ∧ validKey) ∨
    cipher = .error .invalidKeyLength ∧ ¬ validKey

section

variable {size : ℕ} {validKey : Prop} {permutation : BlockPermutation size}
  {cipher : Except SoftwareSymmetricError (BlockPermutation size)} {iv input output : ByteString}
  {encrypting : Bool} {error : SoftwareSymmetricError}

/-- Under a key a CBC function returns what `cbc_with` does over its cipher. -/
theorem cbcOutcome_ok_eq_ok_iff (hsize : 0 < size) (hiv : iv.length = size) :
    cbcOutcome (.ok permutation) iv input encrypting = .ok output ↔
      cbcBlockwise permutation Unit iv input encrypting = some (.ok output) := by
  unfold cbcOutcome
  rw [if_neg (not_not.mpr hiv)]
  by_cases hinput : size ∣ input.length
  · rw [if_neg (not_not.mpr hinput)]
    cases encrypting with
    | true =>
      rw [answer_cbcWith_encrypt permutation hsize hiv hinput, Option.some.injEq, cbcChain]
      by_cases hempty : input = []
      · rw [if_pos hempty, hempty, chunksExact_nil, Except.ok.injEq, Except.ok.injEq]
        rfl
      · rw [if_neg hempty]
        exact Iff.of_eq ((Except.ok.injEq ..).trans (Except.ok.injEq ..).symm)
    | false =>
      rw [answer_cbcWith_decrypt permutation hsize hiv hinput, Option.some.injEq, cbcChain]
      exact Iff.of_eq ((Except.ok.injEq ..).trans (Except.ok.injEq ..).symm)
  · rw [if_pos hinput]
    refine iff_of_false (fun hresult ↦ ?_) fun hresult ↦ ?_
    · cases hresult
    · exact hinput (dvd_of_cbcBlockwise_eq_ok permutation hresult)

/-- A result tells that the vector has the length of a block. -/
theorem length_iv_of_cbcOutcome (hresult : cbcOutcome cipher iv input encrypting = .ok output) :
    iv.length = size := by
  by_contra hiv
  rw [cbcOutcome, if_pos hiv] at hresult
  cases hresult

/-- A decryption undoes an encryption, under a key. -/
theorem cbcOutcome_false_iff (hsize : 0 < size) (hcipher : IsCipherOf validKey cipher)
    {c p : ByteString} :
    cbcOutcome cipher iv c false = .ok p ↔ validKey ∧ cbcOutcome cipher iv p true = .ok c := by
  rcases hcipher with ⟨permutation, rfl, hvalid⟩ | ⟨rfl, hinvalid⟩
  · rw [and_iff_right hvalid]
    constructor
    · intro hdecrypt
      have hiv := length_iv_of_cbcOutcome hdecrypt
      rw [cbcOutcome_ok_eq_ok_iff hsize hiv] at hdecrypt ⊢
      exact cbcBlockwise_true_of_false hsize hiv hdecrypt
    · intro hencrypt
      have hiv := length_iv_of_cbcOutcome hencrypt
      rw [cbcOutcome_ok_eq_ok_iff hsize hiv] at hencrypt ⊢
      exact cbcBlockwise_false_of_true hsize hiv hencrypt
  · refine iff_of_false (fun hdecrypt ↦ ?_) fun hboth ↦ hinvalid hboth.1
    unfold cbcOutcome at hdecrypt
    split_ifs at hdecrypt
    cases hdecrypt

/-- Without a key only nothing is encrypted. -/
theorem cbcOutcome_true_iff_of_invalid (hcipher : IsCipherOf validKey cipher)
    (hinvalid : ¬ validKey) :
    cbcOutcome cipher iv input true = .ok output ↔
      iv.length = size ∧ input = [] ∧ output = [] := by
  obtain rfl : cipher = .error .invalidKeyLength := by
    rcases hcipher with ⟨permutation, -, hvalid⟩ | ⟨hcipher, -⟩
    · exact absurd hvalid hinvalid
    · exact hcipher
  unfold cbcOutcome cbcChain
  constructor
  · intro hresult
    split_ifs at hresult with hiv hinput hempty
    · cases hresult
      exact ⟨not_not.mp hiv, hempty, rfl⟩
    · cases hresult
  · rintro ⟨hiv, rfl, rfl⟩
    have hdvd : size ∣ ([] : ByteString).length := dvd_zero size
    rw [if_neg (not_not.mpr hiv), if_neg (not_not.mpr hdvd)]
    rfl

/-- The reasons for which a CBC function refuses, in the order of the checks. -/
theorem cbcOutcome_eq_error_iff (hcipher : IsCipherOf validKey cipher) :
    cbcOutcome cipher iv input encrypting = .error error ↔
      RefusesCbc size (¬ validKey ∧ (encrypting = true → input ≠ [])) iv input error := by
  unfold cbcOutcome
  by_cases hiv : iv.length = size
  · by_cases hinput : size ∣ input.length
    · rw [if_neg (not_not.mpr hiv), if_neg (not_not.mpr hinput)]
      rcases hcipher with ⟨permutation, rfl, hvalid⟩ | ⟨rfl, hinvalid⟩
      · obtain ⟨output, houtput⟩ : ∃ output, cbcChain (.ok permutation) iv input encrypting =
            (.ok output : Except SoftwareSymmetricError ByteString) := by
          cases encrypting with
          | true =>
            by_cases hempty : input = []
            · exact ⟨[], if_pos hempty⟩
            · exact ⟨_, if_neg hempty⟩
          | false => exact ⟨_, rfl⟩
        rw [houtput]
        cases error <;> simp [RefusesCbc, hiv, hinput, hvalid]
      · by_cases hempty : encrypting = true ∧ input = []
        · obtain ⟨rfl, rfl⟩ := hempty
          cases error <;> simp [RefusesCbc, cbcChain, hiv]
        · have hasks : encrypting = true → input ≠ [] :=
            fun hencrypting hnone ↦ hempty ⟨hencrypting, hnone⟩
          have hchain : @cbcChain SoftwareSymmetricError size (.error .invalidKeyLength) iv input
              encrypting = .error .invalidKeyLength := by
            cases encrypting with
            | true => exact if_neg (hasks rfl)
            | false => rfl
          rw [hchain]
          cases error with
          | invalidKeyLength => simpa [RefusesCbc, hiv, hinput, hinvalid] using hasks
          | _ => simp [RefusesCbc, hiv, hinput]
    · rw [if_neg (not_not.mpr hiv), if_pos hinput]
      cases error <;> simp [RefusesCbc, hiv, hinput]
  · rw [if_pos hiv]
    cases error <;> simp [RefusesCbc, hiv]

/-- What the two functions of a pair have in common. -/
theorem isCbcPair_of_cbcOutcome {ι : Type} {bytes : ι → ByteString}
    {encrypt decrypt : ι → ByteString → Option (Except SoftwareSymmetricError ByteString)}
    (hsize : 0 < size) (hcipher : IsCipherOf validKey cipher)
    (hencrypt : ∀ iv p, encrypt iv p = some (cbcOutcome cipher (bytes iv) p true))
    (hdecrypt : ∀ iv c, decrypt iv c = some (cbcOutcome cipher (bytes iv) c false)) :
    IsCbcPair size bytes validKey encrypt decrypt where
  decrypt_iff {iv c p} := by
    rw [hencrypt, hdecrypt, Option.some.injEq, Option.some.injEq]
    exact cbcOutcome_false_iff hsize hcipher
  encrypt_iff_of_invalid {iv p c} hinvalid := by
    rw [hencrypt, Option.some.injEq]
    exact cbcOutcome_true_iff_of_invalid hcipher hinvalid
  encrypt_error_iff {iv p error} := by
    rw [hencrypt, Option.some.injEq, cbcOutcome_eq_error_iff hcipher]
    simp only [forall_const]
  decrypt_error_iff {iv c error} := by
    rw [hdecrypt, Option.some.injEq, cbcOutcome_eq_error_iff hcipher]
    simp only [Bool.false_eq_true, false_implies, and_true]
  encrypt_ne_none {iv p} := by
    rw [hencrypt]
    exact Option.some_ne_none _
  decrypt_ne_none {iv c} := by
    rw [hdecrypt]
    exact Option.some_ne_none _

end

/-! ### ECB -/

section

variable {size : ℕ} {input : ByteString}

/-- A block function that is undone on blocks is undone on whole blocks. -/
theorem blocks_blocks {function inverse : BlockFunction size} (hsize : 0 < size)
    (hinverse : ∀ {block : ByteString}, block.length = size →
      inverse.apply (function.apply block) = block) (hinput : size ∣ input.length) :
    inverse.blocks (function.blocks input) = input := by
  have hblocks : ∀ block ∈ chunksExact size input, block.length = size :=
    fun block hblock ↦ length_of_mem_chunksExact hblock
  have hsame : (chunksExact size input).map (inverse.apply ∘ function.apply) =
      chunksExact size input := by
    refine (List.map_congr_left fun block hblock ↦ ?_).trans (List.map_id _)
    exact hinverse (hblocks block hblock)
  rw [BlockFunction.blocks.eq_def function, List.flatMap_def,
    inverse.blocks_flatten hsize (function.length_of_mem_map hblocks), List.flatMap_def,
    List.map_map, hsame, flatten_chunksExact hsize hinput]

variable (permutation : BlockPermutation size)

theorem length_transform (encrypting : Bool) (hinput : size ∣ input.length) :
    (permutation.transform encrypting input).length = input.length := by
  cases encrypting with
  | true => exact permutation.encrypt.length_blocks hinput
  | false => exact permutation.decrypt.length_blocks hinput

/-- The directions of a permutation undo each other. -/
theorem transform_not_transform (hsize : 0 < size) (encrypting : Bool)
    (hinput : size ∣ input.length) :
    permutation.transform (!encrypting) (permutation.transform encrypting input) = input := by
  cases encrypting with
  | true => exact blocks_blocks hsize permutation.decrypt_encrypt hinput
  | false => exact blocks_blocks hsize permutation.encrypt_decrypt hinput

variable {permutation} {validKey : Prop} {foremost : SoftwareSymmetricError}
  {cipher : Except SoftwareSymmetricError (BlockPermutation size)}
  {crypt : ByteString → Bool → Except SoftwareSymmetricError ByteString}

/-- ECB functions that transform whole blocks under their cipher are a pair. -/
theorem isEcbPair_of_cipher (hsize : 0 < size) (hcipher : IsCipherOf validKey cipher)
    (hwhole : ∀ input encrypting, size ∣ input.length →
      crypt input encrypting = cipher.map fun cipher ↦ cipher.transform encrypting input)
    (hdata : ∀ input encrypting, validKey → ¬ size ∣ input.length →
      crypt input encrypting = .error .invalidDataLength)
    (hboth : ∀ input encrypting, ¬ validKey → ¬ size ∣ input.length →
      crypt input encrypting = .error foremost) :
    IsEcbPair size validKey foremost crypt := by
  have hok : ∀ {input encrypting output}, crypt input encrypting = .ok output ↔
      size ∣ input.length ∧ ∃ permutation, cipher = .ok permutation ∧
        permutation.transform encrypting input = output := by
    intro input encrypting output
    by_cases hinput : size ∣ input.length
    · rw [hwhole _ _ hinput, map_eq_ok_iff, and_iff_right hinput]
    · refine iff_of_false (fun hresult ↦ ?_) fun hboth ↦ hinput hboth.1
      by_cases hvalid : validKey
      · cases (hdata _ _ hvalid hinput).symm.trans hresult
      · cases (hboth _ _ hvalid hinput).symm.trans hresult
  have hundo : ∀ {input encrypting output}, crypt input encrypting = .ok output →
      crypt output (!encrypting) = .ok input := by
    intro input encrypting output hresult
    obtain ⟨hinput, permutation, hpermutation, rfl⟩ := hok.mp hresult
    refine hok.mpr ⟨?_, permutation, hpermutation,
      transform_not_transform permutation hsize encrypting hinput⟩
    rwa [length_transform permutation encrypting hinput]
  refine ⟨⟨hundo, hundo⟩, ?_, hdata _ _, ?_, hboth _ _⟩
  · intro input encrypting
    constructor
    · rintro ⟨output, hresult⟩
      obtain ⟨hinput, permutation, hpermutation, -⟩ := hok.mp hresult
      rcases hcipher with ⟨-, -, hvalid⟩ | ⟨hmissing, -⟩
      · exact ⟨hvalid, hinput⟩
      · cases hmissing.symm.trans hpermutation
    · rintro ⟨hvalid, hinput⟩
      rcases hcipher with ⟨permutation, hpermutation, -⟩ | ⟨-, hinvalid⟩
      · exact ⟨_, hok.mpr ⟨hinput, permutation, hpermutation, rfl⟩⟩
      · exact absurd hvalid hinvalid
  · intro input encrypting hinvalid hinput
    rcases hcipher with ⟨-, -, hvalid⟩ | ⟨hmissing, -⟩
    · exact absurd hvalid hinvalid
    · rw [hwhole _ _ hinput, hmissing]
      rfl

end

/-! ### AES and triple DES -/

section

variable (ciphers : BlockCiphers) (key : ByteString)

/-- A key of AES. -/
abbrev IsAesKeyLength (length : ℕ) : Prop :=
  length = 16 ∨ length = 24 ∨ length = 32

theorem isCipherOf_aesCipher :
    IsCipherOf (IsAesKeyLength key.length) (aesCipher ciphers key) := by
  unfold aesCipher
  by_cases hkey : IsAesKeyLength key.length
  · exact Or.inl ⟨ciphers.aes key, if_pos hkey, hkey⟩
  · exact Or.inr ⟨if_neg hkey, hkey⟩

theorem isCipherOf_tdesCipher : IsCipherOf (key.length = 24) (tdesCipher ciphers key) := by
  unfold tdesCipher
  by_cases hkey : key.length = 24
  · obtain ⟨permutation, hpermutation⟩ :=
      Option.isSome_iff_exists.mp (ciphers.isSome_tdesEde3.mpr hkey)
    rw [if_neg (not_not.mpr hkey), hpermutation]
    exact Or.inl ⟨permutation, rfl, hkey⟩
  · exact Or.inr ⟨if_pos hkey, hkey⟩

/-- The ECB functions of a cipher undo each other, and so do its CBC functions under a key. When the
key and the data are both refused, AES reports the data and triple DES the key.

Assumes of the third-party ciphers that the two directions of a key undo each other on the
blocks, and that triple DES takes the keys of 24 bytes and no other (`BlockCiphers`). -/
theorem isEcbPair_and_isCbcPair :
    (IsEcbPair aesBlockSize (IsAesKeyLength key.length) .invalidDataLength
        (transformEcb ciphers key) ∧
      IsEcbPair tdesBlockSize (key.length = 24) .invalidKeyLength (cryptTdesEcb ciphers key)) ∧
    IsCbcPair aesBlockSize id (IsAesKeyLength key.length) (encryptAesCbc ciphers key)
        (decryptAesCbc ciphers key) ∧
      IsCbcPair tdesBlockSize List.Vector.toList (key.length = 24) (encryptTdesCbc ciphers key)
        (decryptTdesCbc ciphers key) := by
  refine ⟨⟨?_, ?_⟩, ?_, ?_⟩
  · have hpart : ∀ input encrypting, ¬ aesBlockSize ∣ input.length →
        transformEcb ciphers key input encrypting = .error .invalidDataLength :=
      fun input encrypting hinput ↦ if_pos hinput
    exact isEcbPair_of_cipher (by decide) (isCipherOf_aesCipher ciphers key)
      (fun input encrypting ↦ transformEcb_eq ciphers key encrypting)
      (fun input encrypting _ ↦ hpart input encrypting)
      (fun input encrypting _ ↦ hpart input encrypting)
  · refine isEcbPair_of_cipher (by decide) (isCipherOf_tdesCipher ciphers key)
      (fun input encrypting ↦ cryptTdesEcb_eq ciphers key encrypting) ?_ ?_
    · intro input encrypting hkey hinput
      exact (if_neg (not_not.mpr hkey)).trans (if_pos hinput)
    · intro input encrypting hkey hinput
      exact if_pos hkey
  · exact isCbcPair_of_cbcOutcome (by decide) (isCipherOf_aesCipher ciphers key)
      (encryptAesCbc_eq ciphers key) (decryptAesCbc_eq ciphers key)
  · exact isCbcPair_of_cbcOutcome (by decide) (isCipherOf_tdesCipher ciphers key)
      (encryptTdesCbc_eq ciphers key) (decryptTdesCbc_eq ciphers key)

end

/-- Ciphers that complement every byte. -/
def complementCiphers : BlockCiphers where
  aes _ := BlockPermutation.complement aesBlockSize
  tdesEde3 key := if key.length = 24 then some (BlockPermutation.complement tdesBlockSize) else none
  isSome_tdesEde3 := by
    intro key
    by_cases hkey : key.length = 24
    · rw [if_pos hkey]
      exact iff_of_true rfl hkey
    · rw [if_neg hkey]
      exact iff_of_false Bool.false_ne_true hkey

/-- A key of seven bytes is one of neither cipher. -/
theorem isEcbPair_and_isCbcPair_complement :
    (IsEcbPair aesBlockSize (IsAesKeyLength 7) .invalidDataLength
        (transformEcb complementCiphers (List.replicate 7 0)) ∧
      IsEcbPair tdesBlockSize (7 = 24) .invalidKeyLength
        (cryptTdesEcb complementCiphers (List.replicate 7 0))) ∧
    IsCbcPair aesBlockSize id (IsAesKeyLength 7)
        (encryptAesCbc complementCiphers (List.replicate 7 0))
        (decryptAesCbc complementCiphers (List.replicate 7 0)) ∧
      IsCbcPair tdesBlockSize List.Vector.toList (7 = 24)
        (encryptTdesCbc complementCiphers (List.replicate 7 0))
        (decryptTdesCbc complementCiphers (List.replicate 7 0)) :=
  isEcbPair_and_isCbcPair complementCiphers (List.replicate 7 0)

end SoftwareKeyCore.SoftwareSymmetric
