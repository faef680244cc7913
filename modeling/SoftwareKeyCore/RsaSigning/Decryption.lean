import SoftwareKeyCore.Foundation.RandomTape
import SoftwareKeyCore.RsaSigning.ExactSignatures

/-!
# Decryption with a private key

`rsa_signing.rs`: `rsa_decrypt_oaep_digest` and `rsa_decrypt_pkcs1v15`. The second is the decryption
of the third-party crate, a parameter (`DecryptBlinded`) that takes exactly the type-2 blocks apart
(`DecryptsType2Blocks`).

Encryption is the public operation on an encoding, decryption the decoding of what the private
operation answers, so decryption accepts exactly the ciphertexts of the encryption with some
randomness. For OAEP the seed is determined by the ciphertext (`IsOaepEncodingOf.seed_unique`), and
`oaep_decryption_exact` says so. For `PKCS #1 v1.5` the padding is what a source draws
(`fillPadding_returns_readTape`), and `pkcs1v15_decryption_exact` says so for the crate's decryption
and for the construction over the raw operation.
-/

set_option autoImplicit false
set_option relaxedAutoImplicit false

namespace SoftwareKeyCore.RsaSigning

open ByteString CallbackSession CheckedSlice Digest Panicking RandomTape RsaKeys

/-- `rsa_decrypt_oaep_digest`. -/
def rsaDecryptOaepDigest (hashes : HashFunctions) (rsaDecryptAndCheck : RsaDecryptAndCheck)
    (key : RsaPrivateKey) (ciphertext labelDigest : ByteString) (mgfHash : HashAlgorithm) :
    Except RsaConstructionError ByteString :=
  if ciphertext.length ≠ key.size ∨ labelDigest.length ∉ [20, 28, 32, 48, 64] then
    .error .inputTooLong
  else do
    let encoded ← privateOperation rsaDecryptAndCheck key ciphertext
    rsaOaepUnpadDigest hashes encoded labelDigest mgfHash

/-- `RsaPrivateKey::decrypt_blinded` with the `Pkcs1v15Encrypt` scheme. -/
abbrev DecryptBlinded := RsaPrivateKey → ByteString → Option ByteString

/-- `rsa_decrypt_pkcs1v15`. -/
def rsaDecryptPkcs1v15 (decryptBlinded : DecryptBlinded) (key : RsaPrivateKey)
    (ciphertext : ByteString) : Except RsaConstructionError ByteString :=
  if ciphertext.length ≠ key.size then .error .inputTooLong
  else FallibleResult.orError .operationFailed (decryptBlinded key ciphertext)

/-- The scheme raises a ciphertext below the modulus to the private exponent and takes the block
apart when it is a type-2 block. -/
def DecryptsType2Blocks (decryptBlinded : DecryptBlinded) (key : RsaPrivateKey) : Prop :=
  ∀ ciphertext plaintext : ByteString, ciphertext.length = key.size →
    (decryptBlinded key ciphertext = some plaintext ↔ fromBeBytes ciphertext < key.n ∧
      IsType2Block key.size plaintext
        (toBeBytes key.size (fromBeBytes ciphertext ^ key.d % key.n)))

/-! ### Encodings with their seed -/

section

variable {hashes : HashFunctions} {labelDigest message encoded : ByteString}
  {mgfHash : HashAlgorithm}

variable (hashes) in
/-- The encoding of RFC 8017 §7.1.1 of a message with a seed. -/
def IsOaepEncodingOf (labelDigest message : ByteString) (mgfHash : HashAlgorithm)
    (seed encoded : ByteString) : Prop :=
  seed.length = labelDigest.length ∧ ∃ dbMask seedMask : ByteString,
    mgf1 hashes seed (encoded.length - labelDigest.length - 1) mgfHash = .ok dbMask ∧
    mgf1 hashes (xorBytes (dataBlock labelDigest message encoded.length) dbMask)
      labelDigest.length mgfHash = .ok seedMask ∧
    encoded = [0] ++ xorBytes seed seedMask ++
      xorBytes (dataBlock labelDigest message encoded.length) dbMask

theorem isOaepEncoding_iff_exists_seed :
    IsOaepEncoding hashes labelDigest message mgfHash encoded ↔
      ∃ seed, IsOaepEncodingOf hashes labelDigest message mgfHash seed encoded := by
  constructor
  · rintro ⟨seed, dbMask, seedMask, _, hseed, hdbMask, rfl, hseedMask, hencoded⟩
    exact ⟨seed, hseed, dbMask, seedMask, hdbMask, hseedMask, hencoded⟩
  · rintro ⟨seed, hseed, dbMask, seedMask, hdbMask, hseedMask, hencoded⟩
    exact ⟨seed, dbMask, seedMask, _, hseed, hdbMask, rfl, hseedMask, hencoded⟩

/-- The seed is the masked seed without the mask that the rest of the encoding makes. -/
theorem IsOaepEncodingOf.seed_unique {seed seed' : ByteString}
    (hencoding : IsOaepEncodingOf hashes labelDigest message mgfHash seed encoded)
    (hencoding' : IsOaepEncodingOf hashes labelDigest message mgfHash seed' encoded) :
    seed = seed' := by
  obtain ⟨hseed, dbMask, seedMask, -, hseedMask, hsplit⟩ := hencoding
  obtain ⟨hseed', dbMask', seedMask', -, hseedMask', hsplit'⟩ := hencoding'
  have hlength := length_mgf1_eq hashes hseedMask
  have hlength' := length_mgf1_eq hashes hseedMask'
  have hsame := hsplit.symm.trans hsplit'
  rw [List.append_assoc, List.append_assoc] at hsame
  have hmasked : (xorBytes seed seedMask).length = (xorBytes seed' seedMask').length := by
    rw [length_xorBytes, length_xorBytes, hseed, hseed', hlength, hlength']
  obtain ⟨hseeds, hblocks⟩ := List.append_inj (List.append_cancel_left hsame) hmasked
  rw [← hblocks] at hseedMask'
  obtain rfl := Except.ok.inj (hseedMask.symm.trans hseedMask')
  calc seed = xorBytes (xorBytes seed seedMask) seedMask :=
        (xorBytes_cancel_right (hseed.trans hlength.symm).le).symm
    _ = xorBytes (xorBytes seed' seedMask) seedMask := by rw [hseeds]
    _ = seed' := xorBytes_cancel_right (hseed'.trans hlength.symm).le

/-- What the encoder answers with a seed, for a modulus with room for the label digest. -/
theorem answer_rsaOaepPadDigest_eq_ok_iff {fill : RandomFill} {modulusSize : ℕ}
    {seed : List.Vector UInt8 labelDigest.length} (hlabel : labelDigest ≠ [])
    (hroom : 2 * labelDigest.length + 2 ≤ modulusSize) (hfill : fill labelDigest.length = some seed) :
    answer (rsaOaepPadDigest hashes fill message modulusSize labelDigest mgfHash) =
        some (.ok encoded) ↔
      message.length + 2 * labelDigest.length + 2 ≤ modulusSize ∧ encoded.length = modulusSize ∧
        IsOaepEncodingOf hashes labelDigest message mgfHash seed.toList encoded := by
  have hseed : seed.toList.length = labelDigest.length := seed.toList_length
  by_cases hfits : message.length + 2 * labelDigest.length + 2 ≤ modulusSize
  swap
  · rw [answer_rsaOaepPadDigest_of_long hashes fill mgfHash (by omega)]
    exact iff_of_false (by simp) fun h ↦ hfits h.1
  have hdb : resize labelDigest (modulusSize - labelDigest.length - message.length - 2) 0 ++ [1] ++
      message = dataBlock labelDigest message modulusSize := by
    have hzeros : modulusSize - labelDigest.length - message.length - 2 - labelDigest.length =
        modulusSize - message.length - 2 * labelDigest.length - 2 := by omega
    rw [resize_of_le (by omega), hzeros, dataBlock, List.append_assoc _ [1] message,
      List.singleton_append]
  have hdbLength := length_dataBlock hfits
  have hanswer := answer_rsaOaepPadDigest_of_seed hashes mgfHash hlabel hfill
    (by omega : message.length ≤ modulusSize - (2 * labelDigest.length + 2)) (by omega)
  dsimp only at hanswer
  rw [hdb, hdbLength] at hanswer
  rw [hanswer, and_iff_right hfits]
  constructor
  · intro hencoded
    cases hdbMask : mgf1 hashes seed.toList (modulusSize - labelDigest.length - 1) mgfHash with
    | error error =>
      rw [hdbMask] at hencoded
      cases hencoded
    | ok dbMask =>
      have hdbMaskLength := length_mgf1_eq hashes hdbMask
      rw [hdbMask] at hencoded
      dsimp only at hencoded
      rw [xorInPlace_eq (by omega)] at hencoded
      cases hseedMask : mgf1 hashes (xorBytes (dataBlock labelDigest message modulusSize) dbMask)
          labelDigest.length mgfHash with
      | error error =>
        rw [hseedMask] at hencoded
        cases hencoded
      | ok seedMask =>
        have hseedMaskLength := length_mgf1_eq hashes hseedMask
        rw [hseedMask] at hencoded
        dsimp only at hencoded
        rw [xorInPlace_eq (by omega), Option.some.injEq, Except.ok.injEq] at hencoded
        have hlength : encoded.length = modulusSize := by
          rw [← hencoded]
          simp only [List.length_append, List.length_singleton, length_xorBytes, hseed,
            hseedMaskLength, hdbLength, hdbMaskLength]
          omega
        refine ⟨hlength, hseed, dbMask, seedMask, ?_⟩
        rw [hlength]
        exact ⟨hdbMask, hseedMask, hencoded.symm⟩
  · rintro ⟨hlength, -, dbMask, seedMask, hdbMask, hseedMask, hencoded⟩
    rw [hlength] at hdbMask hseedMask hencoded
    have hdbMaskLength := length_mgf1_eq hashes hdbMask
    have hseedMaskLength := length_mgf1_eq hashes hseedMask
    rw [hdbMask]
    dsimp only
    rw [xorInPlace_eq (by omega), hseedMask]
    dsimp only
    rw [xorInPlace_eq (by omega), ← hencoded]

end

/-! ### OAEP -/

section

variable {hashes : HashFunctions} {rsaDecryptAndCheck : RsaDecryptAndCheck}
  {rsaEncrypt : RsaEncrypt} {key : RsaPrivateKey} {ciphertext plaintext labelDigest : ByteString}
  {mgfHash : HashAlgorithm}

theorem ne_nil_of_length_mem (hlabel : labelDigest.length ∈ [20, 28, 32, 48, 64]) :
    labelDigest ≠ [] ∧ labelDigest.length ≤ 64 := by
  simp only [List.mem_cons, List.not_mem_nil, or_false] at hlabel
  exact ⟨List.ne_nil_of_length_pos (by omega), by omega⟩

/-- What a decryption consists of. -/
theorem rsaDecryptOaepDigest_eq_ok_iff :
    rsaDecryptOaepDigest hashes rsaDecryptAndCheck key ciphertext labelDigest mgfHash =
        .ok plaintext ↔
      (ciphertext.length = key.size ∧ labelDigest.length ∈ [20, 28, 32, 48, 64]) ∧
        ∃ encoded, privateOperation rsaDecryptAndCheck key ciphertext = .ok encoded ∧
          rsaOaepUnpadDigest hashes encoded labelDigest mgfHash = .ok plaintext := by
  unfold rsaDecryptOaepDigest
  rw [FallibleResult.ite_error_eq_ok_iff, FallibleResult.bind_eq_ok_iff, not_or, not_not, not_not]

variable (hinvert : OperationsInvert rsaDecryptAndCheck rsaEncrypt key)
include hinvert

/-- What an encryption with a seed answers, for a modulus with room for the label digest. -/
theorem answer_rsaEncryptOaepDigest_eq_ok_iff {fill : RandomFill}
    {seed : List.Vector UInt8 labelDigest.length}
    (hroom : 2 * labelDigest.length + 2 ≤ key.size) (hfill : fill labelDigest.length = some seed) :
    answer (rsaEncryptOaepDigest hashes fill rsaEncrypt key.toPublicKey plaintext labelDigest
        mgfHash) = some (.ok ciphertext) ↔
      (ciphertext.length = key.size ∧ labelDigest.length ∈ [20, 28, 32, 48, 64]) ∧
        ∃ encoded, privateOperation rsaDecryptAndCheck key ciphertext = .ok encoded ∧
          plaintext.length + 2 * labelDigest.length + 2 ≤ key.size ∧ encoded.length = key.size ∧
            IsOaepEncodingOf hashes labelDigest plaintext mgfHash seed.toList encoded := by
  unfold rsaEncryptOaepDigest
  rw [answer_ite_throw_eq_ok_iff, not_not, answer_bind_eq_ok_iff, key.size_toPublicKey]
  simp only [answer_ofResult_id_eq_ok_iff, publicOperation_eq_ok_iff_private hinvert]
  constructor
  · rintro ⟨hlabel, encoded, hpadded, hlength, hdecrypted⟩
    obtain ⟨hne, -⟩ := ne_nil_of_length_mem hlabel
    exact ⟨⟨hlength, hlabel⟩, encoded, hdecrypted,
      (answer_rsaOaepPadDigest_eq_ok_iff hne hroom hfill).mp hpadded⟩
  · rintro ⟨⟨hlength, hlabel⟩, encoded, hdecrypted, hencoding⟩
    obtain ⟨hne, -⟩ := ne_nil_of_length_mem hlabel
    exact ⟨hlabel, encoded, (answer_rsaOaepPadDigest_eq_ok_iff hne hroom hfill).mpr hencoding,
      hlength, hdecrypted⟩

/-- A ciphertext has the plaintext and the seed it was made of, and no other seed. -/
theorem rsaDecryptOaepDigest_eq_ok_iff_encrypts :
    rsaDecryptOaepDigest hashes rsaDecryptAndCheck key ciphertext labelDigest mgfHash =
        .ok plaintext ↔
      2 * labelDigest.length + 2 ≤ key.size ∧
        ∃! seed : List.Vector UInt8 labelDigest.length,
          answer (rsaEncryptOaepDigest hashes (seedFill seed) rsaEncrypt key.toPublicKey plaintext
            labelDigest mgfHash) = some (.ok ciphertext) := by
  rw [rsaDecryptOaepDigest_eq_ok_iff]
  constructor
  · rintro ⟨hshape, encoded, hdecrypted, hunpadded⟩
    obtain ⟨-, hfits, hencoding⟩ := isOaepEncoding_of_rsaOaepUnpadDigest hashes hunpadded
    have hlength : encoded.length = key.size := by
      obtain ⟨-, hencoded⟩ := (privateOperation_eq_ok_iff hinvert).mp hdecrypted
      rw [hencoded, length_toBeBytes]
    have hroom : 2 * labelDigest.length + 2 ≤ key.size := by omega
    obtain ⟨seed, hseed⟩ := isOaepEncoding_iff_exists_seed.mp hencoding
    refine ⟨hroom, ⟨seed, hseed.1⟩, ?_, ?_⟩
    · exact (answer_rsaEncryptOaepDigest_eq_ok_iff hinvert hroom (seedFill_self _)).mpr
        ⟨hshape, encoded, hdecrypted, by omega, hlength, hseed⟩
    · intro seed' hencrypted
      obtain ⟨-, encoded', hdecrypted', -, -, hseed'⟩ :=
        (answer_rsaEncryptOaepDigest_eq_ok_iff hinvert hroom (seedFill_self _)).mp hencrypted
      obtain rfl := Except.ok.inj (hdecrypted.symm.trans hdecrypted')
      exact Subtype.ext (hseed'.seed_unique hseed)
  · rintro ⟨hroom, seed, hencrypted, -⟩
    obtain ⟨hshape, encoded, hdecrypted, hfits, hlength, hseed⟩ :=
      (answer_rsaEncryptOaepDigest_eq_ok_iff hinvert hroom (seedFill_self _)).mp hencrypted
    obtain ⟨hne, -⟩ := ne_nil_of_length_mem hshape.2
    exact ⟨hshape, encoded, hdecrypted, rsaOaepUnpadDigest_encoded hashes hne (by omega)
      (isOaepEncoding_iff_exists_seed.mpr ⟨_, hseed⟩)⟩

/-- Every plaintext within the limits is encrypted, and decrypted again. -/
theorem exists_rsaEncryptOaepDigest {fill : RandomFill}
    {seed : List.Vector UInt8 labelDigest.length}
    (hlabel : labelDigest.length ∈ [20, 28, 32, 48, 64]) (hfill : fill labelDigest.length = some seed)
    (hfits : plaintext.length + 2 * labelDigest.length + 2 ≤ key.size)
    (hlimit : WithinMgf1Limit mgfHash (key.size - labelDigest.length - 1)) :
    ∃ ciphertext, answer (rsaEncryptOaepDigest hashes fill rsaEncrypt key.toPublicKey plaintext
        labelDigest mgfHash) = some (.ok ciphertext) ∧
      rsaDecryptOaepDigest hashes rsaDecryptAndCheck key ciphertext labelDigest mgfHash =
        .ok plaintext := by
  obtain ⟨hne, hlong⟩ := ne_nil_of_length_mem hlabel
  have hroom : 2 * labelDigest.length + 2 ≤ key.size := by omega
  obtain ⟨encoded, hpadded, hlength, -⟩ :=
    answer_rsaOaepPadDigest_of_fits hashes mgfHash hne hlong hfill hfits hlimit
  obtain ⟨-, -, hseed⟩ := (answer_rsaOaepPadDigest_eq_ok_iff hne hroom hfill).mp hpadded
  -- An encoding starts with a zero byte, so it is below the modulus.
  have hn : 0 < key.n := by
    rw [Nat.pos_iff_ne_zero]
    intro hzero
    rw [RsaPrivateKey.size, RsaPrivateKey.bits, hzero, Nat.size_zero] at hroom
    omega
  obtain ⟨rest, rfl⟩ : ∃ rest, encoded = 0 :: rest := by
    obtain ⟨-, dbMask, seedMask, -, -, hsplit⟩ := hseed
    exact ⟨_, hsplit.trans (by rw [List.append_assoc, List.singleton_append])⟩
  have hlt := fromBeBytes_lt_of_zero hn hlength
  have hencrypted : publicOperation rsaEncrypt key.toPublicKey (0 :: rest) =
      .ok (toBeBytes key.size (fromBeBytes (0 :: rest) ^ key.e % key.n)) :=
    publicOperation_eq_ok_iff.mpr ⟨hlength, hlt, _, hinvert.encrypt _ hlt,
      (Nat.mod_lt _ hn).trans key.n_lt, rfl⟩
  obtain ⟨hciphertext, hdecrypted⟩ := (publicOperation_eq_ok_iff_private hinvert).mp hencrypted
  refine ⟨_, (answer_rsaEncryptOaepDigest_eq_ok_iff hinvert hroom hfill).mpr
    ⟨⟨hciphertext, hlabel⟩, _, hdecrypted, hfits, hlength, hseed⟩, ?_⟩
  exact rsaDecryptOaepDigest_eq_ok_iff.mpr ⟨⟨hciphertext, hlabel⟩, _, hdecrypted,
    rsaOaepUnpadDigest_encoded hashes hne (by omega)
      (isOaepEncoding_iff_exists_seed.mpr ⟨_, hseed⟩)⟩

end

/-- For a key whose exponents undo each other decryption answers exactly the plaintexts that
encryption makes the ciphertext of, with one seed, for a modulus with room for the label digest; and
encryption with any random source makes a ciphertext of every plaintext within the limits.

Assumes `OperationsInvert` of the third-party powers and the key, and of the hash functions only
the lengths of their digests. The limits of encryption are those of the size of the modulus and
of MGF1. -/
theorem oaep_decryption_exact (hashes : HashFunctions) (rsaDecryptAndCheck : RsaDecryptAndCheck)
    (rsaEncrypt : RsaEncrypt) (key : RsaPrivateKey)
    (hinvert : OperationsInvert rsaDecryptAndCheck rsaEncrypt key) (labelDigest : ByteString)
    (mgfHash : HashAlgorithm) :
    (∀ ciphertext plaintext,
      rsaDecryptOaepDigest hashes rsaDecryptAndCheck key ciphertext labelDigest mgfHash =
          .ok plaintext ↔
        2 * labelDigest.length + 2 ≤ key.size ∧
          ∃! seed : List.Vector UInt8 labelDigest.length,
            answer (rsaEncryptOaepDigest hashes (seedFill seed) rsaEncrypt key.toPublicKey plaintext
              labelDigest mgfHash) = some (.ok ciphertext)) ∧
    ∀ (fill : RandomFill) (seed : List.Vector UInt8 labelDigest.length) (plaintext : ByteString),
      labelDigest.length ∈ [20, 28, 32, 48, 64] → fill labelDigest.length = some seed →
      plaintext.length + 2 * labelDigest.length + 2 ≤ key.size →
      key.size - labelDigest.length - 1 ≤ 2 ^ 32 * mgfHash.outputLength →
        ∃ ciphertext, answer (rsaEncryptOaepDigest hashes fill rsaEncrypt key.toPublicKey plaintext
            labelDigest mgfHash) = some (.ok ciphertext) ∧
          rsaDecryptOaepDigest hashes rsaDecryptAndCheck key ciphertext labelDigest mgfHash =
            .ok plaintext :=
  ⟨fun _ _ ↦ rsaDecryptOaepDigest_eq_ok_iff_encrypts hinvert,
    fun _ _ _ hlabel hfill hfits hlimit ↦
      exists_rsaEncryptOaepDigest hinvert hlabel hfill hfits hlimit⟩

/-- A plaintext of 10 bytes under the key of 633 bits. -/
theorem oaep_decryption_exact_oddSizeKey :
    ∃ ciphertext, answer (rsaEncryptOaepDigest zeroHashes
        (fun length ↦ some (List.Vector.replicate length 1))
        (fun key x ↦ some (ModularPower.modpow x key.e key.n)) oddSizeKey.toPublicKey
        (List.replicate 10 7) (List.replicate 20 0) .sha1) = some (.ok ciphertext) ∧
      rsaDecryptOaepDigest zeroHashes (fun key x ↦ some (ModularPower.modpow x key.d key.n))
        oddSizeKey ciphertext (List.replicate 20 0) .sha1 = .ok (List.replicate 10 7) :=
  (oaep_decryption_exact zeroHashes _ _ oddSizeKey operationsInvert_oddSizeKey (List.replicate 20 0)
    .sha1).2 _ _ _ (by decide) rfl (by decide +kernel) (by decide +kernel)

/-! ### Padding from a tape -/

/-- A tape without zero bytes is the padding that is drawn from it. -/
theorem fillPadding_returns_readTape {padding : ByteString}
    (hpadding : ∀ byte ∈ padding, byte ≠ 0) :
    (fillPadding readTape padding.length padding).Returns (.ok padding) := by
  induction padding with
  | nil => exact Fuelled.returns_pure.mpr rfl
  | cons byte padding ih =>
    obtain ⟨hbyte, hrest⟩ := List.forall_mem_cons.mp hpadding
    have hread : refill readTape (0, byte :: padding) = .inl (byte, padding) := by
      have htape : readTape 1 (byte :: padding) = (some ⟨[byte], rfl⟩, padding) :=
        readTape_append ⟨[byte], rfl⟩ padding
      unfold refill
      dsimp only
      rw [if_pos rfl, htape]
      rfl
    have hdrawn : (fillNonzero readTape (byte :: padding)).Returns (.ok byte, padding) :=
      (Fuelled.returns_iterate_next hread).mpr (Fuelled.returns_iterate_done (if_neg hbyte))
    exact Fuelled.returns_bind.mpr ⟨_, hdrawn, Fuelled.returns_bind.mpr
      ⟨_, ih hrest, Fuelled.returns_pure.mpr rfl⟩⟩

/-- The type-2 blocks of a modulus of 11 bytes or more are what the encoder makes. -/
theorem isType2Block_iff_exists_source {modulusSize : ℕ} {plaintext block : ByteString} :
    IsType2Block modulusSize plaintext block ↔ 11 ≤ modulusSize ∧
      ∃ (σ : Type) (source : RsaValidation.RandomSource σ) (state : σ),
        (rsaPkcs1v15Pad source plaintext modulusSize state).Returns (some (.ok block)) := by
  constructor
  · rintro ⟨hlength, padding, hcount, hpadding, rfl⟩
    simp only [List.length_append, List.length_cons, List.length_nil] at hlength
    have hpaddingLength : answer (paddingLength plaintext modulusSize) =
        some (.ok padding.length) := by
      rw [answer_paddingLength (by omega), if_pos (by omega)]
      congr 2
      omega
    refine ⟨by omega, List UInt8, readTape, padding, ?_⟩
    unfold rsaPkcs1v15Pad
    rw [hpaddingLength]
    exact Fuelled.returns_bind.mpr
      ⟨_, fillPadding_returns_readTape hpadding, Fuelled.returns_pure.mpr rfl⟩
  · rintro ⟨hsize, σ, source, state, hreturns⟩
    exact isType2Block_of_returns hsize hreturns

/-! ### `PKCS #1 v1.5` -/

section

variable {rsaDecryptAndCheck : RsaDecryptAndCheck} {rsaEncrypt : RsaEncrypt} {key : RsaPrivateKey}
  {ciphertext plaintext : ByteString}

/-- What an encryption consists of. -/
theorem rsaEncryptPkcs1v15_returns_ok_iff {σ : Type} {source : RsaValidation.RandomSource σ}
    {publicKey : RsaPublicKey} {state : σ} :
    (rsaEncryptPkcs1v15 source rsaEncrypt publicKey plaintext state).Returns
        (some (.ok ciphertext)) ↔
      ∃ block, (rsaPkcs1v15Pad source plaintext publicKey.size state).Returns (some (.ok block)) ∧
        publicOperation rsaEncrypt publicKey block = .ok ciphertext := by
  unfold rsaEncryptPkcs1v15
  rw [Fuelled.returns_bind]
  simp only [Fuelled.returns_pure, Option.map_eq_some_iff, FallibleResult.bind_eq_ok_iff]
  constructor
  · rintro ⟨_, hpadded, _, rfl, block, rfl, hencrypted⟩
    exact ⟨block, hpadded, hencrypted⟩
  · rintro ⟨block, hpadded, hencrypted⟩
    exact ⟨_, hpadded, _, rfl, block, rfl, hencrypted⟩

variable (hinvert : OperationsInvert rsaDecryptAndCheck rsaEncrypt key)
include hinvert

/-- The ciphertexts of a plaintext, with some randomness, are those of which the private operation
makes a type-2 block. -/
theorem exists_rsaEncryptPkcs1v15_iff :
    (11 ≤ key.size ∧ ∃ (σ : Type) (source : RsaValidation.RandomSource σ) (state : σ),
        (rsaEncryptPkcs1v15 source rsaEncrypt key.toPublicKey plaintext state).Returns
          (some (.ok ciphertext))) ↔
      ciphertext.length = key.size ∧ ∃ block,
        privateOperation rsaDecryptAndCheck key ciphertext = .ok block ∧
          IsType2Block key.size plaintext block := by
  simp only [rsaEncryptPkcs1v15_returns_ok_iff, publicOperation_eq_ok_iff_private hinvert,
    isType2Block_iff_exists_source, key.size_toPublicKey]
  constructor
  · rintro ⟨hsize, σ, source, state, block, hpadded, hlength, hdecrypted⟩
    exact ⟨hlength, block, hdecrypted, hsize, σ, source, state, hpadded⟩
  · rintro ⟨hlength, block, hdecrypted, hsize, σ, source, state, hpadded⟩
    exact ⟨hsize, σ, source, state, block, hpadded, hlength, hdecrypted⟩

/-- The construction over the raw operation takes what the operation answers apart. -/
theorem answer_pkcs1v15DecryptWith_eq_ok_iff :
    answer (pkcs1v15DecryptWith key.size ciphertext
        (answering (privateOperation rsaDecryptAndCheck key))) = some (.ok plaintext) ↔
      ∃ block, privateOperation rsaDecryptAndCheck key ciphertext = .ok block ∧
        IsType2Block key.size plaintext block := by
  unfold pkcs1v15DecryptWith
  rw [answer_bind_eq_ok_iff]
  refine exists_congr fun block ↦ ?_
  rw [answer_checkedCall_eq_ok_iff, and_assoc]
  refine and_congr_right fun hdecrypted ↦ ?_
  have hlength : block.length = key.size := by
    obtain ⟨-, hblock⟩ := (privateOperation_eq_ok_iff hinvert).mp hdecrypted
    rw [hblock, length_toBeBytes]
  obtain ⟨result, hresult⟩ := exists_answer_rsaPkcs1v15Unpad block
  rw [and_iff_right hlength, answer_liftPanicking, hresult, Option.map_some, Option.some.injEq,
    FallibleResult.mapError_eq_ok_iff]
  constructor
  · rintro rfl
    exact hlength ▸ isType2Block_of_answer_eq_ok hresult
  · intro hblock
    exact Option.some.inj (hresult.symm.trans (answer_rsaPkcs1v15Unpad_of_isType2Block hblock))

/-- The crate's decryption answers what the private operation makes a type-2 block of. -/
theorem rsaDecryptPkcs1v15_eq_ok_iff {decryptBlinded : DecryptBlinded}
    (hdecrypts : DecryptsType2Blocks decryptBlinded key) :
    rsaDecryptPkcs1v15 decryptBlinded key ciphertext = .ok plaintext ↔
      ciphertext.length = key.size ∧ ∃ block,
        privateOperation rsaDecryptAndCheck key ciphertext = .ok block ∧
          IsType2Block key.size plaintext block := by
  unfold rsaDecryptPkcs1v15
  rw [FallibleResult.ite_error_eq_ok_iff, not_not, FallibleResult.orError_eq_ok_iff]
  refine and_congr_right fun hlength ↦ ?_
  rw [hdecrypts ciphertext plaintext hlength]
  simp only [privateOperation_eq_ok_iff hinvert]
  constructor
  · rintro ⟨hlt, hblock⟩
    exact ⟨_, ⟨⟨hlength.le, hlt⟩, rfl⟩, hblock⟩
  · rintro ⟨block, ⟨⟨-, hlt⟩, rfl⟩, hblock⟩
    exact ⟨hlt, hblock⟩

end

/-- For a key whose exponents undo each other, the crate's decryption, and the construction over the
raw operation, answer exactly the plaintexts of which encryption makes the ciphertext with some
randomness, for a modulus of at least 11 bytes.

Assumes `OperationsInvert` of the third-party powers and the key, and that the crate's decryption
takes type-2 blocks apart (`DecryptsType2Blocks`). The randomness is that of any source. -/
theorem pkcs1v15_decryption_exact (rsaDecryptAndCheck : RsaDecryptAndCheck)
    (rsaEncrypt : RsaEncrypt) (key : RsaPrivateKey)
    (hinvert : OperationsInvert rsaDecryptAndCheck rsaEncrypt key) (decryptBlinded : DecryptBlinded)
    (hdecrypts : DecryptsType2Blocks decryptBlinded key) (ciphertext plaintext : ByteString) :
    (rsaDecryptPkcs1v15 decryptBlinded key ciphertext = .ok plaintext ↔
      11 ≤ key.size ∧ ∃ (σ : Type) (source : RsaValidation.RandomSource σ) (state : σ),
        (rsaEncryptPkcs1v15 source rsaEncrypt key.toPublicKey plaintext state).Returns
          (some (.ok ciphertext))) ∧
    (ciphertext.length = key.size ∧ answer (pkcs1v15DecryptWith key.size ciphertext
        (answering (privateOperation rsaDecryptAndCheck key))) = some (.ok plaintext) ↔
      11 ≤ key.size ∧ ∃ (σ : Type) (source : RsaValidation.RandomSource σ) (state : σ),
        (rsaEncryptPkcs1v15 source rsaEncrypt key.toPublicKey plaintext state).Returns
          (some (.ok ciphertext))) := by
  rw [exists_rsaEncryptPkcs1v15_iff hinvert, rsaDecryptPkcs1v15_eq_ok_iff hinvert hdecrypts,
    answer_pkcs1v15DecryptWith_eq_ok_iff hinvert]
  exact ⟨Iff.rfl, Iff.rfl⟩

/-- The scheme by repeated squaring and the decoder of this file. -/
def modpowDecryptBlinded : DecryptBlinded := fun key ciphertext ↦
  if fromBeBytes ciphertext < key.n then
    match answer (rsaPkcs1v15Unpad
      (toBeBytes key.size (ModularPower.modpow (fromBeBytes ciphertext) key.d key.n))) with
    | some (.ok plaintext) => some plaintext
    | _ => none
  else none

theorem decryptsType2Blocks_modpowDecryptBlinded (key : RsaPrivateKey) :
    DecryptsType2Blocks modpowDecryptBlinded key := by
  intro ciphertext plaintext _
  unfold modpowDecryptBlinded
  by_cases hlt : fromBeBytes ciphertext < key.n
  swap
  · rw [if_neg hlt]
    exact iff_of_false (fun habsurd ↦ nomatch habsurd) fun h ↦ hlt h.1
  rw [if_pos hlt, and_iff_right hlt, ModularPower.modpow_eq]
  generalize hblock : toBeBytes key.size (fromBeBytes ciphertext ^ key.d % key.n) = block
  have hlength : block.length = key.size := by rw [← hblock, length_toBeBytes]
  constructor
  · intro hanswer
    split at hanswer
    · rename_i plaintext' hunpadded
      rw [← Option.some.inj hanswer]
      exact hlength ▸ isType2Block_of_answer_eq_ok hunpadded
    · exact nomatch hanswer
  · intro htype2
    rw [answer_rsaPkcs1v15Unpad_of_isType2Block htype2]

/-- The power of a block with a padding of ones is a ciphertext under the key of 633 bits. -/
theorem pkcs1v15_decryption_exact_oddSizeKey :
    11 ≤ oddSizeKey.size ∧
      ∃ (σ : Type) (source : RsaValidation.RandomSource σ) (state : σ),
        (rsaEncryptPkcs1v15 source (fun key x ↦ some (ModularPower.modpow x key.e key.n))
          oddSizeKey.toPublicKey [7] state).Returns (some (.ok (toBeBytes 80 (ModularPower.modpow
            (fromBeBytes ([0, 2] ++ List.replicate 76 1 ++ [0, 7])) 5 oddSizeKey.n)))) :=
  (pkcs1v15_decryption_exact (fun key x ↦ some (ModularPower.modpow x key.d key.n)) _ oddSizeKey
    operationsInvert_oddSizeKey modpowDecryptBlinded
    (decryptsType2Blocks_modpowDecryptBlinded oddSizeKey) _ [7]).1.mp (by decide +kernel)

end SoftwareKeyCore.RsaSigning
