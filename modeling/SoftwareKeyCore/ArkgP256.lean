import SoftwareKeyCore.P256
import SoftwareKeyCore.Foundation.FallibleResult

/-!
# ARKG-P256

`arkg.rs`: the asynchronous remote key generation over P-256. From two public points the public
side derives a public key and a ticket that authenticates an ephemeral point
(`arkgP256DerivePublic`); from the two private scalars and the ticket the private side derives the
private scalar (`arkgP256DerivePrivate`). Each side computes the tag of the ticket and the blinding
scalar by its own code.

`ticketTag` and `blindingScalar` are what both sides compute from the shared point, and
`arkgP256DerivePublic_eq` and `arkgP256DerivePrivate_eq` the two sides in their terms.
`arkgP256PublicPoint_derivePrivate` is that the private side recovers the private scalar of every
key that the public side derived.
-/

set_option autoImplicit false
set_option relaxedAutoImplicit false

namespace SoftwareKeyCore.ArkgP256

open ByteString FallibleResult

/-! ### The constants -/

/-- `ARKG_P256_MAX_CONTEXT_LENGTH`. -/
def maxContextLength : ℕ := 64

/-- `ARKG_P256_MIN_IKM_LENGTH`. -/
def minIkmLength : ℕ := 32

/-- `DERIVE_KEY_KEM_LABEL`. -/
def deriveKeyKemLabel : ByteString := "ARKG-Derive-Key-KEM.".toUTF8.toList

/-- `DERIVE_KEY_BL_LABEL`. -/
def deriveKeyBlLabel : ByteString := "ARKG-Derive-Key-BL.".toUTF8.toList

/-- `KEM_KEY_GENERATION_LABEL`. -/
def kemKeyGenerationLabel : ByteString := "ARKG-KEM-ECDH-KG.ARKG-ECDH.ARKG-P256".toUTF8.toList

/-- `ECDH_AUGMENTED_DST`. -/
def ecdhAugmentedDst : ByteString := "ARKG-ECDH.ARKG-P256".toUTF8.toList

/-- `KEM_MAC_LABEL`. -/
def kemMacLabel : ByteString := "ARKG-KEM-HMAC-mac.".toUTF8.toList

/-- `KEM_SHARED_LABEL`. -/
def kemSharedLabel : ByteString := "ARKG-KEM-HMAC-shared.".toUTF8.toList

/-- `BLINDING_PRF_LABEL`. -/
def blindingPrfLabel : ByteString := "ARKG-BL-EC.ARKG-P256".toUTF8.toList

/-- `ArkgP256Error`. -/
inductive ArkgP256Error
  | contextTooLong
  | inputKeyingMaterialTooShort
  | invalidPrivateScalar
  | invalidPublicPoint
  | invalidTicketPoint
  | ticketAuthenticationFailed
  | derivedZeroScalar
  | invalidDomain
  | invalidKdfLength
  | identityPoint
  deriving DecidableEq, Repr

/-- The third-party code of the derivations: the curve, SHA-256, HMAC with SHA-256 set up with a
key, and the expansion of HKDF with SHA-256, without a salt, to 32 bytes. -/
structure ArkgLibrary extends P256Library where
  sha256 : ByteString → List.Vector UInt8 32
  hmacSha256 : (key : ByteString) → Option ((message : ByteString) → List.Vector UInt8 32)
  hkdfExpand : (inputKeyingMaterial info : ByteString) → Option (List.Vector UInt8 32)

variable (arkg : ArkgLibrary)

/-! ### The parts of the derivations -/

/-- `concatenate`. -/
def concatenate (parts : List ByteString) : ByteString :=
  parts.flatten

/-- `derivation_contexts`. -/
def derivationContexts (context : ByteString) :
    Except ArkgP256Error (ByteString × ByteString) :=
  if 255 < context.length then .error .contextTooLong
  else if maxContextLength < context.length then .error .contextTooLong
  else
    let contextPrime := UInt8.ofNat context.length :: context
    .ok (concatenate [deriveKeyKemLabel, contextPrime],
      concatenate [deriveKeyBlLabel, contextPrime])

/-- `parse_scalar`. -/
def parseScalar (bytes : List.Vector UInt8 32) : Except ArkgP256Error P256Scalar :=
  orError .invalidPrivateScalar ((arkg.fromRepr bytes).filter fun scalar ↦ scalar ≠ 0)

/-- `hkdf_sha256`. -/
def hkdfSha256 (inputKeyingMaterial info : ByteString) :
    Except ArkgP256Error (List.Vector UInt8 32) :=
  orError .invalidKdfLength (arkg.hkdfExpand inputKeyingMaterial info)

/-- `scalar_from_24_bytes`. -/
def scalarFrom24Bytes (input : ByteString) : Except ArkgP256Error P256Scalar :=
  if hlength : input.length = 24 then
    orError .invalidPrivateScalar (arkg.fromRepr ⟨List.replicate 8 0 ++ input, by
      rw [List.length_append, List.length_replicate, hlength]⟩)
  else .error .invalidPrivateScalar

/-- `reduce_48_bytes`. -/
def reduce48Bytes (uniform : List.Vector UInt8 48) : Except ArkgP256Error P256Scalar := do
  let high ← scalarFrom24Bytes arkg (uniform.toList.take 24)
  let low ← scalarFrom24Bytes arkg (uniform.toList.drop 24)
  let twoTo192 ← orError .invalidPrivateScalar
    (arkg.fromRepr ⟨List.replicate 7 0 ++ [1] ++ List.replicate 24 0, rfl⟩)
  .ok (high * twoTo192 + low)

/-- The uniform bytes of `hash_to_scalar`. -/
def uniformBytes (message domain : ByteString) : List.Vector UInt8 48 :=
  let domainPrime := domain ++ [UInt8.ofNat domain.length]
  let b0 := arkg.sha256 (List.replicate 64 0 ++ message ++ [0, 48] ++ [0] ++ domainPrime)
  let b1 := arkg.sha256 (b0.toList ++ [1] ++ domainPrime)
  let xored := xorBytes b0.toList b1.toList
  let b2 := arkg.sha256 (xored ++ [2] ++ domainPrime)
  ⟨b1.toList ++ b2.toList.take 16, by
    rw [List.length_append, List.length_take, List.Vector.toList_length,
      List.Vector.toList_length]
    rfl⟩

/-- `hash_to_scalar`. -/
def hashToScalar (message domain : ByteString) : Except ArkgP256Error P256Scalar :=
  if 255 < domain.length then .error .invalidDomain
  else reduce48Bytes arkg (uniformBytes arkg message domain)

/-- `projective_to_uncompressed`. -/
def projectiveToUncompressed (point : arkg.ProjectivePoint) :
    Except ArkgP256Error (List.Vector UInt8 65) :=
  if point = 0 then .error .identityPoint
  else
    let bytes := arkg.toSec1Point point
    if hlength : bytes.length = 65 then .ok ⟨bytes, hlength⟩ else .error .invalidPublicPoint

/-- The x-coordinate of an uncompressed point, its bytes 1 to 32. -/
def xCoordinate (point : List.Vector UInt8 65) : ByteString :=
  slice point.toList 1 32

/-! ### The two sides -/

/-- `ArkgP256PublicDerivation`. -/
structure ArkgP256PublicDerivation where
  publicKey : List.Vector UInt8 65
  ticket : List.Vector UInt8 81
  deriving DecidableEq

/-- A ticket of a tag and an ephemeral public key. -/
def assembleTicket (tag : List.Vector UInt8 32) (ephemeralPublicKey : List.Vector UInt8 65) :
    List.Vector UInt8 81 :=
  ⟨tag.toList.take 16 ++ ephemeralPublicKey.toList, by
    rw [List.length_append, List.length_take, List.Vector.toList_length,
      List.Vector.toList_length]
    rfl⟩

/-- `arkg_p256_public_point`. -/
def arkgP256PublicPoint (privateScalar : List.Vector UInt8 32) :
    Except ArkgP256Error (List.Vector UInt8 65) := do
  let scalar ← parseScalar arkg privateScalar
  projectiveToUncompressed arkg (scalar • arkg.generator)

/-- `arkg_p256_derive_public`. -/
def arkgP256DerivePublic (blindingPublicKey kemPublicKey inputKeyingMaterial context : ByteString) :
    Except ArkgP256Error ArkgP256PublicDerivation :=
  if inputKeyingMaterial.length < minIkmLength then .error .inputKeyingMaterialTooShort
  else do
    let (contextKem, contextBl) ← derivationContexts context
    let blindingPublicKey ← orError .invalidPublicPoint (arkg.fromSec1Bytes blindingPublicKey)
    let kemPublicKey ← orError .invalidPublicPoint (arkg.fromSec1Bytes kemPublicKey)
    let ephemeralScalar ← hashToScalar arkg inputKeyingMaterial kemKeyGenerationLabel
    if ephemeralScalar = 0 then .error .derivedZeroScalar
    else do
      let ephemeralPublicKey ← projectiveToUncompressed arkg (ephemeralScalar • arkg.generator)
      let sharedPoint ← projectiveToUncompressed arkg (ephemeralScalar • kemPublicKey.val)
      let sharedSecret := xCoordinate sharedPoint
      let macInfo := concatenate [kemMacLabel, ecdhAugmentedDst, contextKem]
      let macKey ← hkdfSha256 arkg sharedSecret macInfo
      let mac ← orError .invalidKdfLength (arkg.hmacSha256 macKey.toList)
      let tag := mac ephemeralPublicKey.toList
      let sharedInfo := concatenate [kemSharedLabel, ecdhAugmentedDst, contextKem]
      let blindingInput ← hkdfSha256 arkg sharedSecret sharedInfo
      let blindingDst := concatenate [blindingPrfLabel, contextBl]
      let tau ← hashToScalar arkg blindingInput.toList blindingDst
      let publicKey ← projectiveToUncompressed arkg
        (blindingPublicKey.val + tau • arkg.generator)
      .ok ⟨publicKey, assembleTicket tag ephemeralPublicKey⟩

/-- `arkg_p256_derive_private`. -/
def arkgP256DerivePrivate (blindingPrivateKey kemPrivateKey : List.Vector UInt8 32)
    (ticket : List.Vector UInt8 81) (context : ByteString) :
    Except ArkgP256Error (List.Vector UInt8 32) := do
  let (contextKem, contextBl) ← derivationContexts context
  let blindingPrivateKey ← parseScalar arkg blindingPrivateKey
  let kemPrivateKey ← parseScalar arkg kemPrivateKey
  let ephemeral ← orError .invalidTicketPoint (arkg.fromSec1Bytes (ticket.toList.drop 16))
  let shared ← projectiveToUncompressed arkg (kemPrivateKey • ephemeral.val)
  let sharedSecret := xCoordinate shared
  let macInfo := concatenate [kemMacLabel, ecdhAugmentedDst, contextKem]
  let macKey ← hkdfSha256 arkg sharedSecret macInfo
  let mac ← orError .invalidKdfLength (arkg.hmacSha256 macKey.toList)
  if ticket.toList.take 16 ≠ (mac (ticket.toList.drop 16)).toList.take 16 then
    .error .ticketAuthenticationFailed
  else do
    let sharedInfo := concatenate [kemSharedLabel, ecdhAugmentedDst, contextKem]
    let blindingInput ← hkdfSha256 arkg sharedSecret sharedInfo
    let blindingDst := concatenate [blindingPrfLabel, contextBl]
    let tau ← hashToScalar arkg blindingInput.toList blindingDst
    let privateKey := blindingPrivateKey + tau
    if privateKey = 0 then .error .derivedZeroScalar
    else .ok (arkg.toBytes privateKey)

/-! ### What the parts answer -/

variable {arkg}

/-- A parsed scalar is not zero. -/
theorem parseScalar_eq_ok_iff {bytes : List.Vector UInt8 32} {scalar : P256Scalar} :
    parseScalar arkg bytes = .ok scalar ↔ arkg.fromRepr bytes = some scalar ∧ scalar ≠ 0 := by
  rw [parseScalar, orError_eq_ok_iff, Option.filter_eq_some_iff, decide_eq_true_eq]

/-- A scalar other than zero is read back from its bytes. -/
theorem parseScalar_toBytes {scalar : P256Scalar} (hscalar : scalar ≠ 0) :
    parseScalar arkg (arkg.toBytes scalar) = .ok scalar :=
  parseScalar_eq_ok_iff.mpr ⟨arkg.fromRepr_toBytes scalar, hscalar⟩

/-- Every point but the identity has an uncompressed encoding. -/
theorem projectiveToUncompressed_eq_ok_iff {point : arkg.ProjectivePoint}
    {bytes : List.Vector UInt8 65} :
    projectiveToUncompressed arkg point = .ok bytes ↔
      point ≠ 0 ∧ arkg.toSec1Point point = bytes.toList := by
  rw [projectiveToUncompressed, ite_error_eq_ok_iff]
  refine and_congr_right fun hpoint ↦ ?_
  dsimp only
  rw [dif_pos (arkg.length_toSec1Point hpoint)]
  constructor
  · intro hbytes
    exact congrArg List.Vector.toList (Except.ok.inj hbytes)
  · intro hbytes
    exact congrArg Except.ok (Subtype.ext hbytes)

/-- An uncompressed encoding decodes to its point. -/
theorem fromSec1Bytes_of_projectiveToUncompressed {point : arkg.ProjectivePoint}
    {bytes : List.Vector UInt8 65} (hbytes : projectiveToUncompressed arkg point = .ok bytes) :
    ∃ hpoint : point ≠ 0, arkg.fromSec1Bytes bytes.toList = some ⟨point, hpoint⟩ := by
  obtain ⟨hpoint, hencoded⟩ := projectiveToUncompressed_eq_ok_iff.mp hbytes
  refine ⟨hpoint, ?_⟩
  rw [← hencoded, arkg.fromSec1Bytes_toSec1Point hpoint]

theorem arkgP256PublicPoint_eq_ok_iff {privateScalar : List.Vector UInt8 32}
    {publicPoint : List.Vector UInt8 65} :
    arkgP256PublicPoint arkg privateScalar = .ok publicPoint ↔
      ∃ scalar, parseScalar arkg privateScalar = .ok scalar ∧
        projectiveToUncompressed arkg (scalar • arkg.generator) = .ok publicPoint :=
  bind_eq_ok_iff

theorem take_assembleTicket (tag : List.Vector UInt8 32)
    (ephemeralPublicKey : List.Vector UInt8 65) :
    (assembleTicket tag ephemeralPublicKey).toList.take 16 = tag.toList.take 16 := by
  refine List.take_left' ?_
  rw [List.length_take, List.Vector.toList_length]
  rfl

theorem drop_assembleTicket (tag : List.Vector UInt8 32)
    (ephemeralPublicKey : List.Vector UInt8 65) :
    (assembleTicket tag ephemeralPublicKey).toList.drop 16 = ephemeralPublicKey.toList := by
  refine List.drop_left' ?_
  rw [List.length_take, List.Vector.toList_length]
  rfl

/-! ### What both sides compute from the shared point -/

variable (arkg)

/-- The tag of an ephemeral public key. -/
def ticketTag (sharedPoint : List.Vector UInt8 65) (contextKem ephemeralPublicKey : ByteString) :
    Except ArkgP256Error (List.Vector UInt8 32) := do
  let macKey ← hkdfSha256 arkg (xCoordinate sharedPoint)
    (concatenate [kemMacLabel, ecdhAugmentedDst, contextKem])
  let mac ← orError .invalidKdfLength (arkg.hmacSha256 macKey.toList)
  .ok (mac ephemeralPublicKey)

/-- The blinding scalar. -/
def blindingScalar (sharedPoint : List.Vector UInt8 65) (contextKem contextBl : ByteString) :
    Except ArkgP256Error P256Scalar := do
  let blindingInput ← hkdfSha256 arkg (xCoordinate sharedPoint)
    (concatenate [kemSharedLabel, ecdhAugmentedDst, contextKem])
  hashToScalar arkg blindingInput.toList (concatenate [blindingPrfLabel, contextBl])

variable {arkg}

/-- The public side in terms of the common parts. -/
theorem arkgP256DerivePublic_eq
    (blindingPublicKey kemPublicKey inputKeyingMaterial context : ByteString) :
    arkgP256DerivePublic arkg blindingPublicKey kemPublicKey inputKeyingMaterial context =
      (if inputKeyingMaterial.length < minIkmLength then .error .inputKeyingMaterialTooShort
      else do
        let contexts ← derivationContexts context
        let blindingPoint ← orError .invalidPublicPoint (arkg.fromSec1Bytes blindingPublicKey)
        let kemPoint ← orError .invalidPublicPoint (arkg.fromSec1Bytes kemPublicKey)
        let ephemeralScalar ← hashToScalar arkg inputKeyingMaterial kemKeyGenerationLabel
        if ephemeralScalar = 0 then .error .derivedZeroScalar
        else do
          let ephemeralPublicKey ← projectiveToUncompressed arkg
            (ephemeralScalar • arkg.generator)
          let sharedPoint ← projectiveToUncompressed arkg (ephemeralScalar • kemPoint.val)
          let tag ← ticketTag arkg sharedPoint contexts.1 ephemeralPublicKey.toList
          let tau ← blindingScalar arkg sharedPoint contexts.1 contexts.2
          let publicKey ← projectiveToUncompressed arkg
            (blindingPoint.val + tau • arkg.generator)
          .ok ⟨publicKey, assembleTicket tag ephemeralPublicKey⟩) := by
  simp only [arkgP256DerivePublic, ticketTag, blindingScalar, bind_assoc, ok_bind]

/-- The private side in terms of the common parts. -/
theorem arkgP256DerivePrivate_eq (blindingPrivateKey kemPrivateKey : List.Vector UInt8 32)
    (ticket : List.Vector UInt8 81) (context : ByteString) :
    arkgP256DerivePrivate arkg blindingPrivateKey kemPrivateKey ticket context = (do
      let contexts ← derivationContexts context
      let privateScalar ← parseScalar arkg blindingPrivateKey
      let kemScalar ← parseScalar arkg kemPrivateKey
      let ephemeral ← orError .invalidTicketPoint (arkg.fromSec1Bytes (ticket.toList.drop 16))
      let sharedPoint ← projectiveToUncompressed arkg (kemScalar • ephemeral.val)
      let tag ← ticketTag arkg sharedPoint contexts.1 (ticket.toList.drop 16)
      if ticket.toList.take 16 ≠ tag.toList.take 16 then .error .ticketAuthenticationFailed
      else do
        let tau ← blindingScalar arkg sharedPoint contexts.1 contexts.2
        if privateScalar + tau = 0 then .error .derivedZeroScalar
        else .ok (arkg.toBytes (privateScalar + tau))) := by
  simp only [arkgP256DerivePrivate, ticketTag, blindingScalar, bind_assoc, ok_bind]

/-- What the public side accepts, and derives. -/
theorem arkgP256DerivePublic_eq_ok_iff
    {blindingPublicKey kemPublicKey inputKeyingMaterial context : ByteString}
    {derivation : ArkgP256PublicDerivation} :
    arkgP256DerivePublic arkg blindingPublicKey kemPublicKey inputKeyingMaterial context =
        .ok derivation ↔
      ¬ inputKeyingMaterial.length < minIkmLength ∧
      ∃ contexts, derivationContexts context = .ok contexts ∧
      ∃ blindingPoint, arkg.fromSec1Bytes blindingPublicKey = some blindingPoint ∧
      ∃ kemPoint, arkg.fromSec1Bytes kemPublicKey = some kemPoint ∧
      ∃ ephemeralScalar,
        hashToScalar arkg inputKeyingMaterial kemKeyGenerationLabel = .ok ephemeralScalar ∧
      ephemeralScalar ≠ 0 ∧
      ∃ ephemeralPublicKey, projectiveToUncompressed arkg (ephemeralScalar • arkg.generator) =
        .ok ephemeralPublicKey ∧
      ∃ sharedPoint, projectiveToUncompressed arkg (ephemeralScalar • kemPoint.val) =
        .ok sharedPoint ∧
      ∃ tag, ticketTag arkg sharedPoint contexts.1 ephemeralPublicKey.toList = .ok tag ∧
      ∃ tau, blindingScalar arkg sharedPoint contexts.1 contexts.2 = .ok tau ∧
      ∃ publicKey, projectiveToUncompressed arkg (blindingPoint.val + tau • arkg.generator) =
        .ok publicKey ∧
      ⟨publicKey, assembleTicket tag ephemeralPublicKey⟩ = derivation := by
  simp only [arkgP256DerivePublic_eq, ite_error_eq_ok_iff, bind_eq_ok_iff, orError_eq_ok_iff,
    Except.ok.injEq, ne_eq]

/-- What the private side accepts, and derives. -/
theorem arkgP256DerivePrivate_eq_ok_iff
    {blindingPrivateKey kemPrivateKey privateKey : List.Vector UInt8 32}
    {ticket : List.Vector UInt8 81} {context : ByteString} :
    arkgP256DerivePrivate arkg blindingPrivateKey kemPrivateKey ticket context = .ok privateKey ↔
      ∃ contexts, derivationContexts context = .ok contexts ∧
      ∃ privateScalar, parseScalar arkg blindingPrivateKey = .ok privateScalar ∧
      ∃ kemScalar, parseScalar arkg kemPrivateKey = .ok kemScalar ∧
      ∃ ephemeral, arkg.fromSec1Bytes (ticket.toList.drop 16) = some ephemeral ∧
      ∃ sharedPoint, projectiveToUncompressed arkg (kemScalar • ephemeral.val) = .ok sharedPoint ∧
      ∃ tag, ticketTag arkg sharedPoint contexts.1 (ticket.toList.drop 16) = .ok tag ∧
      ticket.toList.take 16 = tag.toList.take 16 ∧
      ∃ tau, blindingScalar arkg sharedPoint contexts.1 contexts.2 = .ok tau ∧
      privateScalar + tau ≠ 0 ∧ arkg.toBytes (privateScalar + tau) = privateKey := by
  simp only [arkgP256DerivePrivate_eq, ite_error_eq_ok_iff, bind_eq_ok_iff, orError_eq_ok_iff,
    Except.ok.injEq, ne_eq, not_not]

/-! ### The two sides agree -/

/-- The private side recovers the private scalar of every key that the public side derived.

Assumes the laws of `P256Library`: scalars act on a group with a generator that is not zero, and
encoded points and scalars are read back. SHA-256, HMAC and HKDF are any functions. -/
theorem arkgP256PublicPoint_derivePrivate
    {blindingPrivateKey kemPrivateKey : List.Vector UInt8 32}
    {blindingPublicKey kemPublicKey : List.Vector UInt8 65}
    {inputKeyingMaterial context : ByteString} {derivation : ArkgP256PublicDerivation}
    (hblinding : arkgP256PublicPoint arkg blindingPrivateKey = .ok blindingPublicKey)
    (hkem : arkgP256PublicPoint arkg kemPrivateKey = .ok kemPublicKey)
    (hpublic : arkgP256DerivePublic arkg blindingPublicKey.toList kemPublicKey.toList
      inputKeyingMaterial context = .ok derivation) :
    ∃ privateKey,
      arkgP256DerivePrivate arkg blindingPrivateKey kemPrivateKey derivation.ticket context =
          .ok privateKey ∧
        arkgP256PublicPoint arkg privateKey = .ok derivation.publicKey := by
  obtain ⟨privateScalar, hprivateScalar, hblindingPoint⟩ :=
    arkgP256PublicPoint_eq_ok_iff.mp hblinding
  obtain ⟨kemScalar, hkemScalar, hkemPoint⟩ := arkgP256PublicPoint_eq_ok_iff.mp hkem
  obtain ⟨-, contexts, hcontexts, blindingPoint, hblindingKey, kemPoint, hkemKey, ephemeralScalar,
    -, -, ephemeralPublicKey, hephemeral, sharedPoint, hshared, tag, htag, tau, htau, publicKey,
    hpublicKey, rfl⟩ := arkgP256DerivePublic_eq_ok_iff.mp hpublic
  obtain ⟨hblindingNe, hblindingDecoded⟩ :=
    fromSec1Bytes_of_projectiveToUncompressed hblindingPoint
  obtain ⟨hkemNe, hkemDecoded⟩ := fromSec1Bytes_of_projectiveToUncompressed hkemPoint
  obtain ⟨hephemeralNe, hephemeralDecoded⟩ :=
    fromSec1Bytes_of_projectiveToUncompressed hephemeral
  obtain rfl : blindingPoint = ⟨privateScalar • arkg.generator, hblindingNe⟩ :=
    Option.some.inj (hblindingKey.symm.trans hblindingDecoded)
  obtain rfl : kemPoint = ⟨kemScalar • arkg.generator, hkemNe⟩ :=
    Option.some.inj (hkemKey.symm.trans hkemDecoded)
  have hagreement : kemScalar • ephemeralScalar • arkg.generator =
      ephemeralScalar • kemScalar • arkg.generator := smul_comm _ _ _
  have hblinded : privateScalar • arkg.generator + tau • arkg.generator =
      (privateScalar + tau) • arkg.generator := (add_smul _ _ _).symm
  rw [hblinded] at hpublicKey
  have hprivateNe : privateScalar + tau ≠ 0 := by
    intro hzero
    refine (projectiveToUncompressed_eq_ok_iff.mp hpublicKey).1 ?_
    rw [arkg.smul_generator_eq_zero_iff, hzero]
  refine ⟨arkg.toBytes (privateScalar + tau), ?_, ?_⟩
  · rw [arkgP256DerivePrivate_eq_ok_iff]
    refine ⟨contexts, hcontexts, privateScalar, hprivateScalar, kemScalar, hkemScalar,
      ⟨ephemeralScalar • arkg.generator, hephemeralNe⟩, ?_, sharedPoint, ?_, tag, ?_, ?_, tau,
      htau, hprivateNe, rfl⟩
    · rw [drop_assembleTicket, hephemeralDecoded]
    · rw [hagreement]
      exact hshared
    · rw [drop_assembleTicket]
      exact htag
    · exact take_assembleTicket tag ephemeralPublicKey
  · rw [arkgP256PublicPoint_eq_ok_iff]
    exact ⟨privateScalar + tau, parseScalar_toBytes hprivateNe, hpublicKey⟩

/-! ### A sample -/

/-- The residues as the group, and byte functions in place of the hash functions. -/
def sampleArkg : ArkgLibrary where
  toP256Library := residueP256
  sha256 message := ⟨resize message.reverse 32 1, length_resize _ _ _⟩
  hmacSha256 key := some fun message ↦
    ⟨xorBytes (resize key 32 0) (resize message 32 0), by simp⟩
  hkdfExpand inputKeyingMaterial info :=
    some ⟨xorBytes (resize inputKeyingMaterial 32 0) (resize info 32 0), by simp⟩

/-- The private key of a scalar in the sample. -/
def samplePrivateKey (scalar : ℕ) : List.Vector UInt8 32 :=
  ⟨toBeBytes 32 scalar, length_toBeBytes _ _⟩

/-- The public key of a scalar in the sample. -/
def samplePublicKey (scalar : ℕ) : List.Vector UInt8 65 :=
  ⟨4 :: toBeBytes 32 scalar ++ toBeBytes 32 0, by simp⟩

/-- What the public side of the sample derives. -/
def sampleDerivation : ArkgP256PublicDerivation where
  publicKey :=
    samplePublicKey 0x7cdf6a097d94a0ed3c0a6025b3f5fd3e380acfbfa6f2fac3ed4dabbcde25b5c8
  ticket := assembleTicket
    ⟨toBeBytes 16 0x24889d294398e03dd54fd859560ca682 ++ List.replicate 16 0, by simp⟩
    (samplePublicKey 0x20a8d4e8d756fbd90b043062d2a679de377bfe1695e6687d65ee64c9c298e2fa)

/-- The private side of the sample recovers a private scalar of the derived key. -/
theorem arkgP256PublicPoint_derivePrivate_sample :
    ∃ privateKey,
      arkgP256DerivePrivate sampleArkg (samplePrivateKey 2) (samplePrivateKey 3)
          sampleDerivation.ticket [1, 2, 3] = .ok privateKey ∧
        arkgP256PublicPoint sampleArkg privateKey = .ok sampleDerivation.publicKey := by
  have hblinding : arkgP256PublicPoint sampleArkg (samplePrivateKey 2) =
      .ok (samplePublicKey 2) := rfl
  have hkem : arkgP256PublicPoint sampleArkg (samplePrivateKey 3) =
      .ok (samplePublicKey 3) := rfl
  have hpublic : arkgP256DerivePublic sampleArkg (samplePublicKey 2).toList
      (samplePublicKey 3).toList (List.replicate 32 7) [1, 2, 3] = .ok sampleDerivation := by
    decide +kernel
  exact arkgP256PublicPoint_derivePrivate hblinding hkem hpublic

end SoftwareKeyCore.ArkgP256
