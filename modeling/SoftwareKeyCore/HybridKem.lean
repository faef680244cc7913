import SoftwareKeyCore.Foundation.CheckedSlice
import SoftwareKeyCore.P256
import SoftwareKeyCore.PostQuantum.MlKem

/-!
# Hybrid key encapsulation

`hybrid_kem.rs`: the three constructions that combine ML-KEM with an elliptic-curve key agreement.
A private key is one seed of 32 bytes, expanded into the seeds of its two components. A public key
is the concatenation of the component public keys, and a ciphertext of the ML-KEM ciphertext and
an ephemeral public key.

The curves are third-party code: `EcdhLibrary` for a curve with SEC1 encodings and
`X25519Library`, each with the law that its key agreement commutes. `TraditionalPrivate` carries
the construction its key is of, and `TraditionalPrivate.derive_publicKey_comm` is the commutation
for it. `decapsulate_of_encapsulate` is that a private key decapsulates what is encapsulated to its
public key. `ecdhOfP256` is the key agreement of a group of the order of P-256, which has the laws.
-/

set_option autoImplicit false
set_option relaxedAutoImplicit false

namespace SoftwareKeyCore.HybridKem

open ByteString CheckedSlice FallibleResult PostQuantum

/-! ### The constructions -/

/-- `HybridKemConstruction`. -/
inductive HybridKemConstruction
  | mlKem768P256
  | mlKem768X25519
  | mlKem1024P384
  deriving DecidableEq, Repr

namespace HybridKemConstruction

/-- `HybridKemConstruction::public_key_length`. -/
def publicKeyLength : HybridKemConstruction → ℕ
  | mlKem768P256 => 1249
  | mlKem768X25519 => 1216
  | mlKem1024P384 => 1665

/-- `HybridKemConstruction::ciphertext_length`. -/
def ciphertextLength : HybridKemConstruction → ℕ
  | mlKem768P256 => 1153
  | mlKem768X25519 => 1120
  | mlKem1024P384 => 1665

/-- `HybridKemConstruction::ml_kem`. -/
def mlKem : HybridKemConstruction → MlKemParameterSet
  | mlKem768P256 | mlKem768X25519 => .mlKem768
  | mlKem1024P384 => .mlKem1024

/-- `HybridKemConstruction::traditional_seed_length`. -/
def traditionalSeedLength : HybridKemConstruction → ℕ
  | mlKem768P256 => 128
  | mlKem768X25519 => 32
  | mlKem1024P384 => 48

/-- `HybridKemConstruction::traditional_public_key_length`. -/
def traditionalPublicKeyLength : HybridKemConstruction → ℕ
  | mlKem768P256 => 65
  | mlKem768X25519 => 32
  | mlKem1024P384 => 97

/-- `HybridKemConstruction::encapsulation_randomness_length`. -/
def encapsulationRandomnessLength (construction : HybridKemConstruction) : ℕ :=
  32 + construction.traditionalSeedLength

/-- `HybridKemConstruction::label`. -/
def label : HybridKemConstruction → ByteString
  | mlKem768P256 => "MLKEM768-P256".toUTF8.toList
  | mlKem768X25519 => "\\.//^\\".toUTF8.toList
  | mlKem1024P384 => "MLKEM1024-P384".toUTF8.toList

/-- A public key is the public keys of the components. -/
theorem publicKeyLength_eq (construction : HybridKemConstruction) :
    construction.publicKeyLength =
      construction.mlKem.publicKeyLength + construction.traditionalPublicKeyLength := by
  cases construction <;> rfl

/-- A ciphertext is the ML-KEM ciphertext and an ephemeral public key. -/
theorem ciphertextLength_eq (construction : HybridKemConstruction) :
    construction.ciphertextLength =
      construction.mlKem.ciphertextLength + construction.traditionalPublicKeyLength := by
  cases construction <;> rfl

end HybridKemConstruction

/-- `HybridKemError`. -/
inductive HybridKemError
  | invalidSeedLength
  | invalidPrivateKey
  | invalidPublicKey
  | invalidCiphertext
  | invalidRandomnessLength
  | nonContributoryPublicKey
  | randomnessUnavailable
  deriving DecidableEq, Repr

/-- `HybridKemError::from`. -/
def HybridKemError.ofMlKemError : MlKemError → HybridKemError
  | .invalidCiphertext => invalidCiphertext
  | .invalidPublicKey => invalidPublicKey
  | .randomnessUnavailable => randomnessUnavailable
  | _ => invalidPrivateKey

/-! ### The components -/

/-- An implementation of ECDH over a curve whose uncompressed points have a length. -/
structure EcdhLibrary (pointLength : ℕ) where
  SecretKey : Type
  PublicKey : Type
  fromSlice : ByteString → Option SecretKey
  publicKey : SecretKey → PublicKey
  toSec1Point : PublicKey → List.Vector UInt8 pointLength
  fromSec1Bytes : ByteString → Option PublicKey
  diffieHellman : SecretKey → PublicKey → ByteString
  fromSec1Bytes_toSec1Point : ∀ key, fromSec1Bytes (toSec1Point key).toList = some key
  diffieHellman_comm : ∀ first second,
    diffieHellman first (publicKey second) = diffieHellman second (publicKey first)

/-- The key agreement of P-256: the x-coordinate of a multiple of a point. -/
def ecdhOfP256 (p256 : P256Library) : EcdhLibrary 65 where
  SecretKey := {scalar : P256Scalar // scalar ≠ 0}
  PublicKey := {point : p256.ProjectivePoint // point ≠ 0}
  fromSlice bytes := do
    let bytes ← tryInto 32 bytes
    let scalar ← p256.fromRepr bytes
    if hscalar : scalar ≠ 0 then some ⟨scalar, hscalar⟩ else none
  publicKey scalar :=
    ⟨scalar.val • p256.generator, mt (p256.smul_generator_eq_zero_iff _).mp scalar.property⟩
  toSec1Point point := ⟨p256.toSec1Point point.val, p256.length_toSec1Point point.property⟩
  fromSec1Bytes := p256.fromSec1Bytes
  diffieHellman scalar point := slice (p256.toSec1Point (scalar.val • point.val)) 1 32
  fromSec1Bytes_toSec1Point point := p256.fromSec1Bytes_toSec1Point point.property
  diffieHellman_comm first second := by
    simp only [smul_comm first.val second.val p256.generator]

/-- An implementation of X25519. -/
structure X25519Library where
  publicKey : List.Vector UInt8 32 → List.Vector UInt8 32
  diffieHellman : (secret peer : List.Vector UInt8 32) → List.Vector UInt8 32
  wasContributory : (shared : List.Vector UInt8 32) → Bool
  diffieHellman_comm : ∀ first second,
    diffieHellman first (publicKey second) = diffieHellman second (publicKey first)

/-- The third-party code of the constructions. -/
structure HybridLibraries where
  mlKem : MlKemLibraries
  p256 : EcdhLibrary 65
  x25519 : X25519Library
  p384 : EcdhLibrary 97
  shake256 : (input : ByteString) → (length : ℕ) → List.Vector UInt8 length
  sha3_256 : ByteString → List.Vector UInt8 32

variable (libraries : HybridLibraries)

/-- `TraditionalPrivate`, for the construction the key is of. -/
inductive TraditionalPrivate : HybridKemConstruction → Type
  | p256 (key : libraries.p256.SecretKey) : TraditionalPrivate .mlKem768P256
  | x25519 (key : List.Vector UInt8 32) : TraditionalPrivate .mlKem768X25519
  | p384 (key : libraries.p384.SecretKey) : TraditionalPrivate .mlKem1024P384

namespace TraditionalPrivate

/-- `TraditionalPrivate::from_seed`. -/
def fromSeed (construction : HybridKemConstruction) (seed : ByteString) :
    Except HybridKemError (TraditionalPrivate libraries construction) :=
  if seed.length ≠ construction.traditionalSeedLength then .error .invalidRandomnessLength
  else
    match construction with
    | .mlKem768P256 =>
      orError .invalidPrivateKey
        (((chunksExact 32 seed).findSome? libraries.p256.fromSlice).map .p256)
    | .mlKem768X25519 => do
      let seed ← orError .invalidPrivateKey (tryInto 32 seed)
      .ok (.x25519 seed)
    | .mlKem1024P384 => orError .invalidPrivateKey ((libraries.p384.fromSlice seed).map .p384)

variable {libraries} {construction : HybridKemConstruction}

/-- `TraditionalPrivate::public_key`. -/
def publicKey : TraditionalPrivate libraries construction → ByteString
  | .p256 key => (libraries.p256.toSec1Point (libraries.p256.publicKey key)).toList
  | .x25519 key => (libraries.x25519.publicKey key).toList
  | .p384 key => (libraries.p384.toSec1Point (libraries.p384.publicKey key)).toList

/-- `TraditionalPrivate::derive`. -/
def derive (privateKey : TraditionalPrivate libraries construction) (peer : ByteString) :
    Except HybridKemError ByteString :=
  match privateKey with
  | .p256 key => do
    let peer ← orError .invalidPublicKey (libraries.p256.fromSec1Bytes peer)
    .ok (libraries.p256.diffieHellman key peer)
  | .x25519 key => do
    let peer ← orError .invalidPublicKey (tryInto 32 peer)
    let shared := libraries.x25519.diffieHellman key peer
    if ¬ libraries.x25519.wasContributory shared then .error .nonContributoryPublicKey
    else .ok shared.toList
  | .p384 key => do
    let peer ← orError .invalidPublicKey (libraries.p384.fromSec1Bytes peer)
    .ok (libraries.p384.diffieHellman key peer)

end TraditionalPrivate

/-- `validate_traditional_public`. -/
def validateTraditionalPublic (construction : HybridKemConstruction) (publicKey : ByteString) :
    Except HybridKemError Unit :=
  if publicKey.length ≠ construction.traditionalPublicKeyLength then .error .invalidPublicKey
  else
    match construction with
    | .mlKem768P256 => do
      let _ ← orError .invalidPublicKey (libraries.p256.fromSec1Bytes publicKey)
      .ok ()
    | .mlKem768X25519 => do
      let publicKey ← orError .invalidPublicKey (tryInto 32 publicKey)
      if publicKey = List.Vector.replicate 32 0 then .error .nonContributoryPublicKey
      else .ok ()
    | .mlKem1024P384 => do
      let _ ← orError .invalidPublicKey (libraries.p384.fromSec1Bytes publicKey)
      .ok ()

/-- `combine`. -/
def combine (construction : HybridKemConstruction)
    (sharedPq sharedT ciphertextT publicT : ByteString) : ByteString :=
  (libraries.sha3_256 (sharedPq ++ sharedT ++ ciphertextT ++ publicT ++
    construction.label)).toList

/-! ### Keys, encapsulation and decapsulation -/

/-- `ExpandedPrivate`. -/
structure ExpandedPrivate (construction : HybridKemConstruction) where
  mlKem : MlKemPrivateKey libraries.mlKem
  traditional : TraditionalPrivate libraries construction
  traditionalPublic : ByteString

/-- `expand_private`. -/
def expandPrivate (construction : HybridKemConstruction) (seed : List.Vector UInt8 32) :
    Except HybridKemError (ExpandedPrivate libraries construction) := do
  let outputLength := 64 + construction.traditionalSeedLength
  let expanded := (libraries.shake256 seed.toList outputLength).toList
  let mlSeed ← orError .invalidPrivateKey (tryInto 64 (expanded.take 64))
  let traditional ← TraditionalPrivate.fromSeed libraries construction (expanded.drop 64)
  let traditionalPublic := traditional.publicKey
  .ok ⟨MlKemPrivateKey.fromSeed libraries.mlKem construction.mlKem mlSeed, traditional,
    traditionalPublic⟩

/-- `HybridKemPrivateKey`. -/
structure HybridKemPrivateKey where
  construction : HybridKemConstruction
  seed : List.Vector UInt8 32

namespace HybridKemPrivateKey

/-- `HybridKemPrivateKey::public_key`. -/
def publicKey (privateKey : HybridKemPrivateKey) : Except HybridKemError ByteString := do
  let components ← expandPrivate libraries privateKey.construction privateKey.seed
  .ok (components.mlKem.publicKey ++ components.traditionalPublic)

/-- `HybridKemPrivateKey::decapsulate`. -/
def decapsulate (privateKey : HybridKemPrivateKey) (ciphertext : ByteString) :
    Except HybridKemError ByteString :=
  if ciphertext.length ≠ privateKey.construction.ciphertextLength then .error .invalidCiphertext
  else do
    let components ← expandPrivate libraries privateKey.construction privateKey.seed
    let pqLength := privateKey.construction.mlKem.ciphertextLength
    let ciphertextPq := ciphertext.take pqLength
    let ciphertextT := ciphertext.drop pqLength
    let sharedPq ← (components.mlKem.decapsulate ciphertextPq).mapError .ofMlKemError
    let sharedT ← components.traditional.derive ciphertextT
    .ok (combine libraries privateKey.construction sharedPq sharedT ciphertextT
      components.traditionalPublic)

end HybridKemPrivateKey

/-- `hybrid_kem_encapsulate_deterministic`. -/
def hybridKemEncapsulateDeterministic (construction : HybridKemConstruction)
    (publicKey randomness : ByteString) : Except HybridKemError (ByteString × ByteString) :=
  if publicKey.length ≠ construction.publicKeyLength then .error .invalidPublicKey
  else if randomness.length ≠ construction.encapsulationRandomnessLength then
    .error .invalidRandomnessLength
  else do
    let pqPublicLength := construction.mlKem.publicKeyLength
    let publicPq := publicKey.take pqPublicLength
    let publicT := publicKey.drop pqPublicLength
    validateTraditionalPublic libraries construction publicT
    let randomnessPq ← orError .invalidRandomnessLength (tryInto 32 (randomness.take 32))
    let (ciphertextPq, sharedPq) ←
      (mlKemEncapsulateDeterministic libraries.mlKem construction.mlKem publicPq
        randomnessPq).mapError .ofMlKemError
    let ephemeral ← TraditionalPrivate.fromSeed libraries construction (randomness.drop 32)
    let ciphertextT := ephemeral.publicKey
    let sharedT ← ephemeral.derive publicT
    let shared := combine libraries construction sharedPq sharedT ciphertextT publicT
    .ok (ciphertextPq ++ ciphertextT, shared)

/-! ### What the parts answer -/

section Parts

variable {libraries} {construction : HybridKemConstruction}

namespace TraditionalPrivate

/-- Two keys of a construction agree on a shared secret, or both refuse. -/
theorem derive_publicKey_comm (first second : TraditionalPrivate libraries construction) :
    first.derive second.publicKey = second.derive first.publicKey := by
  cases first with
  | p256 first =>
    cases second with
    | p256 second =>
      simp only [derive, publicKey, libraries.p256.fromSec1Bytes_toSec1Point, orError_some, ok_bind,
        libraries.p256.diffieHellman_comm first second]
  | x25519 first =>
    cases second with
    | x25519 second =>
      simp only [derive, publicKey, tryInto_toList, orError_some, ok_bind,
        libraries.x25519.diffieHellman_comm first second]
  | p384 first =>
    cases second with
    | p384 second =>
      simp only [derive, publicKey, libraries.p384.fromSec1Bytes_toSec1Point, orError_some, ok_bind,
        libraries.p384.diffieHellman_comm first second]

@[simp] theorem length_publicKey (privateKey : TraditionalPrivate libraries construction) :
    privateKey.publicKey.length = construction.traditionalPublicKeyLength := by
  cases privateKey with
  | p256 key => exact List.Vector.toList_length _
  | x25519 key => exact List.Vector.toList_length _
  | p384 key => exact List.Vector.toList_length _

end TraditionalPrivate

/-- What the expansion of a seed answers. -/
theorem expandPrivate_eq_ok_iff {seed : List.Vector UInt8 32}
    {components : ExpandedPrivate libraries construction} :
    expandPrivate libraries construction seed = .ok components ↔
      ∃ mlSeed traditional,
        tryInto 64 ((libraries.shake256 seed.toList
          (64 + construction.traditionalSeedLength)).toList.take 64) = some mlSeed ∧
        TraditionalPrivate.fromSeed libraries construction ((libraries.shake256 seed.toList
          (64 + construction.traditionalSeedLength)).toList.drop 64) = .ok traditional ∧
        ⟨MlKemPrivateKey.fromSeed libraries.mlKem construction.mlKem mlSeed, traditional,
          traditional.publicKey⟩ = components := by
  simp only [expandPrivate, bind_eq_ok_iff, orError_eq_ok_iff, Except.ok.injEq, exists_and_left]

/-- A public key has the declared length. -/
theorem length_of_publicKey {seed : List.Vector UInt8 32} {publicKey : ByteString}
    (hpublic : HybridKemPrivateKey.publicKey libraries ⟨construction, seed⟩ = .ok publicKey) :
    publicKey.length = construction.publicKeyLength := by
  obtain ⟨components, hcomponents, hpublicKey⟩ := bind_eq_ok_iff.mp hpublic
  obtain ⟨mlSeed, traditional, -, -, rfl⟩ := expandPrivate_eq_ok_iff.mp hcomponents
  rw [← Except.ok.inj hpublicKey, List.length_append, MlKemPrivateKey.length_publicKey,
    traditional.length_publicKey, construction.publicKeyLength_eq]
  rfl

/-- What an encapsulation answers. -/
theorem hybridKemEncapsulateDeterministic_eq_ok_iff
    {publicKey randomness ciphertext shared : ByteString} :
    hybridKemEncapsulateDeterministic libraries construction publicKey randomness =
        .ok (ciphertext, shared) ↔
      publicKey.length = construction.publicKeyLength ∧
      randomness.length = construction.encapsulationRandomnessLength ∧
      validateTraditionalPublic libraries construction
        (publicKey.drop construction.mlKem.publicKeyLength) = .ok () ∧
      ∃ randomnessPq, tryInto 32 (randomness.take 32) = some randomnessPq ∧
      ∃ ciphertextPq sharedPq,
        mlKemEncapsulateDeterministic libraries.mlKem construction.mlKem
          (publicKey.take construction.mlKem.publicKeyLength) randomnessPq =
            .ok (ciphertextPq, sharedPq) ∧
      ∃ ephemeral,
        TraditionalPrivate.fromSeed libraries construction (randomness.drop 32) = .ok ephemeral ∧
      ∃ sharedT, ephemeral.derive (publicKey.drop construction.mlKem.publicKeyLength) =
        .ok sharedT ∧
      ciphertextPq ++ ephemeral.publicKey = ciphertext ∧
      combine libraries construction sharedPq sharedT ephemeral.publicKey
        (publicKey.drop construction.mlKem.publicKeyLength) = shared := by
  simp only [hybridKemEncapsulateDeterministic, ite_error_eq_ok_iff, bind_eq_ok_iff,
    orError_eq_ok_iff, mapError_eq_ok_iff, Except.ok.injEq, Prod.mk.injEq, ne_eq, not_not,
    Prod.exists, Unique.exists_iff, PUnit.default_eq_unit]

/-- What a decapsulation answers. -/
theorem decapsulate_eq_ok_iff {seed : List.Vector UInt8 32} {ciphertext shared : ByteString} :
    HybridKemPrivateKey.decapsulate libraries ⟨construction, seed⟩ ciphertext = .ok shared ↔
      ciphertext.length = construction.ciphertextLength ∧
      ∃ components, expandPrivate libraries construction seed = .ok components ∧
      ∃ sharedPq, components.mlKem.decapsulate
        (ciphertext.take construction.mlKem.ciphertextLength) = .ok sharedPq ∧
      ∃ sharedT, components.traditional.derive
        (ciphertext.drop construction.mlKem.ciphertextLength) = .ok sharedT ∧
      combine libraries construction sharedPq sharedT
        (ciphertext.drop construction.mlKem.ciphertextLength) components.traditionalPublic =
          shared := by
  simp only [HybridKemPrivateKey.decapsulate, ite_error_eq_ok_iff, bind_eq_ok_iff,
    mapError_eq_ok_iff, Except.ok.injEq, ne_eq, not_not]

end Parts

/-! ### Decapsulation inverts encapsulation -/

/-- A private key decapsulates what is encapsulated to its public key, and the public key and the
ciphertext have the declared lengths.

Assumes the laws of `HybridLibraries`: ML-KEM decapsulates what is encapsulated to a key from a
seed, both sides of a key agreement compute the same bytes, and an encoded point is read back. -/
theorem decapsulate_of_encapsulate {libraries : HybridLibraries}
    {construction : HybridKemConstruction} {seed : List.Vector UInt8 32}
    {publicKey randomness ciphertext shared : ByteString}
    (hpublic : HybridKemPrivateKey.publicKey libraries ⟨construction, seed⟩ = .ok publicKey)
    (hencapsulate : hybridKemEncapsulateDeterministic libraries construction publicKey randomness =
      .ok (ciphertext, shared)) :
    publicKey.length = construction.publicKeyLength ∧
      ciphertext.length = construction.ciphertextLength ∧
      HybridKemPrivateKey.decapsulate libraries ⟨construction, seed⟩ ciphertext = .ok shared := by
  obtain ⟨components, hcomponents, hpublicKey⟩ := bind_eq_ok_iff.mp hpublic
  obtain ⟨mlSeed, traditional, hmlSeed, htraditional, rfl⟩ :=
    expandPrivate_eq_ok_iff.mp hcomponents
  obtain ⟨-, -, -, randomnessPq, -, ciphertextPq, sharedPq, hencapsulatePq, ephemeral,
    hephemeral, sharedT, hsharedT, hciphertext, hshared⟩ :=
    hybridKemEncapsulateDeterministic_eq_ok_iff.mp hencapsulate
  have hpqLength : (MlKemPrivateKey.fromSeed libraries.mlKem construction.mlKem
      mlSeed).publicKey.length = construction.mlKem.publicKeyLength :=
    MlKemPrivateKey.length_publicKey _
  have hpublicPq : publicKey.take construction.mlKem.publicKeyLength =
      (MlKemPrivateKey.fromSeed libraries.mlKem construction.mlKem mlSeed).publicKey := by
    rw [← Except.ok.inj hpublicKey]
    exact List.take_left' hpqLength
  have hpublicT : publicKey.drop construction.mlKem.publicKeyLength = traditional.publicKey := by
    rw [← Except.ok.inj hpublicKey]
    exact List.drop_left' hpqLength
  rw [hpublicPq] at hencapsulatePq
  rw [hpublicT] at hsharedT hshared
  have hciphertextPq := length_of_mlKemEncapsulateDeterministic hencapsulatePq
  have hciphertextLength : ciphertext.length = construction.ciphertextLength := by
    rw [← hciphertext, List.length_append, hciphertextPq, ephemeral.length_publicKey,
      construction.ciphertextLength_eq]
  refine ⟨length_of_publicKey hpublic, hciphertextLength, ?_⟩
  have htake : ciphertext.take construction.mlKem.ciphertextLength = ciphertextPq := by
    rw [← hciphertext]
    exact List.take_left' hciphertextPq
  have hdrop : ciphertext.drop construction.mlKem.ciphertextLength = ephemeral.publicKey := by
    rw [← hciphertext]
    exact List.drop_left' hciphertextPq
  rw [decapsulate_eq_ok_iff]
  refine ⟨hciphertextLength, _, hcomponents, sharedPq, ?_, sharedT, ?_, ?_⟩
  · rw [htake]
    exact mlKemDecapsulate_of_encapsulate hencapsulatePq
  · rw [hdrop, traditional.derive_publicKey_comm ephemeral]
    exact hsharedT
  · rw [hdrop]
    exact hshared

/-! ### A sample -/

/-- A key encapsulation whose shared secret is the exclusive or of the ciphertext and the public
key. -/
def sampleMlKem (parameterSet : MlKemParameterSet) : MlKemLibrary parameterSet where
  DecapsulationKey := List.Vector UInt8 64
  EncapsulationKey := List.Vector UInt8 parameterSet.publicKeyLength
  fromSeed seed := seed
  encapsulationKey key := ⟨resize key.toList _ 0, length_resize _ _ _⟩
  toBytes key := key
  newEncapsulationKey encoded := some encoded
  encapsulateDeterministic key randomness :=
    (⟨resize randomness.toList _ 0, length_resize _ _ _⟩,
      ⟨xorBytes (resize (resize randomness.toList parameterSet.ciphertextLength 0) 32 0)
        (resize key.toList 32 0), by simp⟩)
  decapsulate key ciphertext :=
    ⟨xorBytes (resize ciphertext.toList 32 0)
      (resize (resize key.toList parameterSet.publicKeyLength 0) 32 0), by simp⟩
  decapsulate_encapsulate := by
    intro seed key randomness hkey
    rw [← Option.some.inj hkey]
    rfl

/-- A key agreement on the exclusive or of the keys. -/
def sampleX25519 : X25519Library where
  publicKey secret := secret
  diffieHellman secret peer := ⟨xorBytes secret.toList peer.toList, by simp⟩
  wasContributory shared := shared ≠ List.Vector.replicate 32 0
  diffieHellman_comm first second := Subtype.ext (xorBytes_comm first.toList second.toList)

/-- A key agreement on the exclusive or of the keys, with encoded public keys. -/
def sampleP384 : EcdhLibrary 97 where
  SecretKey := List.Vector UInt8 48
  PublicKey := List.Vector UInt8 97
  fromSlice := tryInto 48
  publicKey secret := ⟨4 :: resize secret.toList 96 0, by simp⟩
  toSec1Point key := key
  fromSec1Bytes := tryInto 97
  diffieHellman secret peer := xorBytes (resize secret.toList 96 0) (peer.toList.drop 1)
  fromSec1Bytes_toSec1Point key := tryInto_toList key
  diffieHellman_comm first second :=
    xorBytes_comm (resize first.toList 96 0) (resize second.toList 96 0)

/-- The sample components, with an expansion that starts with 96 bytes of ones. -/
def sampleLibraries : HybridLibraries where
  mlKem := sampleMlKem
  p256 := ecdhOfP256 residueP256
  x25519 := sampleX25519
  p384 := sampleP384
  shake256 input length := ⟨resize (List.replicate 96 0xff ++ input) length 1, length_resize _ _ _⟩
  sha3_256 input := ⟨resize input 32 0, length_resize _ _ _⟩

/-- The public key of the sample: the first candidate of the seed is not a scalar. -/
def samplePublicKey : ByteString :=
  List.replicate 64 0xff ++ List.replicate 1120 0 ++ 4 :: List.replicate 32 5 ++
    List.replicate 32 0

/-- The ciphertext of the sample. -/
def sampleCiphertext : ByteString :=
  List.replicate 32 7 ++ List.replicate 1056 0 ++ 4 :: List.replicate 32 9 ++ List.replicate 32 0

/-- The sample private key decapsulates the sample ciphertext. -/
theorem decapsulate_of_encapsulate_sample :
    samplePublicKey.length = HybridKemConstruction.mlKem768P256.publicKeyLength ∧
      sampleCiphertext.length = HybridKemConstruction.mlKem768P256.ciphertextLength ∧
      HybridKemPrivateKey.decapsulate sampleLibraries
          ⟨.mlKem768P256, List.Vector.replicate 32 5⟩ sampleCiphertext =
        .ok (List.replicate 32 0xf8) := by
  have hpublic : HybridKemPrivateKey.publicKey sampleLibraries
      ⟨.mlKem768P256, List.Vector.replicate 32 5⟩ = .ok samplePublicKey := by decide +kernel
  have hencapsulate : hybridKemEncapsulateDeterministic sampleLibraries .mlKem768P256
      samplePublicKey (List.replicate 32 7 ++ List.replicate 32 0xff ++ List.replicate 96 9) =
        .ok (sampleCiphertext, List.replicate 32 0xf8) := by decide +kernel
  exact decapsulate_of_encapsulate hpublic hencapsulate

end SoftwareKeyCore.HybridKem
