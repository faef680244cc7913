import SoftwareKeyCore.Foundation.FallibleResult
import SoftwareKeyCore.PostQuantum.KeyEncoding

/-!
# ML-DSA private keys

`post_quantum.rs`: the import and export of ML-DSA private keys. A key is held by its seed or by
its expanded form. Expanded forms are imported through one boundary, which validates the encoding,
binds the supplied public-key hash and makes a pairwise test; `MlDsaKey` carries that its expanded
form passed it.

The ML-DSA implementation is third-party code (`MlDsaLibrary`), with the two laws the exports rely
on: a seed determines its key, and an encoding that passes the validation is the encoding of the
key it decodes to. `fromSerialized_serialized` and `fromPkcs8Der_toPkcs8Der` restore every key
from its exports.
-/

set_option autoImplicit false
set_option relaxedAutoImplicit false

namespace SoftwareKeyCore.PostQuantum

open ByteString FallibleResult

/-- `MlDsaParameterSet`. -/
inductive MlDsaParameterSet
  | mlDsa44
  | mlDsa65
  | mlDsa87
  deriving DecidableEq, Repr

namespace MlDsaParameterSet

/-- `MlDsaParameterSet::expanded_private_key_length`. -/
def expandedPrivateKeyLength : MlDsaParameterSet → ℕ
  | mlDsa44 => 2560
  | mlDsa65 => 4032
  | mlDsa87 => 4896

theorem expandedPrivateKeyLength_bounds (parameterSet : MlDsaParameterSet) :
    32 < parameterSet.expandedPrivateKeyLength ∧
      parameterSet.expandedPrivateKeyLength ≤ 4896 := by
  cases parameterSet <;> simp [expandedPrivateKeyLength]

/-- `MlDsaPrivateKey::algorithm_for`. -/
def algorithm : MlDsaParameterSet → AlgorithmIdentifier
  | mlDsa44 => { oid := [2, 16, 840, 1, 101, 3, 4, 3, 17], parameters := none }
  | mlDsa65 => { oid := [2, 16, 840, 1, 101, 3, 4, 3, 18], parameters := none }
  | mlDsa87 => { oid := [2, 16, 840, 1, 101, 3, 4, 3, 19], parameters := none }

theorem parameters_algorithm (parameterSet : MlDsaParameterSet) :
    parameterSet.algorithm.parameters = none := by
  cases parameterSet <;> rfl

end MlDsaParameterSet

/-- `MlDsaError`. -/
inductive MlDsaError
  | invalidSeedLength
  | invalidExpandedPrivateKey
  | invalidPrivateKey
  | invalidContext
  | invalidPublicKey
  | invalidSignature
  | randomnessUnavailable
  | signingFailed
  deriving DecidableEq, Repr

/-- A seed. -/
abbrev Seed := List.Vector UInt8 32

/-- The ML-DSA implementation for a parameter set, with the validation of expanded encodings and
the hash of a public key. -/
structure MlDsaLibrary (parameterSet : MlDsaParameterSet) where
  SigningKey : Type
  ExpandedSigningKey : Type
  VerifyingKey : Type
  Signature : Type
  fromSeed : Seed → SigningKey
  asSeed : SigningKey → Seed
  expandedKey : SigningKey → ExpandedSigningKey
  verifyingKey : ExpandedSigningKey → VerifyingKey
  encodeVerifyingKey : VerifyingKey → ByteString
  validate : ByteString → Except MlDsaError Unit
  fromExpanded : ByteString → ExpandedSigningKey
  toExpanded : ExpandedSigningKey → ByteString
  shake256 : ByteString → List.Vector UInt8 64
  signDeterministic : ExpandedSigningKey → (message context : ByteString) → Option Signature
  verify : VerifyingKey → (message : ByteString) → Signature → Bool
  fromSeed_asSeed : ∀ key, fromSeed (asSeed key) = key
  length_toExpanded : ∀ key, (toExpanded key).length = parameterSet.expandedPrivateKeyLength
  toExpanded_fromExpanded : ∀ {encoded : ByteString},
    encoded.length = parameterSet.expandedPrivateKeyLength → validate encoded = .ok () →
      toExpanded (fromExpanded encoded) = encoded

/-! ### Key material -/

section Material

variable {parameterSet : MlDsaParameterSet} (mlDsa : MlDsaLibrary parameterSet)

/-- `MlDsaKeyMaterial`. -/
inductive MlDsaKeyMaterial
  | seeded (key : mlDsa.SigningKey)
  | expanded (key : mlDsa.ExpandedSigningKey) (verifyingKey : mlDsa.VerifyingKey)

/-- `decode_expanded_ml_dsa`. -/
def decodeExpandedMlDsa (encoded : ByteString) : Except MlDsaError mlDsa.ExpandedSigningKey :=
  if encoded.length ≠ parameterSet.expandedPrivateKeyLength then
    .error .invalidExpandedPrivateKey
  else do
    mlDsa.validate encoded
    return mlDsa.fromExpanded encoded

/-- The message of the pairwise test. -/
def pairwiseTestMessage : ByteString :=
  "software-key-core ML-DSA expanded-import pairwise test".toUTF8.toList

/-- `MlDsaKey::from_expanded`, up to the wrapper. -/
def importExpanded (encoded : ByteString) : Except MlDsaError (MlDsaKeyMaterial mlDsa) := do
  let key ← decodeExpandedMlDsa mlDsa encoded
  let verifyingKey := mlDsa.verifyingKey key
  let expectedTr := (mlDsa.shake256 (mlDsa.encodeVerifyingKey verifyingKey)).toList
  if expectedTr ≠ slice encoded 64 64 then .error .invalidExpandedPrivateKey
  else do
    let signature ← orError .invalidExpandedPrivateKey
      (mlDsa.signDeterministic key pairwiseTestMessage [])
    if ¬ mlDsa.verify verifyingKey pairwiseTestMessage signature then
      .error .invalidExpandedPrivateKey
    else return .expanded key verifyingKey

variable {mlDsa} in
/-- Imported material is expanded, and it is encoded as it was imported. -/
theorem exists_of_importExpanded {encoded : ByteString} {material : MlDsaKeyMaterial mlDsa}
    (hmaterial : importExpanded mlDsa encoded = .ok material) :
    ∃ key verifyingKey, material = .expanded key verifyingKey ∧
      encoded.length = parameterSet.expandedPrivateKeyLength ∧ mlDsa.toExpanded key = encoded := by
  unfold importExpanded decodeExpandedMlDsa at hmaterial
  simp only [bind_eq_ok_iff, ite_error_eq_ok_iff, pure_eq_ok_iff] at hmaterial
  obtain ⟨key, ⟨hlength, ⟨⟩, hvalidate, rfl⟩, -, signature, -, -, rfl⟩ := hmaterial
  exact ⟨_, _, rfl, not_not.mp hlength,
    mlDsa.toExpanded_fromExpanded (not_not.mp hlength) hvalidate⟩

/-- `MlDsaKey`: expanded material passed the import. -/
structure MlDsaKey where
  material : MlDsaKeyMaterial mlDsa
  validated : ∀ key verifyingKey, material = .expanded key verifyingKey →
    ∃ encoded, importExpanded mlDsa encoded = .ok material

namespace MlDsaKey

variable {mlDsa}

/-- `MlDsaKey::from_seed`. -/
def fromSeed (seed : Seed) : MlDsaKey mlDsa where
  material := .seeded (mlDsa.fromSeed seed)
  validated _ _ hmaterial := by cases hmaterial

/-- `MlDsaKey::from_expanded`. -/
def fromExpanded (encoded : ByteString) : Except MlDsaError (MlDsaKey mlDsa) :=
  match hmaterial : importExpanded mlDsa encoded with
  | .ok material => .ok ⟨material, fun _ _ _ ↦ ⟨encoded, hmaterial⟩⟩
  | .error error => .error error

/-- `MlDsaKey::expanded_key`. -/
def expandedKey (key : MlDsaKey mlDsa) : mlDsa.ExpandedSigningKey :=
  match key.material with
  | .seeded key => mlDsa.expandedKey key
  | .expanded key _ => key

/-- `MlDsaKey::public_key`. -/
def publicKey (key : MlDsaKey mlDsa) : ByteString :=
  match key.material with
  | .seeded key => mlDsa.encodeVerifyingKey (mlDsa.verifyingKey (mlDsa.expandedKey key))
  | .expanded _ verifyingKey => mlDsa.encodeVerifyingKey verifyingKey

/-- `MlDsaKey::seed`. -/
def seed (key : MlDsaKey mlDsa) : Option Seed :=
  match key.material with
  | .seeded key => some (mlDsa.asSeed key)
  | .expanded _ _ => none

/-- The import boundary, with and without the wrapper. -/
theorem fromExpanded_eq_ok_iff {encoded : ByteString} {key : MlDsaKey mlDsa} :
    fromExpanded encoded = .ok key ↔ importExpanded mlDsa encoded = .ok key.material := by
  obtain ⟨material, hvalidated⟩ := key
  unfold fromExpanded
  constructor
  · intro hkey
    split at hkey
    · rename_i material' hmaterial
      rw [hmaterial]
      exact congrArg Except.ok (congrArg MlDsaKey.material (Except.ok.inj hkey))
    · cases hkey
  · intro hmaterial
    split
    · rename_i material' hmaterial'
      obtain rfl := Except.ok.inj (hmaterial'.symm.trans hmaterial)
      rfl
    · rename_i error herror
      rw [herror] at hmaterial
      cases hmaterial

/-- A key has a seed that determines it, or its expanded encoding imports to it. -/
theorem eq_fromSeed_or_fromExpanded (key : MlDsaKey mlDsa) :
    (∃ seed, key.seed = some seed ∧ fromSeed seed = key) ∨
      (key.seed = none ∧ fromExpanded (mlDsa.toExpanded key.expandedKey) = .ok key) := by
  obtain ⟨material, hvalidated⟩ := key
  cases material with
  | seeded key =>
    refine Or.inl ⟨mlDsa.asSeed key, rfl, ?_⟩
    unfold fromSeed
    congr 1
    rw [mlDsa.fromSeed_asSeed]
  | expanded key verifyingKey =>
    refine Or.inr ⟨rfl, fromExpanded_eq_ok_iff.mpr ?_⟩
    obtain ⟨encoded, hencoded⟩ := hvalidated key verifyingKey rfl
    obtain ⟨key', verifyingKey', hmaterial, -, hkey⟩ := exists_of_importExpanded hencoded
    obtain ⟨rfl, -⟩ := MlDsaKeyMaterial.expanded.inj hmaterial
    change importExpanded mlDsa (mlDsa.toExpanded key) = _
    rw [hkey]
    exact hencoded

end MlDsaKey

end Material

/-! ### Private keys -/

variable (der : DerLibrary) (mlDsa : (parameterSet : MlDsaParameterSet) → MlDsaLibrary parameterSet)

/-- `MlDsaPrivateKey`, a key of one of the parameter sets. -/
structure MlDsaPrivateKey where
  parameterSet : MlDsaParameterSet
  key : MlDsaKey (mlDsa parameterSet)

namespace MlDsaPrivateKey

variable {mlDsa}

/-- `MlDsaPrivateKey::seed`. -/
def seed (key : MlDsaPrivateKey mlDsa) : Option Seed :=
  key.key.seed

/-- `MlDsaPrivateKey::expanded_private_key`. -/
def expandedPrivateKey (key : MlDsaPrivateKey mlDsa) : ByteString :=
  (mlDsa key.parameterSet).toExpanded key.key.expandedKey

/-- `MlDsaPrivateKey::public_key`. -/
def publicKey (key : MlDsaPrivateKey mlDsa) : ByteString :=
  key.key.publicKey

/-- `MlDsaPrivateKey::serialized`. -/
def serialized (key : MlDsaPrivateKey mlDsa) : ByteString :=
  match key.seed with
  | some seed => seed.toList
  | none => key.expandedPrivateKey

variable (mlDsa)

/-- `MlDsaPrivateKey::from_seed_slice`. -/
def fromSeedSlice (parameterSet : MlDsaParameterSet) (seed : ByteString) :
    Except MlDsaError (MlDsaPrivateKey mlDsa) :=
  if hlength : seed.length = 32 then .ok ⟨parameterSet, .fromSeed ⟨seed, hlength⟩⟩
  else .error .invalidSeedLength

/-- `MlDsaPrivateKey::from_expanded_private_key`. -/
def fromExpandedPrivateKey (parameterSet : MlDsaParameterSet) (encoded : ByteString) :
    Except MlDsaError (MlDsaPrivateKey mlDsa) := do
  let key ← MlDsaKey.fromExpanded encoded
  return ⟨parameterSet, key⟩

/-- `MlDsaPrivateKey::from_seed_and_expanded`. -/
def fromSeedAndExpanded (parameterSet : MlDsaParameterSet) (seed expanded : ByteString) :
    Except MlDsaError (MlDsaPrivateKey mlDsa) := do
  let key ← fromSeedSlice mlDsa parameterSet seed
  if key.expandedPrivateKey ≠ expanded then .error .invalidExpandedPrivateKey else return key

/-- `MlDsaPrivateKey::from_components`. -/
def fromComponents (parameterSet : MlDsaParameterSet) :
    (seed expanded : Option ByteString) → Except MlDsaError (MlDsaPrivateKey mlDsa)
  | some seed, some expanded => fromSeedAndExpanded mlDsa parameterSet seed expanded
  | some seed, none => fromSeedSlice mlDsa parameterSet seed
  | none, some expanded => fromExpandedPrivateKey mlDsa parameterSet expanded
  | none, none => .error .invalidPrivateKey

/-- `MlDsaPrivateKey::from_serialized`. -/
def fromSerialized (parameterSet : MlDsaParameterSet) (encoded : ByteString) :
    Except MlDsaError (MlDsaPrivateKey mlDsa) :=
  if encoded.length = 32 then fromComponents mlDsa parameterSet (some encoded) none
  else if encoded.length = 32 + parameterSet.expandedPrivateKeyLength then
    fromComponents mlDsa parameterSet (some (encoded.take 32)) (some (encoded.drop 32))
  else fromComponents mlDsa parameterSet none (some encoded)

/-- The match of `from_pkcs8_der` on the decoded choice. -/
def importEncoding (parameterSet : MlDsaParameterSet) :
    (encoding : PrivateEncoding) → Except MlDsaError (MlDsaPrivateKey mlDsa)
  | .seed seed => fromSeedSlice mlDsa parameterSet seed
  | .expanded expanded => fromExpandedPrivateKey mlDsa parameterSet expanded
  | .both seed expanded => fromSeedAndExpanded mlDsa parameterSet seed expanded

/-- `MlDsaPrivateKey::from_pkcs8_der`. -/
def fromPkcs8Der (parameterSet : MlDsaParameterSet) (encoded : ByteString) :
    Except MlDsaError (MlDsaPrivateKey mlDsa) := do
  let decoded ← orError .invalidPrivateKey (decode der encoded parameterSet.algorithm)
  let key ← importEncoding mlDsa parameterSet decoded.encoding
  if decoded.publicKey.any fun publicKey ↦ key.publicKey != publicKey then
    .error .invalidPrivateKey
  else return key

variable {mlDsa}

/-- `MlDsaPrivateKey::to_pkcs8_der`. -/
def toPkcs8Der (key : MlDsaPrivateKey mlDsa) : Except MlDsaError ByteString :=
  orError .invalidPrivateKey <|
    match key.seed with
    | some seed => encode der key.parameterSet.algorithm (.seed seed.toList) none
    | none => encode der key.parameterSet.algorithm (.expanded key.expandedPrivateKey) none

/-! ### The parameter set of an imported key -/

theorem parameterSet_of_fromSeedSlice {parameterSet : MlDsaParameterSet} {seed : ByteString}
    {key : MlDsaPrivateKey mlDsa} (hkey : fromSeedSlice mlDsa parameterSet seed = .ok key) :
    key.parameterSet = parameterSet := by
  unfold fromSeedSlice at hkey
  split_ifs at hkey
  obtain rfl := Except.ok.inj hkey
  rfl

theorem parameterSet_of_fromExpandedPrivateKey {parameterSet : MlDsaParameterSet}
    {encoded : ByteString} {key : MlDsaPrivateKey mlDsa}
    (hkey : fromExpandedPrivateKey mlDsa parameterSet encoded = .ok key) :
    key.parameterSet = parameterSet := by
  obtain ⟨inner, -, hpure⟩ := bind_eq_ok_iff.mp hkey
  obtain rfl := pure_eq_ok_iff.mp hpure
  rfl

theorem parameterSet_of_fromSeedAndExpanded {parameterSet : MlDsaParameterSet}
    {seed expanded : ByteString} {key : MlDsaPrivateKey mlDsa}
    (hkey : fromSeedAndExpanded mlDsa parameterSet seed expanded = .ok key) :
    key.parameterSet = parameterSet := by
  obtain ⟨inner, hinner, hguard⟩ := bind_eq_ok_iff.mp hkey
  obtain rfl := pure_eq_ok_iff.mp (ite_error_eq_ok_iff.mp hguard).2
  exact parameterSet_of_fromSeedSlice hinner

theorem parameterSet_of_fromSerialized {parameterSet : MlDsaParameterSet} {encoded : ByteString}
    {key : MlDsaPrivateKey mlDsa} (hkey : fromSerialized mlDsa parameterSet encoded = .ok key) :
    key.parameterSet = parameterSet := by
  unfold fromSerialized at hkey
  split_ifs at hkey
  · exact parameterSet_of_fromSeedSlice hkey
  · exact parameterSet_of_fromSeedAndExpanded hkey
  · exact parameterSet_of_fromExpandedPrivateKey hkey

theorem parameterSet_of_fromPkcs8Der {parameterSet : MlDsaParameterSet} {encoded : ByteString}
    {key : MlDsaPrivateKey mlDsa}
    (hkey : fromPkcs8Der der mlDsa parameterSet encoded = .ok key) :
    key.parameterSet = parameterSet := by
  obtain ⟨decoded, -, hkey⟩ := bind_eq_ok_iff.mp hkey
  obtain ⟨inner, hinner, hguard⟩ := bind_eq_ok_iff.mp hkey
  obtain rfl := pure_eq_ok_iff.mp (ite_error_eq_ok_iff.mp hguard).2
  cases hencoding : decoded.encoding with
  | seed seed =>
    rw [hencoding] at hinner
    exact parameterSet_of_fromSeedSlice hinner
  | expanded expanded =>
    rw [hencoding] at hinner
    exact parameterSet_of_fromExpandedPrivateKey hinner
  | both seed expanded =>
    rw [hencoding] at hinner
    exact parameterSet_of_fromSeedAndExpanded hinner

/-! ### Restoring exported keys -/

/-- A key is the one of its seed or the one of its expanded encoding. -/
theorem eq_fromSeedSlice_or_fromExpandedPrivateKey (key : MlDsaPrivateKey mlDsa) :
    (∃ seed : Seed, key.seed = some seed ∧
      fromSeedSlice mlDsa key.parameterSet seed.toList = .ok key) ∨
    (key.seed = none ∧
      fromExpandedPrivateKey mlDsa key.parameterSet key.expandedPrivateKey = .ok key) := by
  obtain ⟨parameterSet, key⟩ := key
  rcases key.eq_fromSeed_or_fromExpanded with ⟨seed, hseed, rfl⟩ | ⟨hseed, hexpanded⟩
  · refine Or.inl ⟨seed, hseed, ?_⟩
    unfold fromSeedSlice
    rw [dif_pos seed.toList_length]
    rfl
  · exact Or.inr ⟨hseed, bind_eq_ok_iff.mpr ⟨key, hexpanded, rfl⟩⟩

theorem length_expandedPrivateKey (key : MlDsaPrivateKey mlDsa) :
    key.expandedPrivateKey.length = key.parameterSet.expandedPrivateKeyLength :=
  (mlDsa key.parameterSet).length_toExpanded _

/-- Every key is restored from its raw storage. -/
theorem fromSerialized_serialized (key : MlDsaPrivateKey mlDsa) :
    fromSerialized mlDsa key.parameterSet key.serialized = .ok key := by
  have hbounds := key.parameterSet.expandedPrivateKeyLength_bounds
  unfold serialized fromSerialized
  rcases key.eq_fromSeedSlice_or_fromExpandedPrivateKey with ⟨seed, hseed, hkey⟩ | ⟨hseed, hkey⟩
  · rw [hseed]
    dsimp only
    rw [if_pos seed.toList_length]
    exact hkey
  · have hlength := key.length_expandedPrivateKey
    rw [hseed]
    dsimp only
    rw [if_neg (by omega), if_neg (by omega)]
    exact hkey

/-- Every key is restored from its PKCS #8 export. -/
theorem fromPkcs8Der_toPkcs8Der (key : MlDsaPrivateKey mlDsa) :
    ∃ encoded, key.toPkcs8Der der = .ok encoded ∧
      fromPkcs8Der der mlDsa key.parameterSet encoded = .ok key := by
  have hparameters := key.parameterSet.parameters_algorithm
  have hbounds := key.parameterSet.expandedPrivateKeyLength_bounds
  have hlimit : 4902 ≤ derLengthLimit := by
    unfold derLengthLimit
    norm_num
  unfold toPkcs8Der fromPkcs8Der
  rcases key.eq_fromSeedSlice_or_fromExpandedPrivateKey with ⟨seed, hseed, hkey⟩ | ⟨hseed, hkey⟩
  · have hseedLength := seed.toList_length
    have hchoice : encodeChoice der (.seed seed.toList) =
        der.encodeTlv .context0 seed.toList := rfl
    obtain ⟨encoded, hencoded, hdecoded⟩ := exists_encode hparameters hchoice (by omega)
    rw [hseed]
    dsimp only
    refine ⟨encoded, orError_eq_ok_iff.mpr hencoded, ?_⟩
    rw [hdecoded]
    exact bind_eq_ok_iff.mpr ⟨_, rfl, bind_eq_ok_iff.mpr ⟨key, hkey, rfl⟩⟩
  · have hlength := key.length_expandedPrivateKey
    have hchoice : encodeChoice der (.expanded key.expandedPrivateKey) =
        der.encodeTlv .octetString key.expandedPrivateKey := rfl
    obtain ⟨encoded, hencoded, hdecoded⟩ := exists_encode hparameters hchoice (by omega)
    rw [hseed]
    dsimp only
    refine ⟨encoded, orError_eq_ok_iff.mpr hencoded, ?_⟩
    rw [hdecoded]
    exact bind_eq_ok_iff.mpr ⟨_, rfl, bind_eq_ok_iff.mpr ⟨key, hkey, rfl⟩⟩

end MlDsaPrivateKey

end SoftwareKeyCore.PostQuantum
