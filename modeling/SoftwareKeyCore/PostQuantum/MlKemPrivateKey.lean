import SoftwareKeyCore.PostQuantum.KeyRoutes
import SoftwareKeyCore.PostQuantum.MlKem

/-!
# ML-KEM private keys

`post_quantum.rs`: the import and export of ML-KEM private keys. A key derived from its seed keeps
the seed. An expanded key is decoded by the third-party library and then tested: what is
encapsulated to its public key, with sampled randomness, must be decapsulated to the same secret.

`MlKemKeyLibrary` adds to the ML-KEM implementation the storage of keys, with the laws that a key
keeps the seed it was derived from and no other, that an expanded key is encoded as it was decoded,
and that the test does not depend on the randomness. `keyPolicy_lawful` is that the admission meets
the laws of the import policy.
-/

set_option autoImplicit false
set_option relaxedAutoImplicit false

namespace SoftwareKeyCore.PostQuantum

open ByteString FallibleResult

namespace MlKemParameterSet

/-- `MlKemParameterSet::expanded_private_key_length`. -/
def expandedPrivateKeyLength : MlKemParameterSet → ℕ
  | mlKem512 => 1632
  | mlKem768 => 2400
  | mlKem1024 => 3168

/-- `MlKemPrivateKey::algorithm_for`. -/
def algorithm : MlKemParameterSet → AlgorithmIdentifier
  | mlKem512 => { oid := [2, 16, 840, 1, 101, 3, 4, 4, 1], parameters := none }
  | mlKem768 => { oid := [2, 16, 840, 1, 101, 3, 4, 4, 2], parameters := none }
  | mlKem1024 => { oid := [2, 16, 840, 1, 101, 3, 4, 4, 3], parameters := none }

end MlKemParameterSet

/-- The ML-KEM implementation for a parameter set, with the storage of its private keys. -/
structure MlKemKeyLibrary (parameterSet : MlKemParameterSet) extends
    MlKemLibrary parameterSet where
  toSeed : DecapsulationKey → Option (List.Vector UInt8 64)
  fromExpandedBytes : List.Vector UInt8 parameterSet.expandedPrivateKeyLength →
    Option DecapsulationKey
  toExpandedBytes : DecapsulationKey → List.Vector UInt8 parameterSet.expandedPrivateKeyLength
  toSeed_fromSeed : ∀ seed, toSeed (fromSeed seed) = some seed
  toSeed_fromExpandedBytes : ∀ {expanded key}, fromExpandedBytes expanded = some key →
    toSeed key = none
  toExpandedBytes_fromExpandedBytes : ∀ {expanded key}, fromExpandedBytes expanded = some key →
    toExpandedBytes key = expanded
  pairwiseTest_randomness : ∀ {expanded key encapsulationKey'} (randomness randomness'),
    fromExpandedBytes expanded = some key →
      newEncapsulationKey (toBytes (encapsulationKey key)) = some encapsulationKey' →
        (decapsulate key (encapsulateDeterministic encapsulationKey' randomness).1 =
            (encapsulateDeterministic encapsulationKey' randomness).2 ↔
          decapsulate key (encapsulateDeterministic encapsulationKey' randomness').1 =
            (encapsulateDeterministic encapsulationKey' randomness').2)

/-- The ML-KEM implementation, with the storage of private keys. -/
abbrev MlKemKeyLibraries := (parameterSet : MlKemParameterSet) → MlKemKeyLibrary parameterSet

/-- The implementation without the storage. -/
abbrev MlKemKeyLibraries.base (mlKem : MlKemKeyLibraries) : MlKemLibraries :=
  fun parameterSet ↦ (mlKem parameterSet).toMlKemLibrary

namespace MlKemPrivateKey

variable {mlKem : MlKemKeyLibraries}

/-- `MlKemPrivateKey::seed`. -/
def seed (key : MlKemPrivateKey mlKem.base) : Option (List.Vector UInt8 64) :=
  (mlKem key.parameterSet).toSeed key.key

/-- `MlKemPrivateKey::expanded_private_key`. -/
def expandedPrivateKey (key : MlKemPrivateKey mlKem.base) : ByteString :=
  ((mlKem key.parameterSet).toExpandedBytes key.key).toList

/-- `MlKemPrivateKey::serialized`. -/
def serialized (key : MlKemPrivateKey mlKem.base) : ByteString :=
  match key.seed with
  | some seed => seed.toList
  | none => key.expandedPrivateKey

/-- `MlKemPrivateKey::to_pkcs8_der`. -/
def toPkcs8Der (der : DerLibrary) (key : MlKemPrivateKey mlKem.base) :
    Except MlKemError ByteString :=
  orError .encodingFailed <|
    match key.seed with
    | some seed => encode der key.parameterSet.algorithm (.seed seed.toList) none
    | none => encode der key.parameterSet.algorithm (.expanded key.expandedPrivateKey) none

variable (mlKem) (parameterSet : MlKemParameterSet)

/-- `MlKemPrivateKey::from_seed_slice`. -/
def fromSeedSlice (seed : ByteString) : Except MlKemError (MlKemPrivateKey mlKem.base) := do
  let seed ← orError .invalidSeedLength (tryInto 64 seed)
  return fromSeed mlKem.base parameterSet seed

/-- `MlKemPrivateKey::from_expanded_private_key_with_randomness`. -/
def fromExpandedPrivateKeyWithRandomness (expanded : ByteString)
    (fillRandomness : Except MlKemError (List.Vector UInt8 32)) :
    Except MlKemError (MlKemPrivateKey mlKem.base) := do
  let expanded ← orError .invalidExpandedPrivateKey (tryInto _ expanded)
  let decoded ← orError .invalidExpandedPrivateKey
    ((mlKem parameterSet).fromExpandedBytes expanded)
  let key : MlKemPrivateKey mlKem.base := ⟨parameterSet, decoded⟩
  let randomness ← fillRandomness
  let (ciphertext, expected) ←
    mlKemEncapsulateDeterministic mlKem.base parameterSet key.publicKey randomness
  let actual ← key.decapsulate ciphertext
  if expected ≠ actual then .error .invalidExpandedPrivateKey else return key

/-- `MlKemPrivateKey::from_expanded_private_key`, with what the system's source of randomness
answers. -/
def fromExpandedPrivateKey (random : Option (List.Vector UInt8 32)) (expanded : ByteString) :
    Except MlKemError (MlKemPrivateKey mlKem.base) :=
  fromExpandedPrivateKeyWithRandomness mlKem parameterSet expanded
    (orError .randomnessUnavailable random)

/-- The policy of the imports of a parameter set. -/
def keyPolicy (random : Option (List.Vector UInt8 32)) :
    KeyPolicy MlKemError (MlKemPrivateKey mlKem.base) where
  seedLength := 64
  expandedLength := parameterSet.expandedPrivateKeyLength
  algorithm := parameterSet.algorithm
  algorithmOf key := key.parameterSet.algorithm
  fromSeedSlice := fromSeedSlice mlKem parameterSet
  fromExpandedPrivateKey := fromExpandedPrivateKey mlKem parameterSet random
  seed key := key.seed.map List.Vector.toList
  expandedPrivateKey := expandedPrivateKey
  publicKey := publicKey
  invalidExpandedPrivateKey := .invalidExpandedPrivateKey
  invalidPrivateKey := .invalidPrivateKey
  encodingFailed := .encodingFailed

/-- `MlKemPrivateKey::from_seed_and_expanded`. -/
def fromSeedAndExpanded (seed expanded : ByteString) :
    Except MlKemError (MlKemPrivateKey mlKem.base) :=
  (keyPolicy mlKem parameterSet none).fromSeedAndExpanded seed expanded

/-- `MlKemPrivateKey::from_components`. -/
def fromComponents (random : Option (List.Vector UInt8 32)) (seed expanded : Option ByteString) :
    Except MlKemError (MlKemPrivateKey mlKem.base) :=
  (keyPolicy mlKem parameterSet random).fromComponents seed expanded

/-- `MlKemPrivateKey::from_serialized`. -/
def fromSerialized (random : Option (List.Vector UInt8 32)) (encoded : ByteString) :
    Except MlKemError (MlKemPrivateKey mlKem.base) :=
  (keyPolicy mlKem parameterSet random).fromSerialized encoded

/-- `MlKemPrivateKey::from_pkcs8_der`. -/
def fromPkcs8Der (der : DerLibrary) (random : Option (List.Vector UInt8 32))
    (encoded : ByteString) : Except MlKemError (MlKemPrivateKey mlKem.base) :=
  (keyPolicy mlKem parameterSet random).fromPkcs8Der der encoded

/-- The routes of the keys of a parameter set. -/
def routes (der : DerLibrary) (random : Option (List.Vector UInt8 32)) :
    KeyRoutes MlKemError (MlKemPrivateKey mlKem.base) where
  fromComponents := fromComponents mlKem parameterSet random
  fromSerialized := fromSerialized mlKem parameterSet random
  fromPkcs8Der := fromPkcs8Der mlKem parameterSet der random
  seed key := key.seed.map List.Vector.toList
  expandedPrivateKey := expandedPrivateKey
  publicKey := publicKey
  serialized := serialized
  toPkcs8Der := toPkcs8Der der

variable {mlKem} {parameterSet}

/-! ### The policy -/

theorem routes_eq (der : DerLibrary) (random : Option (List.Vector UInt8 32)) :
    routes mlKem parameterSet der random = (keyPolicy mlKem parameterSet random).routes der := by
  have hserialized : ∀ key : MlKemPrivateKey mlKem.base,
      key.serialized = (keyPolicy mlKem parameterSet random).serialized key := by
    intro key
    cases hseed : key.seed with
    | none => simp only [serialized, KeyPolicy.serialized, keyPolicy, hseed, Option.map_none]
    | some seed => simp only [serialized, KeyPolicy.serialized, keyPolicy, hseed, Option.map_some]
  have hexport : ∀ key : MlKemPrivateKey mlKem.base,
      key.toPkcs8Der der = (keyPolicy mlKem parameterSet random).toPkcs8Der der key := by
    intro key
    cases hseed : key.seed with
    | none => simp only [toPkcs8Der, KeyPolicy.toPkcs8Der, keyPolicy, hseed, Option.map_none]
    | some seed => simp only [toPkcs8Der, KeyPolicy.toPkcs8Der, keyPolicy, hseed, Option.map_some]
  rw [routes, funext hserialized, funext hexport]
  rfl

/-- The pairwise test of a decoded key. -/
def PassesPairwiseTest (library : MlKemKeyLibrary parameterSet)
    (decoded : library.DecapsulationKey) (randomness : List.Vector UInt8 32) : Prop :=
  ∃ key, library.newEncapsulationKey (library.toBytes (library.encapsulationKey decoded)) =
      some key ∧
    library.decapsulate decoded (library.encapsulateDeterministic key randomness).1 =
      (library.encapsulateDeterministic key randomness).2

/-- The decapsulation of a ciphertext of the right length. -/
theorem decapsulate_toList (key : MlKemPrivateKey mlKem.base)
    (ciphertext : List.Vector UInt8 key.parameterSet.ciphertextLength) :
    key.decapsulate ciphertext.toList =
      .ok ((mlKem key.parameterSet).decapsulate key.key ciphertext).toList := by
  rw [decapsulate, tryInto_toList, orError_some, ok_bind]

/-- The encapsulation to a decoded key is decapsulated when the key passes the pairwise test. -/
theorem exists_encapsulate_iff (decoded : (mlKem parameterSet).DecapsulationKey)
    (randomness : List.Vector UInt8 32) :
    (∃ outcome, mlKemEncapsulateDeterministic mlKem.base parameterSet
        (publicKey (⟨parameterSet, decoded⟩ : MlKemPrivateKey mlKem.base)) randomness =
          .ok outcome ∧
      decapsulate (⟨parameterSet, decoded⟩ : MlKemPrivateKey mlKem.base) outcome.1 =
        .ok outcome.2) ↔ PassesPairwiseTest (mlKem parameterSet) decoded randomness := by
  constructor
  · rintro ⟨⟨ciphertext, shared⟩, hencapsulate, hdecapsulate⟩
    obtain ⟨encoded, hencoded, key, hkey, rfl, rfl⟩ :=
      mlKemEncapsulateDeterministic_eq_ok_iff.mp hencapsulate
    rw [List.Vector.toList_injective hencoded] at hkey
    refine ⟨key, hkey, List.Vector.toList_injective ?_⟩
    exact Except.ok.inj ((decapsulate_toList ⟨parameterSet, decoded⟩ _).symm.trans hdecapsulate)
  · rintro ⟨key, hkey, htest⟩
    refine ⟨(_, _), mlKemEncapsulateDeterministic_eq_ok_iff.mpr ⟨_, rfl, key, hkey, rfl, rfl⟩, ?_⟩
    rw [← htest]
    exact decapsulate_toList ⟨parameterSet, decoded⟩ _

/-- An expanded key that is admitted is decoded and passes the pairwise test. -/
theorem fromExpandedPrivateKey_eq_ok_iff {random : Option (List.Vector UInt8 32)}
    {expanded : ByteString} {key : MlKemPrivateKey mlKem.base} :
    fromExpandedPrivateKey mlKem parameterSet random expanded = .ok key ↔
      ∃ bytes, bytes.toList = expanded ∧
        ∃ decoded, (mlKem parameterSet).fromExpandedBytes bytes = some decoded ∧
          ∃ randomness, random = some randomness ∧
            PassesPairwiseTest (mlKem parameterSet) decoded randomness ∧
              ⟨parameterSet, decoded⟩ = key := by
  simp only [fromExpandedPrivateKey, fromExpandedPrivateKeyWithRandomness, bind_eq_ok_iff,
    orError_eq_ok_iff, tryInto_eq_some_iff, ite_error_eq_ok_iff, pure_eq_ok_iff, not_not,
    ← exists_encapsulate_iff]
  constructor
  · rintro ⟨bytes, hbytes, decoded, hdecoded, randomness, hrandom, outcome, hencapsulate, actual,
      hdecapsulate, rfl, hkey⟩
    exact ⟨bytes, hbytes, decoded, hdecoded, randomness, hrandom,
      ⟨outcome, hencapsulate, hdecapsulate⟩, hkey⟩
  · rintro ⟨bytes, hbytes, decoded, hdecoded, randomness, hrandom,
      ⟨outcome, hencapsulate, hdecapsulate⟩, hkey⟩
    exact ⟨bytes, hbytes, decoded, hdecoded, randomness, hrandom, outcome, hencapsulate, _,
      hdecapsulate, rfl, hkey⟩

/-- The length of an expanded key that is admitted. -/
theorem length_of_fromExpandedPrivateKey {random : Option (List.Vector UInt8 32)}
    {expanded : ByteString} {key : MlKemPrivateKey mlKem.base}
    (hkey : fromExpandedPrivateKey mlKem parameterSet random expanded = .ok key) :
    expanded.length = parameterSet.expandedPrivateKeyLength := by
  obtain ⟨bytes, rfl, -⟩ := fromExpandedPrivateKey_eq_ok_iff.mp hkey
  exact bytes.toList_length

/-- The admission of expanded keys does not depend on the randomness. -/
theorem fromExpandedPrivateKey_randomness (randomness randomness' : List.Vector UInt8 32)
    (expanded : ByteString) :
    fromExpandedPrivateKey mlKem parameterSet (some randomness) expanded =
      fromExpandedPrivateKey mlKem parameterSet (some randomness') expanded := by
  simp only [fromExpandedPrivateKey, fromExpandedPrivateKeyWithRandomness, orError_some, ok_bind]
  rcases tryInto parameterSet.expandedPrivateKeyLength expanded with - | bytes
  · rfl
  rcases hdecoded : (mlKem parameterSet).fromExpandedBytes bytes with - | decoded
  · simp only [orError_some, ok_bind, hdecoded]
    rfl
  simp only [orError_some, ok_bind, hdecoded, mlKemEncapsulateDeterministic, publicKey,
    tryInto_toList]
  rcases hkey : (mlKem parameterSet).newEncapsulationKey
    ((mlKem parameterSet).toBytes ((mlKem parameterSet).encapsulationKey decoded)) with - | key
  · rfl
  have htest := (mlKem parameterSet).pairwiseTest_randomness randomness randomness' hdecoded hkey
  simp only [orError_some, ok_bind, decapsulate_toList]
  refine if_congr (not_congr ⟨fun hsame ↦ ?_, fun hsame ↦ ?_⟩) rfl rfl
  · exact congrArg List.Vector.toList (htest.mp (List.Vector.toList_injective hsame).symm).symm
  · exact congrArg List.Vector.toList (htest.mpr (List.Vector.toList_injective hsame).symm).symm

/-- The admission meets the laws of the import policy. -/
theorem keyPolicy_lawful (random : Option (List.Vector UInt8 32)) :
    (keyPolicy mlKem parameterSet random).Lawful where
  seedLength_pos := by
    show 0 < 64
    norm_num
  seedLength_lt := by
    show 64 < parameterSet.expandedPrivateKeyLength
    cases parameterSet <;> decide
  expandedLength_le := by
    show parameterSet.expandedPrivateKeyLength + 6 ≤ derLengthLimit
    rw [derLengthLimit]
    cases parameterSet <;> decide
  parameters_algorithm := by
    show parameterSet.algorithm.parameters = none
    cases parameterSet <;> rfl
  of_fromSeedSlice := by
    intro seed key hkey
    obtain ⟨vector, hvector, hpure⟩ := bind_eq_ok_iff.mp hkey
    obtain rfl := pure_eq_ok_iff.mp hpure
    rw [orError_eq_ok_iff, tryInto_eq_some_iff] at hvector
    subst hvector
    refine ⟨vector.toList_length, ?_, List.Vector.toList_length _, rfl⟩
    show ((mlKem parameterSet).toSeed ((mlKem parameterSet).fromSeed vector)).map _ = _
    rw [(mlKem parameterSet).toSeed_fromSeed, Option.map_some]
  of_fromExpandedPrivateKey := by
    intro expanded key hkey
    obtain ⟨bytes, rfl, decoded, hdecoded, -, -, -, rfl⟩ :=
      fromExpandedPrivateKey_eq_ok_iff.mp hkey
    refine ⟨bytes.toList_length, ?_, ?_, rfl⟩
    · show ((mlKem parameterSet).toSeed decoded).map _ = _
      rw [(mlKem parameterSet).toSeed_fromExpandedBytes hdecoded, Option.map_none]
    · show ((mlKem parameterSet).toExpandedBytes decoded).toList = _
      rw [(mlKem parameterSet).toExpandedBytes_fromExpandedBytes hdecoded]

end MlKemPrivateKey

end SoftwareKeyCore.PostQuantum
