import SoftwareKeyCore.PostQuantum.MlDsaPrivateKey
import SoftwareKeyCore.PostQuantum.MlKemPrivateKey

/-!
# The import routes of ML-KEM and ML-DSA

The private keys of both algorithms follow the policy of `KeyRoutes`. `importRoutes_agree` is that
their routes agree, for every parameter set, and that the randomness of the pairwise test of ML-KEM
does not matter. The raw storage tells the forms of a key by their lengths, so a byte string that
no form of a key has is not told from another form: `not_fromSerialized_iff` imports 64 bytes as a
seed, which are no expanded key.
-/

set_option autoImplicit false
set_option relaxedAutoImplicit false

namespace SoftwareKeyCore.PostQuantum

open ByteString FallibleResult KeyRoutes

/-! ### ML-DSA -/

/-- The ML-DSA implementation, whose keys keep the seed they were derived from. -/
structure MlDsaKeyLibrary (parameterSet : MlDsaParameterSet) extends
    MlDsaLibrary parameterSet where
  asSeed_fromSeed : ∀ seed, asSeed (fromSeed seed) = seed

/-- The ML-DSA implementation for all parameter sets. -/
abbrev MlDsaKeyLibraries := (parameterSet : MlDsaParameterSet) → MlDsaKeyLibrary parameterSet

/-- The implementation without the law. -/
abbrev MlDsaKeyLibraries.base (mlDsa : MlDsaKeyLibraries) (parameterSet : MlDsaParameterSet) :
    MlDsaLibrary parameterSet :=
  (mlDsa parameterSet).toMlDsaLibrary

namespace MlDsaPrivateKey

variable (mlDsa : MlDsaKeyLibraries) (parameterSet : MlDsaParameterSet)

/-- The routes of the keys of a parameter set. -/
def routes (der : DerLibrary) : KeyRoutes MlDsaError (MlDsaPrivateKey mlDsa.base) where
  fromComponents := fromComponents mlDsa.base parameterSet
  fromSerialized := fromSerialized mlDsa.base parameterSet
  fromPkcs8Der := fromPkcs8Der der mlDsa.base parameterSet
  seed key := key.seed.map List.Vector.toList
  expandedPrivateKey := expandedPrivateKey
  publicKey := publicKey
  serialized := serialized
  toPkcs8Der := toPkcs8Der der

/-- The policy of the imports of a parameter set. -/
def keyPolicy : KeyPolicy MlDsaError (MlDsaPrivateKey mlDsa.base) where
  seedLength := 32
  expandedLength := parameterSet.expandedPrivateKeyLength
  algorithm := parameterSet.algorithm
  algorithmOf key := key.parameterSet.algorithm
  fromSeedSlice := fromSeedSlice mlDsa.base parameterSet
  fromExpandedPrivateKey := fromExpandedPrivateKey mlDsa.base parameterSet
  seed key := key.seed.map List.Vector.toList
  expandedPrivateKey := expandedPrivateKey
  publicKey := publicKey
  invalidExpandedPrivateKey := .invalidExpandedPrivateKey
  invalidPrivateKey := .invalidPrivateKey
  encodingFailed := .invalidPrivateKey

variable {mlDsa} {parameterSet}

theorem routes_eq (der : DerLibrary) :
    routes mlDsa parameterSet der = (keyPolicy mlDsa parameterSet).routes der := by
  have hcomponents : ∀ seed expanded, fromComponents mlDsa.base parameterSet seed expanded =
      (keyPolicy mlDsa parameterSet).fromComponents seed expanded := by
    intro seed expanded
    cases seed <;> cases expanded <;> rfl
  have hserialized : ∀ key : MlDsaPrivateKey mlDsa.base,
      key.serialized = (keyPolicy mlDsa parameterSet).serialized key := by
    intro key
    cases hseed : key.seed with
    | none => simp only [serialized, KeyPolicy.serialized, keyPolicy, hseed, Option.map_none]
    | some seed => simp only [serialized, KeyPolicy.serialized, keyPolicy, hseed, Option.map_some]
  have hexport : ∀ key : MlDsaPrivateKey mlDsa.base,
      key.toPkcs8Der der = (keyPolicy mlDsa parameterSet).toPkcs8Der der key := by
    intro key
    cases hseed : key.seed with
    | none => simp only [toPkcs8Der, KeyPolicy.toPkcs8Der, keyPolicy, hseed, Option.map_none]
    | some seed => simp only [toPkcs8Der, KeyPolicy.toPkcs8Der, keyPolicy, hseed, Option.map_some]
  have hstorage : ∀ encoded, fromSerialized mlDsa.base parameterSet encoded =
      (keyPolicy mlDsa parameterSet).fromSerialized encoded := by
    intro encoded
    simp only [fromSerialized, KeyPolicy.fromSerialized, hcomponents]
    rfl
  have hencoding : ∀ encoding, importEncoding mlDsa.base parameterSet encoding =
      (keyPolicy mlDsa parameterSet).importEncoding encoding := by
    intro encoding
    cases encoding <;> rfl
  have hdocument : ∀ encoded, fromPkcs8Der der mlDsa.base parameterSet encoded =
      (keyPolicy mlDsa parameterSet).fromPkcs8Der der encoded := by
    intro encoded
    simp only [fromPkcs8Der, KeyPolicy.fromPkcs8Der, hencoding]
    rfl
  rw [routes, funext₂ hcomponents, funext hstorage, funext hdocument, funext hserialized,
    funext hexport]
  rfl

/-- The admission meets the laws of the import policy. -/
theorem keyPolicy_lawful : (keyPolicy mlDsa parameterSet).Lawful where
  seedLength_pos := by
    show 0 < 32
    norm_num
  seedLength_lt := parameterSet.expandedPrivateKeyLength_bounds.1
  expandedLength_le := by
    have hbounds := parameterSet.expandedPrivateKeyLength_bounds
    show parameterSet.expandedPrivateKeyLength + 6 ≤ derLengthLimit
    rw [derLengthLimit]
    omega
  parameters_algorithm := parameterSet.parameters_algorithm
  of_fromSeedSlice := by
    intro seed key hkey
    obtain hkey : fromSeedSlice mlDsa.base parameterSet seed = .ok key := hkey
    unfold fromSeedSlice at hkey
    split_ifs at hkey with hlength
    obtain rfl := Except.ok.inj hkey
    refine ⟨hlength, ?_, length_expandedPrivateKey _, rfl⟩
    exact congrArg (fun vector : Seed ↦ some vector.toList)
      ((mlDsa parameterSet).asSeed_fromSeed ⟨seed, hlength⟩)
  of_fromExpandedPrivateKey := by
    intro expanded key hkey
    obtain hkey : fromExpandedPrivateKey mlDsa.base parameterSet expanded = .ok key := hkey
    obtain ⟨inner, hinner, hpure⟩ := bind_eq_ok_iff.mp hkey
    obtain rfl := pure_eq_ok_iff.mp hpure
    obtain ⟨decoded, verifyingKey, hmaterial, hlength, hexpanded⟩ :=
      exists_of_importExpanded (MlDsaKey.fromExpanded_eq_ok_iff.mp hinner)
    refine ⟨hlength, ?_, ?_, rfl⟩
    · show inner.seed.map _ = none
      rw [MlDsaKey.seed, hmaterial]
      rfl
    · show (mlDsa.base parameterSet).toExpanded inner.expandedKey = expanded
      rw [MlDsaKey.expandedKey, hmaterial]
      exact hexpanded

end MlDsaPrivateKey

/-! ### The result -/

/-- The import routes of the private keys agree, and what is exported is imported as the same key.
The randomness of the pairwise test of ML-KEM does not matter.

Assumes of the third-party keys that they keep the seed they come from, that what was decoded is
encoded as it was, and that the pairwise test of ML-KEM does not depend on its randomness; and
the laws of `DerLibrary`. -/
theorem importRoutes_agree (der : DerLibrary) (mlKem : MlKemKeyLibraries)
    (mlDsa : MlDsaKeyLibraries) :
    (∀ parameterSet randomness,
      (MlKemPrivateKey.routes mlKem parameterSet der (some randomness)).RoutesAgree der
          parameterSet.algorithm 64 parameterSet.expandedPrivateKeyLength ∧
        ∀ randomness', MlKemPrivateKey.routes mlKem parameterSet der (some randomness') =
          MlKemPrivateKey.routes mlKem parameterSet der (some randomness)) ∧
      ∀ parameterSet, (MlDsaPrivateKey.routes mlDsa parameterSet der).RoutesAgree der
        parameterSet.algorithm 32 parameterSet.expandedPrivateKeyLength := by
  constructor
  · intro parameterSet randomness
    refine ⟨?_, fun randomness' ↦ ?_⟩
    · rw [MlKemPrivateKey.routes_eq]
      exact (MlKemPrivateKey.keyPolicy_lawful _).routesAgree der
    · have hpolicy : MlKemPrivateKey.keyPolicy mlKem parameterSet (some randomness') =
          MlKemPrivateKey.keyPolicy mlKem parameterSet (some randomness) := by
        rw [MlKemPrivateKey.keyPolicy, MlKemPrivateKey.keyPolicy]
        congr 1
        exact funext (MlKemPrivateKey.fromExpandedPrivateKey_randomness randomness' randomness)
      rw [MlKemPrivateKey.routes_eq, MlKemPrivateKey.routes_eq, hpolicy]
  · intro parameterSet
    rw [MlDsaPrivateKey.routes_eq]
    exact MlDsaPrivateKey.keyPolicy_lawful.routesAgree der

/-- A key encapsulation that stores seeds and expanded keys as they are, and decodes every expanded
key. -/
def storedMlKem (parameterSet : MlKemParameterSet) : MlKemKeyLibrary parameterSet where
  DecapsulationKey := List.Vector UInt8 64 ⊕ List.Vector UInt8 parameterSet.expandedPrivateKeyLength
  EncapsulationKey := Unit
  fromSeed := .inl
  encapsulationKey _ := ()
  toBytes _ := List.Vector.replicate _ 0
  newEncapsulationKey _ := some ()
  encapsulateDeterministic _ _ := (List.Vector.replicate _ 0, List.Vector.replicate _ 0)
  decapsulate _ _ := List.Vector.replicate _ 0
  decapsulate_encapsulate _ _ := rfl
  toSeed key := key.getLeft?
  fromExpandedBytes expanded := some (.inr expanded)
  toExpandedBytes key := key.elim (fun _ ↦ List.Vector.replicate _ 0) id
  toSeed_fromSeed _ := rfl
  toSeed_fromExpandedBytes hkey := by
    obtain rfl := Option.some.inj hkey
    rfl
  toExpandedBytes_fromExpandedBytes hkey := by
    obtain rfl := Option.some.inj hkey
    rfl
  pairwiseTest_randomness _ _ _ _ := Iff.rfl

/-- Bytes of the length of a seed are no expanded key as a component, whose length is checked, and a
seed in the raw storage. -/
theorem not_fromSerialized_iff :
    ¬ ((∃ key, MlKemPrivateKey.fromSerialized storedMlKem .mlKem512
          (some (List.Vector.replicate 32 0)) (List.replicate 64 0) = .ok key) ↔
        ∃ key, MlKemPrivateKey.fromComponents storedMlKem .mlKem512
          (some (List.Vector.replicate 32 0)) none (some (List.replicate 64 0)) = .ok key) := by
  intro hagree
  obtain ⟨key, hkey⟩ := hagree.mp ⟨⟨.mlKem512, .inl (List.Vector.replicate 64 0)⟩, rfl⟩
  have hlength := MlKemPrivateKey.length_of_fromExpandedPrivateKey hkey
  rw [List.length_replicate] at hlength
  exact absurd hlength (by decide)

end SoftwareKeyCore.PostQuantum
