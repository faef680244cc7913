import SoftwareKeyCore.Foundation.ByteString
import SoftwareKeyCore.Foundation.FallibleResult

/-!
# ML-KEM

`post_quantum.rs`: the public keys, the deterministic encapsulation and the decapsulation of
ML-KEM. The ML-KEM implementation is third-party code (`MlKemLibrary`) whose encodings have the
declared lengths, with the law that a key derived from a seed decapsulates what is encapsulated to
its public key. `mlKemDecapsulate_of_encapsulate` is that law for the byte strings of the interface.
-/

set_option autoImplicit false
set_option relaxedAutoImplicit false

namespace SoftwareKeyCore.PostQuantum

open ByteString FallibleResult

/-- `MlKemParameterSet`. -/
inductive MlKemParameterSet
  | mlKem512
  | mlKem768
  | mlKem1024
  deriving DecidableEq, Repr

namespace MlKemParameterSet

/-- `MlKemParameterSet::public_key_length`. -/
def publicKeyLength : MlKemParameterSet → ℕ
  | mlKem512 => 800
  | mlKem768 => 1184
  | mlKem1024 => 1568

/-- `MlKemParameterSet::ciphertext_length`. -/
def ciphertextLength : MlKemParameterSet → ℕ
  | mlKem512 => 768
  | mlKem768 => 1088
  | mlKem1024 => 1568

end MlKemParameterSet

/-- `MlKemError`. -/
inductive MlKemError
  | invalidSeedLength
  | invalidExpandedPrivateKey
  | invalidPublicKey
  | invalidCiphertext
  | invalidPrivateKey
  | randomnessUnavailable
  | encodingFailed
  deriving DecidableEq, Repr

/-- The ML-KEM implementation for a parameter set. -/
structure MlKemLibrary (parameterSet : MlKemParameterSet) where
  DecapsulationKey : Type
  EncapsulationKey : Type
  fromSeed : List.Vector UInt8 64 → DecapsulationKey
  encapsulationKey : DecapsulationKey → EncapsulationKey
  toBytes : EncapsulationKey → List.Vector UInt8 parameterSet.publicKeyLength
  newEncapsulationKey : List.Vector UInt8 parameterSet.publicKeyLength → Option EncapsulationKey
  encapsulateDeterministic : EncapsulationKey → (randomness : List.Vector UInt8 32) →
    List.Vector UInt8 parameterSet.ciphertextLength × List.Vector UInt8 32
  decapsulate : DecapsulationKey → List.Vector UInt8 parameterSet.ciphertextLength →
    List.Vector UInt8 32
  decapsulate_encapsulate : ∀ {seed key} (randomness),
    newEncapsulationKey (toBytes (encapsulationKey (fromSeed seed))) = some key →
      decapsulate (fromSeed seed) (encapsulateDeterministic key randomness).1 =
        (encapsulateDeterministic key randomness).2

/-- The ML-KEM implementation. -/
abbrev MlKemLibraries := (parameterSet : MlKemParameterSet) → MlKemLibrary parameterSet

variable (mlKem : MlKemLibraries)

/-- `MlKemPrivateKey`. -/
structure MlKemPrivateKey where
  parameterSet : MlKemParameterSet
  key : (mlKem parameterSet).DecapsulationKey

namespace MlKemPrivateKey

/-- `MlKemPrivateKey::from_seed`. -/
def fromSeed (parameterSet : MlKemParameterSet) (seed : List.Vector UInt8 64) :
    MlKemPrivateKey mlKem :=
  ⟨parameterSet, (mlKem parameterSet).fromSeed seed⟩

variable {mlKem}

/-- `MlKemPrivateKey::public_key`. -/
def publicKey (privateKey : MlKemPrivateKey mlKem) : ByteString :=
  let library := mlKem privateKey.parameterSet
  (library.toBytes (library.encapsulationKey privateKey.key)).toList

/-- `MlKemPrivateKey::decapsulate`. -/
def decapsulate (privateKey : MlKemPrivateKey mlKem) (ciphertext : ByteString) :
    Except MlKemError ByteString := do
  let ciphertext ← orError .invalidCiphertext (tryInto _ ciphertext)
  .ok ((mlKem privateKey.parameterSet).decapsulate privateKey.key ciphertext).toList

end MlKemPrivateKey

/-- `ml_kem_encapsulate_deterministic`. -/
def mlKemEncapsulateDeterministic (parameterSet : MlKemParameterSet) (publicKey : ByteString)
    (randomness : List.Vector UInt8 32) : Except MlKemError (ByteString × ByteString) := do
  let encoded ← orError .invalidPublicKey (tryInto _ publicKey)
  let key ← orError .invalidPublicKey ((mlKem parameterSet).newEncapsulationKey encoded)
  let (ciphertext, shared) := (mlKem parameterSet).encapsulateDeterministic key randomness
  .ok (ciphertext.toList, shared.toList)

variable {mlKem} {parameterSet : MlKemParameterSet}

@[simp] theorem MlKemPrivateKey.length_publicKey (privateKey : MlKemPrivateKey mlKem) :
    privateKey.publicKey.length = privateKey.parameterSet.publicKeyLength :=
  List.Vector.toList_length _

/-- What an encapsulation answers. -/
theorem mlKemEncapsulateDeterministic_eq_ok_iff {publicKey ciphertext shared : ByteString}
    {randomness : List.Vector UInt8 32} :
    mlKemEncapsulateDeterministic mlKem parameterSet publicKey randomness =
        .ok (ciphertext, shared) ↔
      ∃ encoded : List.Vector UInt8 parameterSet.publicKeyLength, encoded.toList = publicKey ∧
      ∃ key, (mlKem parameterSet).newEncapsulationKey encoded = some key ∧
        ((mlKem parameterSet).encapsulateDeterministic key randomness).1.toList = ciphertext ∧
        ((mlKem parameterSet).encapsulateDeterministic key randomness).2.toList = shared := by
  simp only [mlKemEncapsulateDeterministic, bind_eq_ok_iff, orError_eq_ok_iff, tryInto_eq_some_iff,
    Except.ok.injEq, Prod.mk.injEq]

/-- A ciphertext has the declared length. -/
theorem length_of_mlKemEncapsulateDeterministic {publicKey ciphertext shared : ByteString}
    {randomness : List.Vector UInt8 32}
    (hencapsulate : mlKemEncapsulateDeterministic mlKem parameterSet publicKey randomness =
      .ok (ciphertext, shared)) :
    ciphertext.length = parameterSet.ciphertextLength := by
  obtain ⟨-, -, key, -, hciphertext, -⟩ := mlKemEncapsulateDeterministic_eq_ok_iff.mp hencapsulate
  rw [← hciphertext, List.Vector.toList_length]

/-- A key derived from a seed decapsulates what is encapsulated to its public key. -/
theorem mlKemDecapsulate_of_encapsulate {seed : List.Vector UInt8 64}
    {ciphertext shared : ByteString}
    {randomness : List.Vector UInt8 32}
    (hencapsulate : mlKemEncapsulateDeterministic mlKem parameterSet
      (MlKemPrivateKey.fromSeed mlKem parameterSet seed).publicKey randomness =
        .ok (ciphertext, shared)) :
    (MlKemPrivateKey.fromSeed mlKem parameterSet seed).decapsulate ciphertext = .ok shared := by
  obtain ⟨encoded, hencoded, key, hkey, hciphertext, hshared⟩ :=
    mlKemEncapsulateDeterministic_eq_ok_iff.mp hencapsulate
  rw [List.Vector.toList_injective hencoded] at hkey
  rw [MlKemPrivateKey.decapsulate, ← hciphertext, ← hshared, bind_eq_ok_iff]
  refine ⟨((mlKem parameterSet).encapsulateDeterministic key randomness).1, ?_, ?_⟩
  · exact orError_eq_ok_iff.mpr (tryInto_toList _)
  · exact congrArg (fun secret ↦ Except.ok (List.Vector.toList secret))
      ((mlKem parameterSet).decapsulate_encapsulate randomness hkey)

end SoftwareKeyCore.PostQuantum
