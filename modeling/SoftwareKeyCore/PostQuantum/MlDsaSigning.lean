import SoftwareKeyCore.PostQuantum.MlDsaPrehash
import SoftwareKeyCore.PostQuantum.MlDsaValidation

/-!
# ML-DSA signatures

`post_quantum.rs`: `MlDsaPrivateKey::sign` and `sign_prehash` with their randomization, and the
verifications `verify_ml_dsa` and `verify_ml_dsa_prehash`. The signing and the verification of FIPS
204 are third-party code (`SigningFunctions`), with the documented relation between their external
and internal forms. The system's random source is a parameter: the bytes it gives a call, or none.

FIPS 204 promises that what is signed verifies for the keys it generates (`IsGenuineKey`): those
that a seed expands to, and those decoded from a consistent encoding that names the hash of its own
public key. An imported key is one of them because its import validated it
(`isGenuineKey_of_importExpanded`).

One key signs messages and digests. What a call signs is a `Subject`, and the internal functions see
its input, which determines it (`Subject.eq_of_input`). `signatures_of_run` is what follows for
every sequence of calls: the signatures they answer verify, and whatever else verifies is a forgery
of the internal scheme.
-/

set_option autoImplicit false
set_option relaxedAutoImplicit false

namespace SoftwareKeyCore.PostQuantum

open BitPacking ByteString FallibleResult MlDsaValidation NegacyclicRing TabulatedList

/-- `MlDsaRandomization`. -/
inductive MlDsaRandomization
  | deterministic
  | randomized
  | hedgePreferred
  deriving DecidableEq, Repr

/-- The bytes that the random source gives a call, if any. -/
abbrev Randomizer := List.Vector UInt8 32

/-! ### Genuine keys -/

section Genuine

variable {parameterSet : MlDsaParameterSet} (mlDsa : MlDsaLibrary parameterSet)

/-- A key of FIPS 204: the expansion of a seed, or decoded from a consistent encoding with the hash
of its public key. -/
inductive IsGenuineKey (shake128 : ByteString → ℕ → UInt8) : mlDsa.ExpandedSigningKey → Prop
  | ofSeed (key : mlDsa.SigningKey) : IsGenuineKey shake128 (mlDsa.expandedKey key)
  | ofEncoding {encoded : ByteString}
      (hlength : encoded.length = parameterSet.expandedPrivateKeyLength)
      (hconsistent : IsConsistent parameterSet shake128 (splitExpanded parameterSet encoded))
      (htr : (splitExpanded parameterSet encoded).tr = (mlDsa.shake256
        (mlDsa.encodeVerifyingKey (mlDsa.verifyingKey (mlDsa.fromExpanded encoded)))).toList) :
      IsGenuineKey shake128 (mlDsa.fromExpanded encoded)

/-- The validation of the import is `ml_dsa_validation::validate`, with the packings and the stream
of SHAKE128 it uses. -/
structure ImportValidation where
  params : MlDsaParams parameterSet
  shake128 : ByteString → ℕ → UInt8
  returns_validate : ∀ encoded : List.Vector UInt8 parameterSet.expandedPrivateKeyLength,
    (MlDsaValidation.validate params shake128 encoded).Returns (mlDsa.validate encoded.toList)

variable {mlDsa}

/-- What the import accepts is a genuine key: the encoding is consistent, and it names the hash of
the public key. -/
theorem isGenuineKey_of_importExpanded (validation : ImportValidation mlDsa) {encoded : ByteString}
    {key : mlDsa.ExpandedSigningKey} {verifyingKey : mlDsa.VerifyingKey}
    (himport : importExpanded mlDsa encoded = .ok (.expanded key verifyingKey)) :
    IsGenuineKey mlDsa validation.shake128 key := by
  unfold importExpanded decodeExpandedMlDsa at himport
  simp only [bind_eq_ok_iff, ite_error_eq_ok_iff, pure_eq_ok_iff] at himport
  obtain ⟨decoded, ⟨hlength, ⟨⟩, hvalidate, rfl⟩, htr, signature, -, -, hmaterial⟩ := himport
  obtain ⟨rfl, -⟩ := MlDsaKeyMaterial.expanded.inj hmaterial
  have hreturns := validation.returns_validate ⟨encoded, not_not.mp hlength⟩
  rw [show mlDsa.validate (List.Vector.toList ⟨encoded, not_not.mp hlength⟩) = .ok () from
    hvalidate] at hreturns
  exact .ofEncoding (not_not.mp hlength) (returns_validate_ok_iff.mp hreturns) (not_not.mp htr).symm

/-- Every key is genuine: a seed is expanded, and an encoding was imported. -/
theorem MlDsaKey.isGenuineKey (validation : ImportValidation mlDsa) (key : MlDsaKey mlDsa) :
    IsGenuineKey mlDsa validation.shake128 key.expandedKey := by
  obtain ⟨material, hvalidated⟩ := key
  cases material with
  | seeded key => exact .ofSeed key
  | expanded key verifyingKey =>
    obtain ⟨encoded, hencoded⟩ := hvalidated key verifyingKey rfl
    exact isGenuineKey_of_importExpanded validation hencoded

end Genuine

/-! ### The third-party functions -/

/-- The signing and verification of the ML-DSA implementation, with their encodings: the external
forms prepend the context to the message, and what a genuine key signs verifies. -/
structure SigningFunctions {parameterSet : MlDsaParameterSet}
    (mlDsa : MlDsaLibrary parameterSet) extends ImportValidation mlDsa where
  signInternal : mlDsa.ExpandedSigningKey → (message : ByteString) → (rnd : Randomizer) →
    mlDsa.Signature
  signRandomized : mlDsa.ExpandedSigningKey → (message context : ByteString) →
    (random : Option Randomizer) → Option mlDsa.Signature
  encodeSignature : mlDsa.Signature → ByteString
  decodeSignature : ByteString → Option mlDsa.Signature
  decodeVerifyingKey : ByteString → Option mlDsa.VerifyingKey
  verifyWithContext : mlDsa.VerifyingKey → (message context : ByteString) → mlDsa.Signature → Bool
  verifyInternal : mlDsa.VerifyingKey → (message : ByteString) → mlDsa.Signature → Bool
  signDeterministic_eq : ∀ key message context, context.length ≤ 255 →
    mlDsa.signDeterministic key message context =
      some (signInternal key (MlDsaPrehash.pureInput context message) (List.Vector.replicate 32 0))
  signRandomized_eq : ∀ key message context random, context.length ≤ 255 →
    signRandomized key message context random =
      random.map (signInternal key (MlDsaPrehash.pureInput context message))
  verifyWithContext_eq : ∀ key message context signature, context.length ≤ 255 →
    verifyWithContext key message context signature =
      verifyInternal key (MlDsaPrehash.pureInput context message) signature
  decodeSignature_encodeSignature : ∀ signature,
    decodeSignature (encodeSignature signature) = some signature
  decodeVerifyingKey_encodeVerifyingKey : ∀ key,
    decodeVerifyingKey (mlDsa.encodeVerifyingKey key) = some key
  verifyInternal_signInternal : ∀ {key}, IsGenuineKey mlDsa shake128 key → ∀ message rnd,
    verifyInternal (mlDsa.verifyingKey key) message (signInternal key message rnd) = true

variable {mlDsa : (parameterSet : MlDsaParameterSet) → MlDsaLibrary parameterSet}
  (signing : (parameterSet : MlDsaParameterSet) → SigningFunctions (mlDsa parameterSet))

/-! ### Signing -/

namespace MlDsaPrivateKey

/-- `MlDsaPrivateKey::sign`. -/
def sign (key : MlDsaPrivateKey mlDsa) (message context : ByteString)
    (randomization : MlDsaRandomization) (random : Option Randomizer) :
    Except MlDsaError ByteString :=
  if 255 < context.length then .error .invalidContext
  else do
    let expanded := key.key.expandedKey
    let signature ←
      match randomization with
      | .deterministic =>
        orError .signingFailed
          ((mlDsa key.parameterSet).signDeterministic expanded message context)
      | .randomized =>
        orError .randomnessUnavailable
          ((signing key.parameterSet).signRandomized expanded message context random)
      | .hedgePreferred =>
        orError .signingFailed
          (((signing key.parameterSet).signRandomized expanded message context random).or
            ((mlDsa key.parameterSet).signDeterministic expanded message context))
    .ok ((signing key.parameterSet).encodeSignature signature)

/-- `MlDsaPrivateKey::sign_prehash`. -/
def signPrehash (key : MlDsaPrivateKey mlDsa) (digest context : ByteString) (hash : MlDsaPrehash)
    (randomization : MlDsaRandomization) (random : Option Randomizer) :
    Except MlDsaError ByteString := do
  let message ← hash.encode digest context
  let rnd ←
    if randomization = .deterministic then .ok (List.Vector.replicate 32 0)
    else
      match random with
      | some randomizer => .ok randomizer
      | none =>
        if randomization = .randomized then .error .randomnessUnavailable
        -- The buffer may be partially filled: it is reset.
        else .ok (List.Vector.replicate 32 0)
  .ok ((signing key.parameterSet).encodeSignature
    ((signing key.parameterSet).signInternal key.key.expandedKey message rnd))

/-- `MlDsaPrivateKey::sign_hedged`. -/
def signHedged (key : MlDsaPrivateKey mlDsa) (message context : ByteString)
    (random : Option Randomizer) : Except MlDsaError ByteString :=
  key.sign signing message context .hedgePreferred random

/-- `MlDsaPrivateKey::sign_deterministic`. -/
def signDeterministic (key : MlDsaPrivateKey mlDsa) (message context : ByteString) :
    Except MlDsaError ByteString :=
  key.sign signing message context .deterministic none

end MlDsaPrivateKey

/-! ### Verification -/

/-- `verify_ml_dsa`. -/
def verifyMlDsa (parameterSet : MlDsaParameterSet)
    (publicKey message context signature : ByteString) : Except MlDsaError Unit :=
  if 255 < context.length then .error .invalidContext
  else do
    let key ← orError .invalidPublicKey ((signing parameterSet).decodeVerifyingKey publicKey)
    let signature ← orError .invalidSignature ((signing parameterSet).decodeSignature signature)
    if (signing parameterSet).verifyWithContext key message context signature then .ok ()
    else .error .invalidSignature

/-- `verify_ml_dsa_prehash`. -/
def verifyMlDsaPrehash (parameterSet : MlDsaParameterSet)
    (publicKey message context signature : ByteString) (hash : MlDsaPrehash) :
    Except MlDsaError Unit :=
  if 255 < context.length then .error .invalidContext
  else do
    let message ← hash.encode message context
    let key ← orError .invalidPublicKey ((signing parameterSet).decodeVerifyingKey publicKey)
    let signature ← orError .invalidSignature ((signing parameterSet).decodeSignature signature)
    if (signing parameterSet).verifyInternal key message signature then .ok ()
    else .error .invalidSignature

/-! ### What a call signs -/

/-- What a call signs: a message, or a digest of a hash function, with a context. -/
inductive Subject
  | ofMessage (message context : ByteString)
  | ofDigest (hash : MlDsaPrehash) (digest context : ByteString)

namespace Subject

/-- The input that the internal functions see. -/
def input : (subject : Subject) → Except MlDsaError ByteString
  | ofMessage message context =>
    if 255 < context.length then .error .invalidContext
    else .ok (MlDsaPrehash.pureInput context message)
  | ofDigest hash digest context => hash.encode digest context

/-- The signing of a subject. -/
def sign (key : MlDsaPrivateKey mlDsa) (subject : Subject) (randomization : MlDsaRandomization)
    (random : Option Randomizer) : Except MlDsaError ByteString :=
  match subject with
  | ofMessage message context => key.sign signing message context randomization random
  | ofDigest hash digest context => key.signPrehash signing digest context hash randomization random

/-- The verification of a subject. -/
def verify (parameterSet : MlDsaParameterSet) (publicKey : ByteString) (subject : Subject)
    (signature : ByteString) : Except MlDsaError Unit :=
  match subject with
  | ofMessage message context =>
    verifyMlDsa signing parameterSet publicKey message context signature
  | ofDigest hash digest context =>
    verifyMlDsaPrehash signing parameterSet publicKey digest context signature hash

end Subject

/-- The bytes a call is randomized with: zeros for the deterministic variant, to which a preferred
hedge falls back. -/
def randomizerOf : (randomization : MlDsaRandomization) → (random : Option Randomizer) →
    Option Randomizer
  | .deterministic, _ => some (List.Vector.replicate 32 0)
  | .randomized, random => random
  | .hedgePreferred, random => some (random.getD (List.Vector.replicate 32 0))

theorem randomizerOf_eq_none_iff {randomization : MlDsaRandomization}
    {random : Option Randomizer} :
    randomizerOf randomization random = none ↔ randomization = .randomized ∧ random = none := by
  cases randomization with
  | deterministic => exact iff_of_false (Option.some_ne_none _) (by simp)
  | randomized => exact (and_iff_right rfl).symm
  | hedgePreferred => exact iff_of_false (Option.some_ne_none _) (by simp)

/-! ### The internal functions behind the calls -/

section Calls

variable {signing} {key : MlDsaPrivateKey mlDsa} {subject subject' : Subject}
  {input signature : ByteString}

/-- The public key of a key is that of its expanded form, imported or not. -/
theorem MlDsaPrivateKey.publicKey_eq (key : MlDsaPrivateKey mlDsa) :
    key.publicKey = (mlDsa key.parameterSet).encodeVerifyingKey
      ((mlDsa key.parameterSet).verifyingKey key.key.expandedKey) := by
  obtain ⟨parameterSet, material, hvalidated⟩ := key
  cases material with
  | seeded key => rfl
  | expanded key verifyingKey =>
    obtain ⟨encoded, hencoded⟩ := hvalidated key verifyingKey rfl
    unfold importExpanded at hencoded
    simp only [bind_eq_ok_iff, ite_error_eq_ok_iff, pure_eq_ok_iff] at hencoded
    obtain ⟨decoded, -, -, signature, -, -, hmaterial⟩ := hencoded
    obtain ⟨rfl, rfl⟩ := MlDsaKeyMaterial.expanded.inj hmaterial
    rfl

/-- A message with an admissible context is signed by the internal function. -/
theorem MlDsaPrivateKey.sign_eq {message context : ByteString}
    (hcontext : context.length ≤ 255) {randomization : MlDsaRandomization}
    {random : Option Randomizer} :
    key.sign signing message context randomization random = (do
      let rnd ← orError .randomnessUnavailable (randomizerOf randomization random)
      .ok ((signing key.parameterSet).encodeSignature
        ((signing key.parameterSet).signInternal key.key.expandedKey
          (MlDsaPrehash.pureInput context message) rnd))) := by
  rw [sign, if_neg (not_lt.mpr hcontext)]
  dsimp only
  rw [(signing key.parameterSet).signDeterministic_eq _ _ _ hcontext,
    (signing key.parameterSet).signRandomized_eq _ _ _ _ hcontext]
  cases randomization with
  | deterministic => rfl
  | randomized => cases random <;> rfl
  | hedgePreferred => cases random <;> rfl

/-- A digest is signed by the internal function on its encoding. -/
theorem MlDsaPrivateKey.signPrehash_eq {digest context : ByteString} {hash : MlDsaPrehash}
    {randomization : MlDsaRandomization} {random : Option Randomizer} :
    key.signPrehash signing digest context hash randomization random = (do
      let message ← hash.encode digest context
      let rnd ← orError .randomnessUnavailable (randomizerOf randomization random)
      .ok ((signing key.parameterSet).encodeSignature
        ((signing key.parameterSet).signInternal key.key.expandedKey message rnd))) := by
  unfold signPrehash
  cases hash.encode digest context with
  | error error => rfl
  | ok message =>
    cases randomization with
    | deterministic => rfl
    | randomized => cases random <;> rfl
    | hedgePreferred => cases random <;> rfl

/-- The signature that a call answers is that of the internal function on the subject's input. -/
theorem Subject.sign_eq_ok_iff {randomization : MlDsaRandomization} {random : Option Randomizer} :
    subject.sign signing key randomization random = .ok signature ↔
      ∃ input rnd, subject.input = .ok input ∧ randomizerOf randomization random = some rnd ∧
        (signing key.parameterSet).encodeSignature
          ((signing key.parameterSet).signInternal key.key.expandedKey input rnd) = signature := by
  cases subject with
  | ofMessage message context =>
    unfold sign input
    simp only [ite_error_eq_ok_iff, not_lt, Except.ok.injEq]
    constructor
    · intro hsigned
      have hcontext := (ite_error_eq_ok_iff.mp hsigned).1
      rw [MlDsaPrivateKey.sign_eq (not_lt.mp hcontext)] at hsigned
      obtain ⟨rnd, hrnd, hsignature⟩ := bind_eq_ok_iff.mp hsigned
      exact ⟨_, rnd, ⟨not_lt.mp hcontext, rfl⟩, orError_eq_ok_iff.mp hrnd,
        Except.ok.inj hsignature⟩
    · rintro ⟨-, rnd, ⟨hcontext, rfl⟩, hrnd, rfl⟩
      rw [MlDsaPrivateKey.sign_eq hcontext]
      exact bind_eq_ok_iff.mpr ⟨rnd, orError_eq_ok_iff.mpr hrnd, rfl⟩
  | ofDigest hash digest context =>
    unfold sign input
    dsimp only
    rw [MlDsaPrivateKey.signPrehash_eq, bind_eq_ok_iff]
    refine exists_congr fun message ↦ ?_
    rw [bind_eq_ok_iff, ← exists_and_left]
    refine exists_congr fun rnd ↦ ?_
    rw [orError_eq_ok_iff, Except.ok.injEq]

/-- A verification is that of the internal function on the subject's input. -/
theorem Subject.verify_eq_ok_iff {parameterSet : MlDsaParameterSet} {publicKey : ByteString} :
    subject.verify signing parameterSet publicKey signature = .ok () ↔
      ∃ input verifyingKey decoded, subject.input = .ok input ∧
        (signing parameterSet).decodeVerifyingKey publicKey = some verifyingKey ∧
        (signing parameterSet).decodeSignature signature = some decoded ∧
        (signing parameterSet).verifyInternal verifyingKey input decoded = true := by
  cases subject with
  | ofMessage message context =>
    unfold verify verifyMlDsa input
    simp only [ite_error_eq_ok_iff, bind_eq_ok_iff, orError_eq_ok_iff, ite_ok_eq_ok_iff, not_lt,
      Except.ok.injEq]
    constructor
    · rintro ⟨hcontext, verifyingKey, hverifyingKey, decoded, hdecoded, hverified⟩
      rw [(signing parameterSet).verifyWithContext_eq _ _ _ _ hcontext] at hverified
      exact ⟨_, verifyingKey, decoded, ⟨hcontext, rfl⟩, hverifyingKey, hdecoded, hverified⟩
    · rintro ⟨-, verifyingKey, decoded, ⟨hcontext, rfl⟩, hverifyingKey, hdecoded, hverified⟩
      rw [← (signing parameterSet).verifyWithContext_eq _ _ _ _ hcontext] at hverified
      exact ⟨hcontext, verifyingKey, hverifyingKey, decoded, hdecoded, hverified⟩
  | ofDigest hash digest context =>
    unfold verify verifyMlDsaPrehash input
    simp only [ite_error_eq_ok_iff, bind_eq_ok_iff, orError_eq_ok_iff, ite_ok_eq_ok_iff, not_lt]
    constructor
    · rintro ⟨-, input, hinput, verifyingKey, hverifyingKey, decoded, hdecoded, hverified⟩
      exact ⟨input, verifyingKey, decoded, hinput, hverifyingKey, hdecoded, hverified⟩
    · rintro ⟨input, verifyingKey, decoded, hinput, hverifyingKey, hdecoded, hverified⟩
      exact ⟨(MlDsaPrehash.encode_eq_ok_iff.mp hinput).1, input, hinput, verifyingKey,
        hverifyingKey, decoded, hdecoded, hverified⟩

/-- A context is determined by what it is prepended to. -/
theorem eq_of_pureInput {context context' message message' : ByteString}
    (hcontext : context.length ≤ 255) (hcontext' : context'.length ≤ 255)
    (hinput : MlDsaPrehash.pureInput context message = MlDsaPrehash.pureInput context' message') :
    message = message' ∧ context = context' := by
  unfold MlDsaPrehash.pureInput at hinput
  simp only [List.append_assoc] at hinput
  obtain ⟨hhead, hparts⟩ := List.append_inj hinput rfl
  have hbyte : UInt8.ofNat context.length = UInt8.ofNat context'.length :=
    (List.cons.inj (List.cons.inj hhead).2).1
  have hlength : context.length = context'.length := by
    have hvalue := congrArg UInt8.toNat hbyte
    rwa [UInt8.toNat_ofNat', UInt8.toNat_ofNat', Nat.mod_eq_of_lt (by omega),
      Nat.mod_eq_of_lt (by omega)] at hvalue
  exact (List.append_inj hparts hlength).symm

/-- The input determines the subject. -/
theorem Subject.eq_of_input (hinput : subject.input = .ok input)
    (hinput' : subject'.input = .ok input) : subject = subject' := by
  cases subject with
  | ofMessage message context =>
    obtain ⟨hcontext, hequal⟩ := ite_error_eq_ok_iff.mp hinput
    obtain rfl := Except.ok.inj hequal
    cases subject' with
    | ofMessage message' context' =>
      obtain ⟨hcontext', hequal'⟩ := ite_error_eq_ok_iff.mp hinput'
      obtain ⟨rfl, rfl⟩ := eq_of_pureInput (not_lt.mp hcontext) (not_lt.mp hcontext')
        (Except.ok.inj hequal').symm
      rfl
    | ofDigest hash digest context' =>
      exact absurd rfl (MlDsaPrehash.encode_ne_pureInput hinput' context message)
  | ofDigest hash digest context =>
    cases subject' with
    | ofMessage message' context' =>
      obtain ⟨-, hequal'⟩ := ite_error_eq_ok_iff.mp hinput'
      exact absurd (Except.ok.inj hequal').symm
        (MlDsaPrehash.encode_ne_pureInput hinput context' message')
    | ofDigest hash' digest' context' =>
      obtain ⟨rfl, rfl, rfl⟩ := MlDsaPrehash.eq_of_encode hinput hinput'
      rfl

end Calls

/-! ### Runs of calls -/

/-- A call that signs a subject. -/
structure SigningCall where
  subject : Subject
  randomization : MlDsaRandomization
  random : Option Randomizer

/-- What a call answers. -/
def SigningCall.answer (key : MlDsaPrivateKey mlDsa) (call : SigningCall) :
    Except MlDsaError ByteString :=
  call.subject.sign signing key call.randomization call.random

/-- For every sequence of calls under one key, seeded or imported: a call answers a signature unless
its subject has no input or it insists on randomness that there is not; its signature verifies for
its subject; and a signature that verifies for a subject of no call is one of the internal scheme on
an input that no call signed. Assumes the laws of `SigningFunctions`, of which the one on
verification is for genuine keys only, and that the import validates with
`ml_dsa_validation::validate`. -/
theorem signatures_of_run (key : MlDsaPrivateKey mlDsa) (calls : List SigningCall) :
    (∀ call ∈ calls, (∃ signature, call.answer signing key = .ok signature) ↔
      (∃ input, call.subject.input = .ok input) ∧
        ¬ (call.randomization = .randomized ∧ call.random = none)) ∧
    (∀ call ∈ calls, ∀ signature, call.answer signing key = .ok signature →
      call.subject.verify signing key.parameterSet key.publicKey signature = .ok ()) ∧
    ∀ subject signature,
      subject.verify signing key.parameterSet key.publicKey signature = .ok () →
        (∃ call ∈ calls, call.subject = subject) ∨
          ∃ input decoded, (signing key.parameterSet).decodeSignature signature = some decoded ∧
            (signing key.parameterSet).verifyInternal
              ((mlDsa key.parameterSet).verifyingKey key.key.expandedKey) input decoded = true ∧
            subject.input = .ok input ∧ ∀ call ∈ calls, call.subject.input ≠ .ok input := by
  refine ⟨fun call _ ↦ ?_, fun call _ signature hanswer ↦ ?_, fun subject signature hverified ↦ ?_⟩
  · unfold SigningCall.answer
    simp only [Subject.sign_eq_ok_iff]
    rw [← randomizerOf_eq_none_iff, ← ne_eq, Option.ne_none_iff_exists']
    constructor
    · rintro ⟨signature, input, rnd, hinput, hrnd, -⟩
      exact ⟨⟨input, hinput⟩, rnd, hrnd⟩
    · rintro ⟨⟨input, hinput⟩, rnd, hrnd⟩
      exact ⟨_, input, rnd, hinput, hrnd, rfl⟩
  · obtain ⟨input, rnd, hinput, -, rfl⟩ := Subject.sign_eq_ok_iff.mp hanswer
    rw [Subject.verify_eq_ok_iff, key.publicKey_eq]
    exact ⟨input, _, _, hinput,
      (signing key.parameterSet).decodeVerifyingKey_encodeVerifyingKey _,
      (signing key.parameterSet).decodeSignature_encodeSignature _,
      (signing key.parameterSet).verifyInternal_signInternal
        (key.key.isGenuineKey (signing key.parameterSet).toImportValidation) _ _⟩
  · obtain ⟨input, verifyingKey, decoded, hinput, hkey, hdecoded, hverified⟩ :=
      Subject.verify_eq_ok_iff.mp hverified
    rw [key.publicKey_eq, (signing key.parameterSet).decodeVerifyingKey_encodeVerifyingKey,
      Option.some.injEq] at hkey
    subst hkey
    by_cases hsigned : ∃ call ∈ calls, call.subject.input = .ok input
    · obtain ⟨call, hcall, hsame⟩ := hsigned
      exact Or.inl ⟨call, hcall, Subject.eq_of_input hsame hinput⟩
    · exact Or.inr ⟨input, decoded, hdecoded, hverified, hinput,
        fun call hcall hsame ↦ hsigned ⟨call, hcall, hsame⟩⟩

/-! ### Digests of streamed messages -/

/-- A state is one update further when the parts are one. -/
theorem MlDsaPrehashContext.update_update (context : MlDsaPrehashContext)
    (first second : ByteString) :
    (context.update first).update second = context.update (first ++ second) := by
  obtain ⟨hash, state⟩ := context
  cases state with
  | hash state => simp only [update, HashContext.update, List.append_assoc]
  | shake128 absorbed => simp only [update, List.append_assoc]
  | shake256 absorbed => simp only [update, List.append_assoc]

/-- The digest of a message does not depend on how it is cut into updates. -/
theorem finalize_foldl_update (functions : PrehashFunctions) (hash : MlDsaPrehash)
    (first : ByteString) (parts : List ByteString) :
    ((first :: parts).foldl MlDsaPrehashContext.update hash.context).finalize functions =
      hash.digest functions (first :: parts).flatten := by
  rw [List.foldl_cons, List.flatten_cons, MlDsaPrehash.digest]
  induction parts generalizing first with
  | nil => rw [List.foldl_nil, List.flatten_nil, List.append_nil]
  | cons part parts ih =>
    rw [List.foldl_cons, MlDsaPrehashContext.update_update, ih, List.flatten_cons,
      List.append_assoc]

/-! ### Signatures that carry their input -/

/-- The packed low parts of a vector with coefficients 2. -/
def plainLowParts : ByteString :=
  (List.ofFn fun _ : Fin (rows .mlDsa44) ↦ packFields 13 (tabulate 256 fun _ ↦ 4094)).flatten

/-- An encoding of ML-DSA-44 for the stream of zeros, under which the matrix is zero: the secrets
have coefficients 2, which are the low parts. -/
def plainEncoding : ByteString :=
  List.replicate 896 0 ++ plainLowParts

theorem slice_plainEncoding {start length : ℕ} (hstop : start + length ≤ 896) :
    slice plainEncoding start length = List.replicate length 0 := by
  rw [plainEncoding, slice_append_of_le (by rwa [List.length_replicate]), slice,
    List.drop_replicate, List.take_replicate, min_eq_left (by omega)]

theorem length_plainEncoding :
    plainEncoding.length = MlDsaParameterSet.mlDsa44.expandedPrivateKeyLength := by
  have hrow : (packFields 13 (tabulate 256 fun _ ↦ 4094)).length = 416 := by
    rw [packFields, length_toLeBytes, length_tabulate]
  rw [plainEncoding, List.length_append, List.length_replicate, plainLowParts, List.ofFn_const,
    List.length_flatten, List.map_replicate, List.sum_replicate, hrow]
  rfl

theorem splitExpanded_plainEncoding : splitExpanded .mlDsa44 plainEncoding =
    { rho := List.replicate 32 0
      key := List.replicate 32 0
      tr := List.replicate 64 0
      s1 := List.replicate 384 0
      s2 := List.replicate 384 0
      t0 := plainLowParts } := by
  have hwidth : secretWidth .mlDsa44 = 3 := by decide
  have hlast : slice plainEncoding 896 1664 = plainLowParts := by
    have hlength := length_plainEncoding
    rw [plainEncoding, List.length_append, List.length_replicate,
      MlDsaParameterSet.expandedPrivateKeyLength] at hlength
    rw [slice, plainEncoding, List.drop_left' List.length_replicate,
      List.take_of_length_le (by omega)]
  simp only [splitExpanded, hwidth, rows, columns]
  rw [slice_plainEncoding (by norm_num), slice_plainEncoding (by norm_num),
    slice_plainEncoding (by norm_num), slice_plainEncoding (by norm_num),
    slice_plainEncoding (by norm_num), hlast]

/-- The codes of zero bytes are zero. -/
theorem secretCode_replicate (parameterSet : MlDsaParameterSet) (length row index : ℕ) :
    secretCode parameterSet (List.replicate length 0) row index = 0 := by
  have hzero : fromLeBytes (List.replicate length 0) = 0 := by
    have happend := fromBeBytes_replicate_zero_append length []
    rwa [List.append_nil, fromBeBytes_nil, ← List.reverse_replicate] at happend
  rw [secretCode, bitField, hzero, Nat.zero_div, Nat.zero_mod]

/-- The zero matrix is what the stream of zeros expands to. -/
theorem isExpandA_zero {rowCount columnCount : ℕ} (rho : ByteString) :
    IsExpandA (fun _ _ ↦ 0) rho (0 : Matrix (Fin rowCount) (Fin columnCount) Polynomials) := by
  intro row column
  have hsample : IsRejectionSample (fun _ ↦ 0) fun _ ↦ 0 := ⟨256, by decide +kernel⟩
  refine ⟨fun _ ↦ 0, hsample, fun index _ ↦ ?_⟩
  rw [Matrix.zero_apply, map_zero, Nat.cast_zero]

/-- The packed low parts of a vector whose coefficients are all the same. -/
theorem packedLowParts_of_coefficient {count : ℕ} {vector : Fin count → Polynomials} {value : Elem}
    (hvector : ∀ row, ∀ index < 256, coefficient (vector row) index = value) :
    packedLowParts vector = (List.ofFn fun _ : Fin count ↦
      packFields 13 (tabulate 256 fun _ ↦ lowPartCode (lowPart value))).flatten := by
  rw [packedLowParts]
  refine congrArg (fun rows ↦ (List.ofFn rows).flatten) (funext fun row ↦ congrArg _ ?_)
  exact tabulate_congr fun index hindex ↦ by rw [hvector row index hindex]

theorem isConsistent_plainEncoding :
    IsConsistent .mlDsa44 (fun _ _ ↦ 0) (splitExpanded .mlDsa44 plainEncoding) := by
  rw [splitExpanded_plainEncoding]
  have hcodes : ∀ count, ValidCodes .mlDsa44 (List.replicate 384 0) count := by
    intro count row _ index _
    rw [secretCode_replicate]
    exact Nat.zero_le _
  refine ⟨hcodes _, hcodes _, 0, isExpandA_zero _, ?_⟩
  have hcoefficient : ∀ row, ∀ index < 256,
      secretCoefficient .mlDsa44 (List.replicate 384 0) row index = 2 := by
    intro row index _
    rw [secretCoefficient, secretCode_replicate, Nat.cast_zero, sub_zero, eta, Nat.cast_ofNat]
  have hlow : lowPartCode (lowPart 2) = 4094 := by
    have hvalue : (2 : Elem).val = 2 := ZMod.val_ofNat_of_lt (by rw [q_eq]; norm_num)
    rw [lowPart, hvalue]
    decide
  rw [publicVector, Matrix.zero_mulVec, zero_add, @packedLowParts_of_coefficient _ _ 2, hlow,
    plainLowParts]
  intro row index hindex
  have hsize : index < 2 ^ 8 := hindex
  rw [secretVector, coefficient_ofCoefficients _ hsize, hcoefficient row index hindex]

open Classical in
/-- Keys that are seeds, with signatures that are an input and the bytes it was randomized with. The
validation is for the stream of zeros. -/
noncomputable def plainMlDsa (parameterSet : MlDsaParameterSet) : MlDsaLibrary parameterSet where
  SigningKey := Seed
  ExpandedSigningKey := List.Vector UInt8 parameterSet.expandedPrivateKeyLength
  VerifyingKey := ByteString
  Signature := ByteString × Randomizer
  fromSeed seed := seed
  asSeed key := key
  expandedKey _ := List.Vector.replicate _ 5
  verifyingKey := List.Vector.toList
  encodeVerifyingKey := id
  validate encoded :=
    if IsConsistent parameterSet (fun _ _ ↦ 0) (splitExpanded parameterSet encoded) then .ok ()
    else .error .invalidExpandedPrivateKey
  fromExpanded encoded := (tryInto _ encoded).getD (List.Vector.replicate _ 5)
  toExpanded key := key.val
  shake256 _ := List.Vector.replicate 64 0
  signDeterministic _ message context :=
    some (MlDsaPrehash.pureInput context message, List.Vector.replicate 32 0)
  verify _ message signature := signature.1 = MlDsaPrehash.pureInput [] message
  fromSeed_asSeed _ := rfl
  length_toExpanded key := key.property
  toExpanded_fromExpanded {encoded} hlength _ := by
    have hkey : tryInto _ encoded = some ⟨encoded, hlength⟩ := tryInto_eq_some_iff.mpr rfl
    rw [hkey]
    rfl

theorem fromExpanded_plainMlDsa {parameterSet : MlDsaParameterSet} {encoded : ByteString}
    (hlength : encoded.length = parameterSet.expandedPrivateKeyLength) :
    (plainMlDsa parameterSet).fromExpanded encoded = ⟨encoded, hlength⟩ := by
  have hkey : tryInto _ encoded = some ⟨encoded, hlength⟩ := tryInto_eq_some_iff.mpr rfl
  show (tryInto _ encoded).getD _ = _
  rw [hkey]
  rfl

/-- The validation of `plainMlDsa`, with the packings of the format. -/
noncomputable def plainValidation (parameterSet : MlDsaParameterSet) :
    ImportValidation (plainMlDsa parameterSet) where
  params := .standard parameterSet
  shake128 _ _ := 0
  returns_validate encoded := by
    unfold plainMlDsa
    dsimp only
    split_ifs with hconsistent
    · exact returns_validate_ok_iff.mpr hconsistent
    · exact (returns_validate_of_isExpandA (isExpandA_zero _)).resolve_left fun hreturns ↦
        hconsistent (returns_validate_ok_iff.mp hreturns)

/-- The signing of `plainMlDsa`, with the randomizer at the end of an encoded signature. -/
noncomputable def plainSigning (parameterSet : MlDsaParameterSet) :
    SigningFunctions (plainMlDsa parameterSet) where
  toImportValidation := plainValidation parameterSet
  signInternal _ message rnd := (message, rnd)
  signRandomized _ message context random :=
    random.map fun rnd ↦ (MlDsaPrehash.pureInput context message, rnd)
  encodeSignature signature := signature.2.toList ++ signature.1
  decodeSignature encoded := (tryInto 32 (encoded.take 32)).map fun rnd ↦ (encoded.drop 32, rnd)
  decodeVerifyingKey := some
  verifyWithContext _ message context signature :=
    signature.1 = MlDsaPrehash.pureInput context message
  verifyInternal _ message signature := signature.1 = message
  signDeterministic_eq _ _ _ _ := rfl
  signRandomized_eq _ _ _ _ _ := rfl
  verifyWithContext_eq _ _ _ _ _ := rfl
  decodeSignature_encodeSignature signature := by
    obtain ⟨message, rnd⟩ := signature
    rw [List.take_left' rnd.toList_length, List.drop_left' rnd.toList_length, tryInto_toList]
    rfl
  decodeVerifyingKey_encodeVerifyingKey _ := rfl
  verifyInternal_signInternal _ _ _ := decide_eq_true rfl

/-- A key of `plainMlDsa` with a seed. -/
noncomputable def plainKey : MlDsaPrivateKey plainMlDsa where
  parameterSet := .mlDsa44
  key := .fromSeed (List.Vector.replicate 32 5)

/-- The import of `plainEncoding`. -/
theorem importExpanded_plainEncoding : importExpanded (plainMlDsa .mlDsa44) plainEncoding =
    .ok (.expanded ⟨plainEncoding, length_plainEncoding⟩ plainEncoding) := by
  have hvalidate : (plainMlDsa .mlDsa44).validate plainEncoding = .ok () :=
    if_pos isConsistent_plainEncoding
  have htr : List.replicate 64 0 = slice plainEncoding 64 64 :=
    (slice_plainEncoding (by norm_num)).symm
  refine bind_eq_ok_iff.mpr ⟨_, ite_error_eq_ok_iff.mpr ⟨not_not.mpr length_plainEncoding,
    bind_eq_ok_iff.mpr ⟨(), hvalidate,
      congrArg Except.ok (fromExpanded_plainMlDsa length_plainEncoding)⟩⟩, ?_⟩
  refine ite_error_eq_ok_iff.mpr ⟨not_not.mpr htr, ?_⟩
  exact bind_eq_ok_iff.mpr ⟨_, rfl, ite_error_eq_ok_iff.mpr
    ⟨not_not.mpr (decide_eq_true rfl), rfl⟩⟩

/-- A key of `plainMlDsa` that was imported. -/
noncomputable def plainImportedKey : MlDsaPrivateKey plainMlDsa where
  parameterSet := .mlDsa44
  key :=
    { material := .expanded ⟨plainEncoding, length_plainEncoding⟩ plainEncoding
      validated := by
        rintro key verifyingKey -
        exact ⟨plainEncoding, importExpanded_plainEncoding⟩ }

/-- A message that is signed without randomness, with the hedge preferred, verifies under a key with
a seed and under an imported one. -/
theorem signatures_of_run_plain :
    (Subject.ofMessage [7] [1]).verify plainSigning .mlDsa44 plainKey.publicKey
        (List.replicate 32 0 ++ [0, 1, 1, 7]) = .ok () ∧
      (Subject.ofMessage [7] [1]).verify plainSigning .mlDsa44 plainImportedKey.publicKey
        (List.replicate 32 0 ++ [0, 1, 1, 7]) = .ok () :=
  ⟨(signatures_of_run plainSigning plainKey
      [⟨.ofMessage [7] [1], .hedgePreferred, none⟩]).2.1 _ List.mem_cons_self _ rfl,
    (signatures_of_run plainSigning plainImportedKey
      [⟨.ofMessage [7] [1], .hedgePreferred, none⟩]).2.1 _ List.mem_cons_self _ rfl⟩

end SoftwareKeyCore.PostQuantum
