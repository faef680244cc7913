import SoftwareKeyCore.HybridKem

/-!
# What a hybrid shared secret is bound to

The combiner of `hybrid_kem.rs` hashes the shared secrets of the components, the ephemeral public
key, the traditional public key and the label of the construction, one after the other and without
their lengths. Only the shared secret of the key agreement has a length that the code leaves to the
library. `Transcript.message_eq_iff` is that the hashed message still determines all of them, and
the construction as well.

Two runs of the mechanism, encapsulations or decapsulations under any keys, then have the same
shared secret exactly when they hash the same transcript (`sharedSecret_binding`), unless the two
messages collide.
-/

set_option autoImplicit false
set_option relaxedAutoImplicit false

namespace SoftwareKeyCore.HybridKem

open ByteString CheckedSlice FallibleResult PostQuantum

/-! ### The message of the combiner -/

/-- What the combiner derives a shared secret from. -/
structure Transcript where
  construction : HybridKemConstruction
  sharedPq : ByteString
  sharedT : ByteString
  ciphertextT : ByteString
  publicT : ByteString
  deriving DecidableEq, Repr

namespace Transcript

/-- The message that the combiner hashes. -/
def message (transcript : Transcript) : ByteString :=
  transcript.sharedPq ++ transcript.sharedT ++ transcript.ciphertextT ++ transcript.publicT ++
    transcript.construction.label

/-- The shared secret of a transcript. -/
def secret (libraries : HybridLibraries) (transcript : Transcript) : ByteString :=
  combine libraries transcript.construction transcript.sharedPq transcript.sharedT
    transcript.ciphertextT transcript.publicT

/-- The lengths that every run gives its transcript. The shared secret of the key agreement is as
long as the library makes it. -/
structure HasLengths (transcript : Transcript) : Prop where
  sharedPq : transcript.sharedPq.length = 32
  ciphertextT :
    transcript.ciphertextT.length = transcript.construction.traditionalPublicKeyLength
  publicT : transcript.publicT.length = transcript.construction.traditionalPublicKeyLength

end Transcript

/-- The last bytes of the labels are different. -/
theorem HybridKemConstruction.eq_of_getLast?_label {first second : HybridKemConstruction}
    (hlast : first.label.getLast? = second.label.getLast?) : first = second := by
  revert hlast
  cases first <;> cases second <;> decide +kernel

theorem HybridKemConstruction.label_ne_nil (construction : HybridKemConstruction) :
    construction.label ≠ [] := by
  cases construction <;> decide +kernel

/-- The message of the combiner determines the transcript. -/
theorem Transcript.message_eq_iff {first second : Transcript} (hfirst : first.HasLengths)
    (hsecond : second.HasLengths) : first.message = second.message ↔ first = second := by
  refine ⟨fun hmessage ↦ ?_, congrArg message⟩
  have hconstruction : first.construction = second.construction := by
    apply HybridKemConstruction.eq_of_getLast?_label
    have hlast := congrArg List.getLast? hmessage
    unfold message at hlast
    rwa [List.getLast?_append_of_ne_nil _ first.construction.label_ne_nil,
      List.getLast?_append_of_ne_nil _ second.construction.label_ne_nil] at hlast
  unfold message at hmessage
  rw [hconstruction] at hmessage
  have hpublicT := List.append_inj' (List.append_cancel_right hmessage)
    (by rw [hfirst.publicT, hsecond.publicT, hconstruction])
  have hciphertextT := List.append_inj' hpublicT.1
    (by rw [hfirst.ciphertextT, hsecond.ciphertextT, hconstruction])
  have hsharedPq := List.append_inj hciphertextT.1 (by rw [hfirst.sharedPq, hsecond.sharedPq])
  cases first
  cases second
  obtain rfl := hconstruction
  obtain rfl := hpublicT.2
  obtain rfl := hciphertextT.2
  obtain rfl := hsharedPq.1
  obtain rfl := hsharedPq.2
  rfl

/-! ### The runs of the mechanism -/

/-- A run that establishes a shared secret. -/
inductive Run
  | encapsulation (construction : HybridKemConstruction) (publicKey randomness : ByteString)
  | decapsulation (privateKey : HybridKemPrivateKey) (ciphertext : ByteString)

namespace Run

variable (libraries : HybridLibraries)

/-- The shared secret of a run. -/
def secret : (run : Run) → Except HybridKemError ByteString
  | encapsulation construction publicKey randomness => do
    let (_, shared) ← hybridKemEncapsulateDeterministic libraries construction publicKey randomness
    .ok shared
  | decapsulation privateKey ciphertext =>
    HybridKemPrivateKey.decapsulate libraries privateKey ciphertext

/-- The transcript of a run: what the code computes up to the call of the combiner. -/
def transcript : (run : Run) → Except HybridKemError Transcript
  | encapsulation construction publicKey randomness =>
    if publicKey.length ≠ construction.publicKeyLength then .error .invalidPublicKey
    else if randomness.length ≠ construction.encapsulationRandomnessLength then
      .error .invalidRandomnessLength
    else do
      let pqPublicLength := construction.mlKem.publicKeyLength
      let publicPq := publicKey.take pqPublicLength
      let publicT := publicKey.drop pqPublicLength
      validateTraditionalPublic libraries construction publicT
      let randomnessPq ← orError .invalidRandomnessLength (tryInto 32 (randomness.take 32))
      let (_, sharedPq) ←
        (mlKemEncapsulateDeterministic libraries.mlKem construction.mlKem publicPq
          randomnessPq).mapError .ofMlKemError
      let ephemeral ← TraditionalPrivate.fromSeed libraries construction (randomness.drop 32)
      let sharedT ← ephemeral.derive publicT
      .ok ⟨construction, sharedPq, sharedT, ephemeral.publicKey, publicT⟩
  | decapsulation privateKey ciphertext =>
    if ciphertext.length ≠ privateKey.construction.ciphertextLength then .error .invalidCiphertext
    else do
      let components ← expandPrivate libraries privateKey.construction privateKey.seed
      let pqLength := privateKey.construction.mlKem.ciphertextLength
      let ciphertextT := ciphertext.drop pqLength
      let sharedPq ←
        (components.mlKem.decapsulate (ciphertext.take pqLength)).mapError .ofMlKemError
      let sharedT ← components.traditional.derive ciphertextT
      .ok ⟨privateKey.construction, sharedPq, sharedT, ciphertextT, components.traditionalPublic⟩

variable {libraries}

/-- The transcript of an encapsulation. -/
theorem transcript_encapsulation_eq_ok_iff {construction : HybridKemConstruction}
    {publicKey randomness : ByteString} {hashed : Transcript} :
    (encapsulation construction publicKey randomness).transcript libraries = .ok hashed ↔
      publicKey.length = construction.publicKeyLength ∧
      randomness.length = construction.encapsulationRandomnessLength ∧
      validateTraditionalPublic libraries construction
        (publicKey.drop construction.mlKem.publicKeyLength) = .ok () ∧
      ∃ randomnessPq, tryInto 32 (randomness.take 32) = some randomnessPq ∧
      ∃ ciphertextPq sharedPq,
        mlKemEncapsulateDeterministic libraries.mlKem construction.mlKem
          (publicKey.take construction.mlKem.publicKeyLength) randomnessPq =
            .ok (ciphertextPq, sharedPq) ∧
      ∃ ephemeral,
        TraditionalPrivate.fromSeed libraries construction (randomness.drop 32) = .ok ephemeral ∧
      ∃ sharedT, ephemeral.derive (publicKey.drop construction.mlKem.publicKeyLength) =
        .ok sharedT ∧
      ⟨construction, sharedPq, sharedT, ephemeral.publicKey,
        publicKey.drop construction.mlKem.publicKeyLength⟩ = hashed := by
  simp only [transcript, ite_error_eq_ok_iff, bind_eq_ok_iff, orError_eq_ok_iff,
    mapError_eq_ok_iff, Except.ok.injEq, ne_eq, not_not, Prod.exists, Unique.exists_iff,
    PUnit.default_eq_unit]

/-- The transcript of a decapsulation. -/
theorem transcript_decapsulation_eq_ok_iff {privateKey : HybridKemPrivateKey}
    {ciphertext : ByteString} {hashed : Transcript} :
    (decapsulation privateKey ciphertext).transcript libraries = .ok hashed ↔
      ciphertext.length = privateKey.construction.ciphertextLength ∧
      ∃ components, expandPrivate libraries privateKey.construction privateKey.seed =
        .ok components ∧
      ∃ sharedPq, components.mlKem.decapsulate
        (ciphertext.take privateKey.construction.mlKem.ciphertextLength) = .ok sharedPq ∧
      ∃ sharedT, components.traditional.derive
        (ciphertext.drop privateKey.construction.mlKem.ciphertextLength) = .ok sharedT ∧
      ⟨privateKey.construction, sharedPq, sharedT,
        ciphertext.drop privateKey.construction.mlKem.ciphertextLength,
        components.traditionalPublic⟩ = hashed := by
  simp only [transcript, ite_error_eq_ok_iff, bind_eq_ok_iff, mapError_eq_ok_iff, Except.ok.injEq,
    ne_eq, not_not]

/-- The shared secret of a run is that of its transcript. -/
theorem secret_eq_ok_iff {run : Run} {shared : ByteString} :
    run.secret libraries = .ok shared ↔
      ∃ hashed, run.transcript libraries = .ok hashed ∧ hashed.secret libraries = shared := by
  cases run with
  | encapsulation construction publicKey randomness =>
    simp only [secret, bind_eq_ok_iff, Prod.exists, Except.ok.injEq, exists_eq_right,
      hybridKemEncapsulateDeterministic_eq_ok_iff, transcript_encapsulation_eq_ok_iff]
    constructor
    · rintro ⟨-, hpublicKey, hrandomness, hvalid, randomnessPq, hrandomnessPq, ciphertextPq,
        sharedPq, hencapsulate, ephemeral, hephemeral, sharedT, hsharedT, -, hshared⟩
      exact ⟨_, ⟨hpublicKey, hrandomness, hvalid, randomnessPq, hrandomnessPq, ciphertextPq,
        sharedPq, hencapsulate, ephemeral, hephemeral, sharedT, hsharedT, rfl⟩, hshared⟩
    · rintro ⟨-, ⟨hpublicKey, hrandomness, hvalid, randomnessPq, hrandomnessPq, ciphertextPq,
        sharedPq, hencapsulate, ephemeral, hephemeral, sharedT, hsharedT, rfl⟩, hshared⟩
      exact ⟨_, hpublicKey, hrandomness, hvalid, randomnessPq, hrandomnessPq, ciphertextPq,
        sharedPq, hencapsulate, ephemeral, hephemeral, sharedT, hsharedT, rfl, hshared⟩
  | decapsulation privateKey ciphertext =>
    rw [secret, decapsulate_eq_ok_iff]
    simp only [transcript_decapsulation_eq_ok_iff]
    constructor
    · rintro ⟨hciphertext, components, hcomponents, sharedPq, hsharedPq, sharedT, hsharedT,
        hshared⟩
      exact ⟨_, ⟨hciphertext, components, hcomponents, sharedPq, hsharedPq, sharedT, hsharedT,
        rfl⟩, hshared⟩
    · rintro ⟨-, ⟨hciphertext, components, hcomponents, sharedPq, hsharedPq, sharedT, hsharedT,
        rfl⟩, hshared⟩
      exact ⟨hciphertext, components, hcomponents, sharedPq, hsharedPq, sharedT, hsharedT,
        hshared⟩

/-- The lengths of a run's transcript. -/
theorem hasLengths_of_transcript {run : Run} {hashed : Transcript}
    (hhashed : run.transcript libraries = .ok hashed) : hashed.HasLengths := by
  cases run with
  | encapsulation construction publicKey randomness =>
    obtain ⟨hpublicKey, -, -, randomnessPq, -, ciphertextPq, sharedPq, hencapsulate, ephemeral, -,
      sharedT, -, rfl⟩ := transcript_encapsulation_eq_ok_iff.mp hhashed
    obtain ⟨-, -, key, -, -, hsharedPq⟩ := mlKemEncapsulateDeterministic_eq_ok_iff.mp hencapsulate
    refine ⟨?_, ephemeral.length_publicKey, ?_⟩
    · rw [← hsharedPq, List.Vector.toList_length]
    · rw [List.length_drop, hpublicKey, construction.publicKeyLength_eq, Nat.add_sub_cancel_left]
  | decapsulation privateKey ciphertext =>
    obtain ⟨hciphertext, components, hcomponents, sharedPq, hsharedPq, sharedT, -, rfl⟩ :=
      transcript_decapsulation_eq_ok_iff.mp hhashed
    obtain ⟨mlSeed, traditional, -, -, rfl⟩ := expandPrivate_eq_ok_iff.mp hcomponents
    obtain ⟨encoded, -, hsharedPq⟩ := bind_eq_ok_iff.mp hsharedPq
    refine ⟨?_, ?_, traditional.length_publicKey⟩
    · rw [← Except.ok.inj hsharedPq, List.Vector.toList_length]
    · rw [List.length_drop, hciphertext, privateKey.construction.ciphertextLength_eq,
        Nat.add_sub_cancel_left]

/-- The messages that two runs hash. -/
def hashedMessages (libraries : HybridLibraries) (first second : Run) : Set ByteString :=
  {message | ∃ hashed : Transcript,
    (first.transcript libraries = .ok hashed ∨ second.transcript libraries = .ok hashed) ∧
      hashed.message = message}

/-- Runs have the same shared secret when they hash the same transcript, and only then. -/
theorem secret_eq_iff_transcript_eq {first second : Run} {shared shared' : ByteString}
    (hfirst : first.secret libraries = .ok shared) (hsecond : second.secret libraries = .ok shared')
    (hcollision : Set.InjOn libraries.sha3_256 (hashedMessages libraries first second)) :
    shared = shared' ↔ first.transcript libraries = second.transcript libraries := by
  obtain ⟨hashed, hhashed, rfl⟩ := secret_eq_ok_iff.mp hfirst
  obtain ⟨hashed', hhashed', rfl⟩ := secret_eq_ok_iff.mp hsecond
  rw [hhashed, hhashed', Except.ok.injEq]
  refine ⟨fun hsecret ↦ ?_, congrArg _⟩
  have hdigest : libraries.sha3_256 hashed.message = libraries.sha3_256 hashed'.message :=
    Subtype.ext hsecret
  have hmessage := hcollision ⟨hashed, Or.inl hhashed, rfl⟩ ⟨hashed', Or.inr hhashed', rfl⟩ hdigest
  exact (Transcript.message_eq_iff (hasLengths_of_transcript hhashed)
    (hasLengths_of_transcript hhashed')).mp hmessage

/-- One key hashes the same transcript for two ciphertexts with the same ephemeral public key whose
ML-KEM parts it decapsulates to the same shared secret. -/
theorem transcript_decapsulation_eq_iff {privateKey : HybridKemPrivateKey}
    {ciphertext ciphertext' : ByteString} {hashed hashed' : Transcript}
    (hhashed : (decapsulation privateKey ciphertext).transcript libraries = .ok hashed)
    (hhashed' : (decapsulation privateKey ciphertext').transcript libraries = .ok hashed') :
    hashed = hashed' ↔
      ciphertext.drop privateKey.construction.mlKem.ciphertextLength =
          ciphertext'.drop privateKey.construction.mlKem.ciphertextLength ∧
        ∃ components, expandPrivate libraries privateKey.construction privateKey.seed =
            .ok components ∧
          components.mlKem.decapsulate
              (ciphertext.take privateKey.construction.mlKem.ciphertextLength) =
            components.mlKem.decapsulate
              (ciphertext'.take privateKey.construction.mlKem.ciphertextLength) := by
  obtain ⟨-, components, hcomponents, sharedPq, hsharedPq, sharedT, hsharedT, rfl⟩ :=
    transcript_decapsulation_eq_ok_iff.mp hhashed
  obtain ⟨-, same, hsame, sharedPq', hsharedPq', sharedT', hsharedT', rfl⟩ :=
    transcript_decapsulation_eq_ok_iff.mp hhashed'
  obtain rfl := Except.ok.inj (hcomponents.symm.trans hsame)
  simp only [hcomponents, Except.ok.injEq, exists_eq_left', hsharedPq, hsharedPq']
  constructor
  · intro hequal
    exact ⟨congrArg Transcript.ciphertextT hequal, congrArg Transcript.sharedPq hequal⟩
  · rintro ⟨hciphertextT, hequal⟩
    rw [← hciphertextT, hsharedT, Except.ok.injEq] at hsharedT'
    rw [hciphertextT, hsharedT', hequal]

end Run

/-! ### The shared secrets of two runs -/

/-- A shared secret is bound to its transcript: two runs that do not collide have the same one when
they hash the same transcript, and under one private key exactly when the ciphertexts have the same
traditional part and ML-KEM parts with the same shared secret.

That two runs do not collide is assumed of SHA3-256 on the messages that they hash only. Nothing
is assumed of ML-KEM and of the curves but the laws of `HybridLibraries`. -/
theorem sharedSecret_binding {libraries : HybridLibraries} {first second : Run}
    {shared shared' : ByteString} (hfirst : first.secret libraries = .ok shared)
    (hsecond : second.secret libraries = .ok shared')
    (hcollision : Set.InjOn libraries.sha3_256 (Run.hashedMessages libraries first second)) :
    (shared = shared' ↔ first.transcript libraries = second.transcript libraries) ∧
      ∀ privateKey ciphertext ciphertext', first = .decapsulation privateKey ciphertext →
        second = .decapsulation privateKey ciphertext' →
        (shared = shared' ↔
          ciphertext.drop privateKey.construction.mlKem.ciphertextLength =
              ciphertext'.drop privateKey.construction.mlKem.ciphertextLength ∧
            ∃ components, expandPrivate libraries privateKey.construction privateKey.seed =
                .ok components ∧
              components.mlKem.decapsulate
                  (ciphertext.take privateKey.construction.mlKem.ciphertextLength) =
                components.mlKem.decapsulate
                  (ciphertext'.take privateKey.construction.mlKem.ciphertextLength)) := by
  have hshared := Run.secret_eq_iff_transcript_eq hfirst hsecond hcollision
  refine ⟨hshared, ?_⟩
  rintro privateKey ciphertext ciphertext' rfl rfl
  obtain ⟨hashed, hhashed, -⟩ := Run.secret_eq_ok_iff.mp hfirst
  obtain ⟨hashed', hhashed', -⟩ := Run.secret_eq_ok_iff.mp hsecond
  rw [hshared, ← Run.transcript_decapsulation_eq_iff hhashed hhashed', hhashed, hhashed',
    Except.ok.injEq]

/-- The sample encapsulation. -/
def sampleEncapsulation : Run :=
  .encapsulation .mlKem768P256 samplePublicKey
    (List.replicate 32 7 ++ List.replicate 32 0xff ++ List.replicate 96 9)

/-- The decapsulation of the sample ciphertext. -/
def sampleDecapsulation : Run :=
  .decapsulation ⟨.mlKem768P256, List.Vector.replicate 32 5⟩ sampleCiphertext

/-- The sample encapsulation and the decapsulation of its ciphertext have one shared secret and hash
one transcript. -/
theorem sharedSecret_binding_sample :
    sampleEncapsulation.transcript sampleLibraries =
      sampleDecapsulation.transcript sampleLibraries := by
  have hfirst : sampleEncapsulation.secret sampleLibraries = .ok (List.replicate 32 0xf8) := by
    decide +kernel
  have hsecond : sampleDecapsulation.secret sampleLibraries = .ok (List.replicate 32 0xf8) := by
    decide +kernel
  have hsame : sampleEncapsulation.transcript sampleLibraries =
      sampleDecapsulation.transcript sampleLibraries := by decide +kernel
  have hmessages : (Run.hashedMessages sampleLibraries sampleEncapsulation
      sampleDecapsulation).Subsingleton := by
    rintro message ⟨hashed, hhashed, rfl⟩ message' ⟨hashed', hhashed', rfl⟩
    rw [hsame, or_self] at hhashed hhashed'
    rw [Except.ok.inj (hhashed.symm.trans hhashed')]
  exact (sharedSecret_binding hfirst hsecond (hmessages.injOn _)).1.mp rfl

end SoftwareKeyCore.HybridKem
