import SoftwareKeyCore.CertificateChain.Portable
import SoftwareKeyCore.Foundation.SortedBlocks

/-!
# Configured trust

`CertificateTrust::new` of `certificate_chain.rs` and the signature verification it runs on the
self-issued certificates. What the verification uses of the X.509 library and the algorithms of
webpki are third-party code (`SignatureLibrary`). The clock reading is a parameter.

The configured certificates are parsed without repeats, the roots among them are checked in turn,
and the fingerprint of the trust is the digest of the sorted fingerprints. `new_eq_ok_iff` says
what a trust consists of. `identifiedBySet` is that the trust is one of the set of certificates:
neither their order nor repeats matter, and different sets have different fingerprints.
-/

set_option autoImplicit false
set_option relaxedAutoImplicit false

namespace SoftwareKeyCore.CertificateChain

open FallibleResult FirstOccurrences SortedBlocks

/-! ### Certificate signatures -/

/-- A signature verification algorithm with the contents of its algorithm identifiers. -/
structure SignatureVerificationAlgorithm where
  signatureAlgId : ByteString
  publicKeyAlgId : ByteString
  verifySignature : (publicKey message signature : ByteString) → Bool

/-- What the verification of a certificate signature uses of the X.509 library, and
`supported_signature_algorithms`. -/
structure SignatureLibrary (x509 : X509Library) where
  oidToDer : ObjectIdentifier → Option ByteString
  parametersToDer : ByteString → Option ByteString
  tbsToDer : x509.Certificate → Option ByteString
  signatureBytes : x509.Certificate → Option ByteString
  supportedSignatureAlgorithms : List SignatureVerificationAlgorithm

variable (hashes : HashFunctions) {x509 : X509Library} (signatures : SignatureLibrary x509)

/-- `algorithm_identifier_contents`. -/
def algorithmIdentifierContents (algorithm : AlgorithmIdentifier) :
    Except CertificateError ByteString := do
  let encoded ← orInvalid (signatures.oidToDer algorithm.oid)
  match algorithm.parameters with
  | none => return encoded
  | some parameters => do
    let parameters ← orInvalid (signatures.parametersToDer parameters)
    return encoded ++ parameters

/-- `verify_certificate_signature`. -/
def verifyCertificateSignature (certificate issuer : x509.Certificate) :
    Except CertificateError Unit :=
  if x509.signatureAlgorithm certificate ≠ x509.tbsSignature certificate then .error .invalid
  else do
    let signatureAlgorithm ←
      algorithmIdentifierContents signatures (x509.signatureAlgorithm certificate)
    let publicKeyAlgorithm ←
      algorithmIdentifierContents signatures (x509.subjectPublicKeyAlgorithm issuer)
    let algorithm ← orInvalid
      (signatures.supportedSignatureAlgorithms.find? fun algorithm ↦
        algorithm.signatureAlgId = signatureAlgorithm ∧
          algorithm.publicKeyAlgId = publicKeyAlgorithm)
    let publicKey ← orInvalid (x509.subjectPublicKey issuer)
    let message ← orInvalid (signatures.tbsToDer certificate)
    let signature ← orInvalid (signatures.signatureBytes certificate)
    if ¬ algorithm.verifySignature publicKey message signature then .error .invalid else .ok ()

/-- `ParsedCertificate::verify_signature`. -/
def ParsedCertificate.verifySignature (certificate issuer : ParsedCertificate x509) :
    Except CertificateError Unit :=
  verifyCertificateSignature signatures certificate.certificate issuer.certificate

/-! ### The construction of a trust -/

/-- The loop of `CertificateTrust::new` over the certificates: the fingerprints of the roots. -/
def collectRoots (now : ℕ) :
    (certificates : List (ParsedCertificate x509)) → Except CertificateError (List Fingerprint)
  | [] => .ok []
  | certificate :: certificates =>
    if certificate.isSelfIssued then
      if ¬ certificate.isCa ∨ ¬ certificate.canSignCertificates ∨ ¬ certificate.isValidAt now ∨
          certificate.verifySignature signatures certificate ≠ .ok () then .error .invalid
      else do
        let rootFingerprints ← collectRoots now certificates
        return certificate.fingerprint :: rootFingerprints
    else collectRoots now certificates

/-- The byte string that the fingerprint of a trust is the digest of: the sorted fingerprints of
its certificates. -/
def trustMessage (certificates : List (ParsedCertificate x509)) : ByteString :=
  (sortBlocks (certificates.map ParsedCertificate.fingerprint)).flatten

/-- `CertificateTrust::new`. -/
def CertificateTrust.new (certificates : List ByteString) (now : ℕ) :
    Except CertificateError CertificateTrust :=
  if certificates = [] then .error .invalid
  else do
    let unique ← parseUnique hashes x509 certificates
    let rootFingerprints ← collectRoots signatures now unique
    if rootFingerprints = [] then .error .invalid
    else return {
      rootFingerprints := rootFingerprints
      fingerprint := sha256Fingerprint hashes (trustMessage unique)
      localCertificates := certificates }

/-- The checks on a self-issued certificate. -/
structure IsRoot (now : ℕ) (certificate : ParsedCertificate x509) : Prop where
  isCa : certificate.isCa = true
  canSignCertificates : certificate.canSignCertificates = true
  isValidAt : certificate.isValidAt now = true
  verifySignature : certificate.verifySignature signatures certificate = .ok ()

variable {hashes signatures}

/-- The roots are collected when every self-issued certificate passes the checks. -/
theorem collectRoots_eq_ok_iff {now : ℕ} {certificates : List (ParsedCertificate x509)}
    {rootFingerprints : List Fingerprint} :
    collectRoots signatures now certificates = .ok rootFingerprints ↔
      (∀ certificate ∈ certificates, certificate.isSelfIssued = true →
        IsRoot signatures now certificate) ∧
      rootFingerprints = (certificates.filter ParsedCertificate.isSelfIssued).map
        ParsedCertificate.fingerprint := by
  induction certificates generalizing rootFingerprints with
  | nil =>
    rw [collectRoots, List.filter_nil, List.map_nil, Except.ok.injEq, eq_comm]
    simp
  | cons certificate certificates ih =>
    rw [collectRoots, List.forall_mem_cons]
    by_cases hissued : certificate.isSelfIssued = true
    · rw [if_pos hissued, ite_error_eq_ok_iff, List.filter_cons_of_pos hissued, List.map_cons]
      simp only [bind_eq_ok_iff, pure_eq_ok_iff, ih, not_or, not_not]
      constructor
      · rintro ⟨⟨hca, hsign, hvalid, hsignature⟩, rest, ⟨hrest, rfl⟩, rfl⟩
        exact ⟨⟨fun _ ↦ ⟨hca, hsign, hvalid, hsignature⟩, hrest⟩, rfl⟩
      · rintro ⟨⟨hroot, hrest⟩, rfl⟩
        obtain ⟨hca, hsign, hvalid, hsignature⟩ := hroot hissued
        exact ⟨⟨hca, hsign, hvalid, hsignature⟩, _, ⟨hrest, rfl⟩, rfl⟩
    · rw [if_neg hissued, ih, List.filter_cons_of_neg hissued]
      simp [hissued]

/-- What a trust consists of. -/
theorem new_eq_ok_iff {certificates : List ByteString} {now : ℕ} {trust : CertificateTrust} :
    CertificateTrust.new hashes signatures certificates now = .ok trust ↔
      certificates ≠ [] ∧ ∃ unique, parseUnique hashes x509 certificates = .ok unique ∧
        (∀ certificate ∈ unique, certificate.isSelfIssued = true →
          IsRoot signatures now certificate) ∧
        (∃ certificate ∈ unique, certificate.isSelfIssued = true) ∧
        trust =
          { rootFingerprints := (unique.filter ParsedCertificate.isSelfIssued).map
              ParsedCertificate.fingerprint
            fingerprint := sha256Fingerprint hashes (trustMessage unique)
            localCertificates := certificates } := by
  have hsome : ∀ unique : List (ParsedCertificate x509),
      ¬ (unique.filter ParsedCertificate.isSelfIssued).map ParsedCertificate.fingerprint = [] ↔
        ∃ certificate ∈ unique, certificate.isSelfIssued = true := by
    intro unique
    rw [List.map_eq_nil_iff, List.filter_eq_nil_iff]
    push Not
    rfl
  unfold CertificateTrust.new
  simp only [ite_error_eq_ok_iff, bind_eq_ok_iff, pure_eq_ok_iff, collectRoots_eq_ok_iff]
  constructor
  · rintro ⟨hnonempty, unique, hunique, roots, ⟨hroots, rfl⟩, hnonemptyRoots, rfl⟩
    exact ⟨hnonempty, unique, hunique, hroots, (hsome unique).mp hnonemptyRoots, rfl⟩
  · rintro ⟨hnonempty, unique, hunique, hroots, hnonemptyRoots, rfl⟩
    exact ⟨hnonempty, unique, hunique, _, ⟨hroots, rfl⟩, (hsome unique).mpr hnonemptyRoots, rfl⟩

/-! ### The set of the certificates -/

/-- The fingerprint of an encoding that parses. -/
theorem fingerprint_of_parse {encoded : ByteString} {certificate : ParsedCertificate x509}
    (hparse : parse hashes x509 encoded = .ok certificate) :
    certificate.fingerprint = sha256Fingerprint hashes encoded :=
  (parse_eq_ok hparse).2.2.1

theorem ParsesTo.mem_iff {certificates : List ByteString}
    {parsed : List (ParsedCertificate x509)} (hparsed : ParsesTo hashes x509 certificates parsed)
    {certificate : ParsedCertificate x509} :
    certificate ∈ parsed ↔
      ∃ encoded ∈ certificates, parse hashes x509 encoded = .ok certificate := by
  induction hparsed with
  | nil => simp
  | cons hcertificate hrest ih =>
    rw [List.mem_cons, ih]
    constructor
    · rintro (rfl | ⟨encoded, hencoded, hparse⟩)
      · exact ⟨_, List.mem_cons_self, hcertificate⟩
      · exact ⟨encoded, List.mem_cons_of_mem _ hencoded, hparse⟩
    · rintro ⟨encoded, hencoded, hparse⟩
      rcases List.mem_cons.mp hencoded with rfl | hencoded
      · exact Or.inl (Except.ok.inj (hparse.symm.trans hcertificate))
      · exact Or.inr ⟨encoded, hencoded, hparse⟩

/-- A list of encodings parses when each of them does. -/
theorem exists_parsesTo_iff {certificates : List ByteString} :
    (∃ parsed, ParsesTo hashes x509 certificates parsed) ↔
      ∀ encoded ∈ certificates, ∃ certificate, parse hashes x509 encoded = .ok certificate := by
  induction certificates with
  | nil => exact iff_of_true ⟨[], List.Forall₂.nil⟩ (List.forall_mem_nil _)
  | cons encoded certificates ih =>
    rw [List.forall_mem_cons, ← ih]
    constructor
    · rintro ⟨parsed, hparsed⟩
      obtain ⟨certificate, rest, hcertificate, hrest, rfl⟩ :=
        List.forall₂_cons_left_iff.mp hparsed
      exact ⟨⟨certificate, hcertificate⟩, rest, hrest⟩
    · rintro ⟨⟨certificate, hcertificate⟩, rest, hrest⟩
      exact ⟨certificate :: rest, List.Forall₂.cons hcertificate hrest⟩

/-- A list is parsed without repeats when each of its encodings parses. -/
theorem exists_parseUnique_iff {certificates : List ByteString} :
    (∃ unique, parseUnique hashes x509 certificates = .ok unique) ↔
      ∀ encoded ∈ certificates, ∃ certificate, parse hashes x509 encoded = .ok certificate := by
  rw [← exists_parsesTo_iff]
  simp only [parseUnique_eq_ok_iff]
  constructor
  · rintro ⟨-, parsed, hparsed, -⟩
    exact ⟨parsed, hparsed⟩
  · rintro ⟨parsed, hparsed⟩
    exact ⟨_, parsed, hparsed, rfl⟩

section Unique

variable {certificates : List ByteString} {unique : List (ParsedCertificate x509)}

/-- The fingerprints of the certificates that are kept are those of the encodings. -/
theorem mem_map_fingerprint_iff (hunique : parseUnique hashes x509 certificates = .ok unique)
    {fingerprint : Fingerprint} :
    fingerprint ∈ unique.map ParsedCertificate.fingerprint ↔
      ∃ encoded ∈ certificates, sha256Fingerprint hashes encoded = fingerprint := by
  obtain ⟨parsed, hparsed, rfl⟩ := parseUnique_eq_ok_iff.mp hunique
  rw [mem_map_firstOccurrences, and_iff_left List.not_mem_nil, List.mem_map]
  constructor
  · rintro ⟨certificate, hcertificate, rfl⟩
    obtain ⟨encoded, hencoded, hparse⟩ := hparsed.mem_iff.mp hcertificate
    exact ⟨encoded, hencoded, (fingerprint_of_parse hparse).symm⟩
  · rintro ⟨encoded, hencoded, rfl⟩
    obtain ⟨certificate, hparse⟩ := exists_parseUnique_iff.mp ⟨_, hunique⟩ encoded hencoded
    exact ⟨certificate, hparsed.mem_iff.mpr ⟨encoded, hencoded, hparse⟩,
      fingerprint_of_parse hparse⟩

/-- Fingerprints have the length of a digest. -/
theorem length_of_mem_map_fingerprint
    (hunique : parseUnique hashes x509 certificates = .ok unique) {fingerprint : Fingerprint}
    (hfingerprint : fingerprint ∈ unique.map ParsedCertificate.fingerprint) :
    fingerprint.length = 32 := by
  obtain ⟨encoded, -, rfl⟩ := (mem_map_fingerprint_iff hunique).mp hfingerprint
  exact hashes.length_digest .sha256 encoded

theorem nodup_map_fingerprint (hunique : parseUnique hashes x509 certificates = .ok unique) :
    (unique.map ParsedCertificate.fingerprint).Nodup := by
  obtain ⟨parsed, -, rfl⟩ := parseUnique_eq_ok_iff.mp hunique
  exact nodup_map_firstOccurrences _ _ _

/-- Every certificate is kept when different encodings have different fingerprints. -/
theorem mem_unique_iff (hunique : parseUnique hashes x509 certificates = .ok unique)
    (hcollision : Set.InjOn (sha256Fingerprint hashes) {encoded | encoded ∈ certificates})
    {certificate : ParsedCertificate x509} :
    certificate ∈ unique ↔
      ∃ encoded ∈ certificates, parse hashes x509 encoded = .ok certificate := by
  obtain ⟨parsed, hparsed, rfl⟩ := parseUnique_eq_ok_iff.mp hunique
  rw [mem_firstOccurrences_iff, hparsed.mem_iff]
  intro first hfirst second hsecond hsame
  obtain ⟨encoded, hencoded, hparse⟩ := hparsed.mem_iff.mp hfirst
  obtain ⟨encoded', hencoded', hparse'⟩ := hparsed.mem_iff.mp hsecond
  rw [fingerprint_of_parse hparse, fingerprint_of_parse hparse'] at hsame
  obtain rfl := hcollision hencoded hencoded' hsame
  exact Except.ok.inj (hparse.symm.trans hparse')

end Unique

/-- Trusts of the same certificates are hashed from the same byte string, and only those. -/
theorem trustMessage_eq_iff {first second : List ByteString}
    {unique unique' : List (ParsedCertificate x509)}
    (hunique : parseUnique hashes x509 first = .ok unique)
    (hunique' : parseUnique hashes x509 second = .ok unique') :
    trustMessage unique = trustMessage unique' ↔
      ∀ fingerprint, fingerprint ∈ unique.map ParsedCertificate.fingerprint ↔
        fingerprint ∈ unique'.map ParsedCertificate.fingerprint :=
  flatten_sortBlocks_eq_iff (by decide) (fun _ ↦ length_of_mem_map_fingerprint hunique)
    (fun _ ↦ length_of_mem_map_fingerprint hunique') (nodup_map_fingerprint hunique)
    (nodup_map_fingerprint hunique')

theorem length_trustMessage {certificates : List ByteString}
    {unique : List (ParsedCertificate x509)}
    (hunique : parseUnique hashes x509 certificates = .ok unique) :
    (trustMessage unique).length = unique.length * 32 := by
  have hlength : ∀ block ∈ sortBlocks (unique.map ParsedCertificate.fingerprint),
      block.length = 32 := fun block hblock ↦
    length_of_mem_map_fingerprint hunique (mem_sortBlocks.mp hblock)
  rw [trustMessage, CheckedSlice.length_flatten_of_forall hlength,
    (perm_sortBlocks _).length_eq, List.length_map]

/-! ### A trust is identified by its set of certificates -/

/-- The byte strings that `CertificateTrust::new` hashes. -/
def hashedInputs (hashes : HashFunctions) (x509 : X509Library)
    (certificates : List ByteString) : Set ByteString :=
  {data | data ∈ certificates ∨
    ∃ unique, parseUnique hashes x509 certificates = .ok unique ∧ data = trustMessage unique}

/-- The trusts of two lists of certificates depend on the sets of the certificates only, and their
fingerprints tell different sets apart. -/
structure IdentifiedBySet (hashes : HashFunctions) (signatures : SignatureLibrary x509)
    (first second : List ByteString) : Prop where
  succeeds_iff : (∀ encoded, encoded ∈ first ↔ encoded ∈ second) → ∀ now,
    (∃ trust, CertificateTrust.new hashes signatures first now = .ok trust) ↔
      ∃ trust, CertificateTrust.new hashes signatures second now = .ok trust
  same_fingerprints : (∀ encoded, encoded ∈ first ↔ encoded ∈ second) → ∀ now trust trust',
    CertificateTrust.new hashes signatures first now = .ok trust →
      CertificateTrust.new hashes signatures second now = .ok trust' →
        trust.fingerprint = trust'.fingerprint ∧
          ∀ fingerprint, fingerprint ∈ trust.rootFingerprints ↔
            fingerprint ∈ trust'.rootFingerprints
  fingerprint_injective : ∀ now now' trust trust',
    CertificateTrust.new hashes signatures first now = .ok trust →
      CertificateTrust.new hashes signatures second now' = .ok trust' →
        trust.fingerprint = trust'.fingerprint → ∀ encoded, encoded ∈ first ↔ encoded ∈ second

section Injective

variable {first second : List ByteString}

/-- When a trust is built, in terms of the set of the encodings. -/
theorem exists_new_iff {certificates : List ByteString} {now : ℕ}
    (hcollision : Set.InjOn (sha256Fingerprint hashes) {encoded | encoded ∈ certificates}) :
    (∃ trust, CertificateTrust.new hashes signatures certificates now = .ok trust) ↔
      (∀ encoded ∈ certificates, ∃ certificate, parse hashes x509 encoded = .ok certificate ∧
        (certificate.isSelfIssued = true → IsRoot signatures now certificate)) ∧
      ∃ encoded ∈ certificates, ∃ certificate, parse hashes x509 encoded = .ok certificate ∧
        certificate.isSelfIssued = true := by
  simp only [new_eq_ok_iff]
  constructor
  · rintro ⟨-, -, unique, hunique, hroots, ⟨root, hroot, hissued⟩, -⟩
    refine ⟨fun encoded hencoded ↦ ?_, ?_⟩
    · obtain ⟨certificate, hparse⟩ := exists_parseUnique_iff.mp ⟨unique, hunique⟩ encoded hencoded
      exact ⟨certificate, hparse, hroots certificate
        ((mem_unique_iff hunique hcollision).mpr ⟨encoded, hencoded, hparse⟩)⟩
    · obtain ⟨encoded, hencoded, hparse⟩ := (mem_unique_iff hunique hcollision).mp hroot
      exact ⟨encoded, hencoded, root, hparse, hissued⟩
  · rintro ⟨hall, rootEncoded, hrootEncoded, root, hroot, hissued⟩
    obtain ⟨unique, hunique⟩ := exists_parseUnique_iff.mpr fun encoded hencoded ↦
      (hall encoded hencoded).imp fun certificate hcertificate ↦ hcertificate.1
    refine ⟨_, List.ne_nil_of_mem hrootEncoded, unique, hunique, fun certificate hmem ↦ ?_,
      ⟨root, (mem_unique_iff hunique hcollision).mpr ⟨rootEncoded, hrootEncoded, hroot⟩,
        hissued⟩, rfl⟩
    obtain ⟨encoded, hencoded, hparse⟩ := (mem_unique_iff hunique hcollision).mp hmem
    obtain ⟨same, hsame, hchecks⟩ := hall encoded hencoded
    obtain rfl := Except.ok.inj (hsame.symm.trans hparse)
    exact hchecks

/-- A trust is identified by its set of certificates, when no two of the byte strings that are
hashed have the same digest.

That no two collide is assumed of the certificates and of the contents of the two trusts only.
The library that reads certificates is any. -/
theorem identifiedBySet
    (hcollision : Set.InjOn (sha256Fingerprint hashes)
      (hashedInputs hashes x509 first ∪ hashedInputs hashes x509 second)) :
    IdentifiedBySet hashes signatures first second := by
  have hfirst : Set.InjOn (sha256Fingerprint hashes) {encoded | encoded ∈ first} :=
    hcollision.mono fun encoded hencoded ↦ Or.inl (Or.inl hencoded)
  have hsecond : Set.InjOn (sha256Fingerprint hashes) {encoded | encoded ∈ second} :=
    hcollision.mono fun encoded hencoded ↦ Or.inr (Or.inl hencoded)
  refine ⟨fun hmem now ↦ ?_, ?_, ?_⟩
  · rw [exists_new_iff hfirst, exists_new_iff hsecond]
    simp only [hmem]
  · intro hmem now trust trust' htrust htrust'
    obtain ⟨-, unique, hunique, -, -, rfl⟩ := new_eq_ok_iff.mp htrust
    obtain ⟨-, unique', hunique', -, -, rfl⟩ := new_eq_ok_iff.mp htrust'
    constructor
    · refine congrArg (sha256Fingerprint hashes) ((trustMessage_eq_iff hunique hunique').mpr ?_)
      intro fingerprint
      rw [mem_map_fingerprint_iff hunique, mem_map_fingerprint_iff hunique']
      simp only [hmem]
    · intro fingerprint
      simp only [List.mem_map, List.mem_filter, mem_unique_iff hunique hfirst,
        mem_unique_iff hunique' hsecond, hmem]
  · intro now now' trust trust' htrust htrust' hsame
    obtain ⟨-, unique, hunique, -, -, rfl⟩ := new_eq_ok_iff.mp htrust
    obtain ⟨-, unique', hunique', -, -, rfl⟩ := new_eq_ok_iff.mp htrust'
    have hmessage : trustMessage unique = trustMessage unique' :=
      hcollision (Or.inl (Or.inr ⟨unique, hunique, rfl⟩))
        (Or.inr (Or.inr ⟨unique', hunique', rfl⟩)) hsame
    have hfingerprints := (trustMessage_eq_iff hunique hunique').mp hmessage
    simp only [mem_map_fingerprint_iff hunique, mem_map_fingerprint_iff hunique'] at hfingerprints
    intro encoded
    constructor
    · intro hencoded
      obtain ⟨other, hother, hdigest⟩ := (hfingerprints _).mp ⟨encoded, hencoded, rfl⟩
      rwa [← hcollision (Or.inr (Or.inl hother)) (Or.inl (Or.inl hencoded)) hdigest]
    · intro hencoded
      obtain ⟨other, hother, hdigest⟩ := (hfingerprints _).mpr ⟨encoded, hencoded, rfl⟩
      rwa [← hcollision (Or.inl (Or.inl hother)) (Or.inr (Or.inl hencoded)) hdigest]

end Injective

/-! ### A trust in a self-issued certificate -/

/-- Hash functions whose digests start with the length of the message. -/
def lengthHashes : HashFunctions where
  digest algorithm message :=
    ByteString.resize (UInt8.ofNat message.length :: message) algorithm.outputLength 0
  length_digest algorithm _ := ByteString.length_resize _ algorithm.outputLength 0

/-- Signatures of `tokenX509` that only a self-issued certificate has of itself. -/
def tokenSignatures : SignatureLibrary tokenX509 where
  oidToDer arcs := some (arcs.map UInt8.ofNat)
  parametersToDer := some
  tbsToDer := some
  signatureBytes _ := some []
  supportedSignatureAlgorithms := [{
    signatureAlgId := []
    publicKeyAlgId := ecPublicKey.map UInt8.ofNat
    verifySignature := fun publicKey message _ ↦ publicKey = 4 :: message }]

theorem head?_sha256Fingerprint_lengthHashes (data : ByteString) :
    (sha256Fingerprint lengthHashes data).head? = some (UInt8.ofNat data.length) :=
  rfl

/-- Single bytes have digests of their own. -/
theorem injOn_sha256Fingerprint_lengthHashes :
    Set.InjOn (sha256Fingerprint lengthHashes) {data | data.length = 1} := by
  intro data hdata data' hdata' hsame
  obtain ⟨byte, rfl⟩ := List.length_eq_one_iff.mp hdata
  obtain ⟨byte', rfl⟩ := List.length_eq_one_iff.mp hdata'
  have hbyte : some byte = some byte' := congrArg (fun digest ↦ digest.tail.head?) hsame
  rw [Option.some.inj hbyte]

/-- The lists of a root and another certificate, in both orders and with a repeat, are one trust. -/
theorem identifiedBySet_token :
    (∃ trust, CertificateTrust.new lengthHashes tokenSignatures [[2], [1], [2]] 0 = .ok trust) ∧
      IdentifiedBySet lengthHashes tokenSignatures [[2], [1], [2]] [[1], [2]] := by
  obtain ⟨unique, hunique, hsize⟩ : ∃ unique,
      parseUnique lengthHashes tokenX509 [[2], [1], [2]] = .ok unique ∧ unique.length = 2 :=
    ⟨_, rfl, rfl⟩
  obtain ⟨unique', hunique'⟩ : ∃ unique,
      parseUnique lengthHashes tokenX509 [[1], [2]] = .ok unique :=
    ⟨_, rfl⟩
  have hmessage : trustMessage unique' = trustMessage unique := by
    refine (trustMessage_eq_iff hunique' hunique).mpr fun fingerprint ↦ ?_
    rw [mem_map_fingerprint_iff hunique, mem_map_fingerprint_iff hunique']
    simp only [List.mem_cons, List.not_mem_nil, or_false, or_and_right, exists_or,
      exists_eq_left]
    tauto
  have hlength : (trustMessage unique).length = 64 := by
    rw [length_trustMessage hunique, hsize]
  -- The two constructions hash single bytes and one message of 64 bytes.
  have hinputs : hashedInputs lengthHashes tokenX509 [[2], [1], [2]] ∪
      hashedInputs lengthHashes tokenX509 [[1], [2]] ⊆
        insert (trustMessage unique) {data | data.length = 1} := by
    have hsingle : ∀ data ∈ ([[2], [1], [2]] : List ByteString), data.length = 1 := by decide
    have hsingle' : ∀ data ∈ ([[1], [2]] : List ByteString), data.length = 1 := by decide
    rintro data ((hdata | ⟨same, hsame, rfl⟩) | (hdata | ⟨same, hsame, rfl⟩))
    · exact Or.inr (hsingle data hdata)
    · obtain rfl := Except.ok.inj (hunique.symm.trans hsame)
      exact Or.inl rfl
    · exact Or.inr (hsingle' data hdata)
    · obtain rfl := Except.ok.inj (hunique'.symm.trans hsame)
      exact Or.inl hmessage
  have hlong : trustMessage unique ∉ {data : ByteString | data.length = 1} := by
    rw [Set.mem_ofPred_eq, hlength]
    decide
  have hdigest : sha256Fingerprint lengthHashes (trustMessage unique) ∉
      sha256Fingerprint lengthHashes '' {data | data.length = 1} := by
    rintro ⟨data, hdata, hsame⟩
    have hhead := congrArg List.head? hsame
    rw [head?_sha256Fingerprint_lengthHashes, head?_sha256Fingerprint_lengthHashes, hlength,
      Set.mem_ofPred_eq.mp hdata] at hhead
    exact absurd hhead (by decide)
  have hinjOn := (Set.injOn_insert hlong).mpr ⟨injOn_sha256Fingerprint_lengthHashes, hdigest⟩
  exact ⟨⟨_, rfl⟩, identifiedBySet (hinjOn.mono hinputs)⟩

end SoftwareKeyCore.CertificateChain
