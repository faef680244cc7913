import SoftwareKeyCore.CertificateChain.Attestation

/-!
# Validation against a configured key

`validate_with_p256_ca_key` of `certificate_chain.rs` and `certificate_chain/portable.rs`: the
caller's fixed P-256 key is the only trust. It is presented to the path library as an anchor under
each name that issued a presented certificate, unless certificates of that name are presented and
none of them carries the key. The encoders of the anchors are third-party code (`AnchorLibrary`), as
is the path library; `BuildsPaths` is what is documented of its paths, and the signature callback
that it is given is the code's own (`verifySignature`).

`anchorFiles_eq_ok` is which anchors are made, each of them once and all of the configured key.
`validateWithP256CaKey_trustsOnlyKey` is that the point which is answered is that of the last
presented certificate, at the end of a chain of signatures over presented certificates that starts
at the configured key, whatever the presented certificates are.
-/

set_option autoImplicit false
set_option relaxedAutoImplicit false

namespace SoftwareKeyCore.CertificateChain

open FallibleResult FirstOccurrences

/-! ### Anchors -/

/-- `SubjectPublicKeyInfoOwned`; the bit string is what `as_bytes` answers of it. -/
structure SubjectPublicKeyInfo where
  algorithm : AlgorithmIdentifier
  subjectPublicKey : Option ByteString
  deriving DecidableEq, Repr

/-- `TrustAnchorInfo` with the certification path controls that hold its name; the other fields are
absent. -/
structure TrustAnchorInfo (Name : Type) where
  pubKey : SubjectPublicKeyInfo
  keyId : ByteString
  taName : Name

/-- The encoders of anchors. -/
structure AnchorLibrary where
  Name : Type
  encodeOid : ObjectIdentifier → Option ByteString
  bitStringFromBytes : ByteString → Option ByteString
  octetStringNew : ByteString → Option ByteString
  nameFromDer : ByteString → Option Name
  toDer : TrustAnchorInfo Name → Option ByteString
  bitStringFromBytes_eq : ∀ bytes bits, bitStringFromBytes bytes = some bits → bits = bytes

variable (hashes : HashFunctions) {x509 : X509Library} (certval : Certval)
  (library : AnchorLibrary)

/-- The key that the anchors of a point hold. -/
def configuredKey (parameters point : ByteString) : SubjectPublicKeyInfo where
  algorithm := { oid := ecPublicKey, parameters := some parameters }
  subjectPublicKey := some point

/-- The presented certificates of a name hide the anchor under it: there are some, and none of them
has the point. -/
def hidesAnchor (presented : List (ParsedCertificate x509)) (point name : ByteString) : Bool :=
  let issuers := presented.filter fun certificate ↦ certificate.subject = name
  !issuers.isEmpty && !issuers.any fun certificate ↦ certificate.p256PublicPoint = .ok point

/-- The loop of `validate_with_p256_ca_key` over the presented certificates from an index on, with
the names that were given an anchor so far. -/
def anchorFiles (pubKey : SubjectPublicKeyInfo) (keyId point : ByteString)
    (presented : List (ParsedCertificate x509)) :
    (index : ℕ) → (certificates : List (ParsedCertificate x509)) → (names : List ByteString) →
      Except CertificateError (List CertFile)
  | _, [], _ => .ok []
  | index, certificate :: certificates, names =>
    if hidesAnchor presented point certificate.issuer then
      anchorFiles pubKey keyId point presented (index + 1) certificates names
    else if names.contains certificate.issuer then
      anchorFiles pubKey keyId point presented (index + 1) certificates names
    else do
      let taName ← orInvalid (library.nameFromDer certificate.issuer)
      let bytes ← orInvalid (library.toDer ⟨pubKey, keyId, taName⟩)
      let files ← anchorFiles pubKey keyId point presented (index + 1) certificates
        (certificate.issuer :: names)
      return { filename := s!"configured-key-{index}", bytes := bytes } :: files

/-- `portable::validate_with_p256_ca_key`. -/
def validateWithP256CaKey (x509 : X509Library) (point : ByteString)
    (certificates : List ByteString) (now : ℕ) :
    Except CertificateError (ParsedCertificate x509) :=
  if certificates = [] ∨ 8 < certificates.length then .error .invalid
  else do
    let parameters ← orInvalid (library.encodeOid p256Curve)
    let subjectPublicKey ← orInvalid (library.bitStringFromBytes point)
    let spki : SubjectPublicKeyInfo :=
      { algorithm := { oid := ecPublicKey, parameters := some parameters }
        subjectPublicKey := some subjectPublicKey }
    let keyId ← orInvalid (library.octetStringNew (hashes.digest .sha1 point))
    let parsed ← parseUnique hashes x509 certificates
    let anchors ← anchorFiles library spki keyId point parsed 0 parsed []
    validateFiles hashes x509 certval anchors [] certificates false now

/-- `CertificateTrust::validate_with_p256_ca_key`. -/
def CertificateTrust.validateWithP256CaKey (x509 : X509Library) (point : ByteString)
    (certificates : List ByteString) (now : ℕ) : Except CertificateError ByteString :=
  if ¬ x509.isP256Point point then .error .invalid
  else do
    let certificate ←
      CertificateChain.validateWithP256CaKey hashes certval library x509 point certificates now
    certificate.p256KeyAgreementPoint

/-! ### The signature callback -/

/-- The status of a signature that fails. -/
def signatureVerificationFailure : CertvalError := .other 0

/-- The status of an algorithm that is not supported. -/
def unrecognized : CertvalError := .other 1

/-- `.map_err(|_| failure())`. -/
def orFailure {α : Type} (result : Except CertificateError α) : Except CertvalError α :=
  result.mapError fun _ ↦ signatureVerificationFailure

/-- `verify_signature`. -/
def verifySignature (signatures : SignatureLibrary x509) (message : ByteString)
    (signature : Option ByteString) (algorithm : AlgorithmIdentifier)
    (spki : SubjectPublicKeyInfo) : Except CertvalError Unit := do
  let sigAlg ← orFailure (algorithmIdentifierContents signatures algorithm)
  let keyAlg ← orFailure (algorithmIdentifierContents signatures spki.algorithm)
  let supported ← orError unrecognized
    (signatures.supportedSignatureAlgorithms.find? fun candidate ↦
      candidate.signatureAlgId = sigAlg ∧ candidate.publicKeyAlgId = keyAlg)
  let publicKey ← orError signatureVerificationFailure spki.subjectPublicKey
  let signature ← orError signatureVerificationFailure signature
  if ¬ supported.verifySignature publicKey message signature then
    .error signatureVerificationFailure
  else .ok ()

/-- The key of a certificate. -/
def publicKeyInfo (certificate : x509.Certificate) : SubjectPublicKeyInfo where
  algorithm := x509.subjectPublicKeyAlgorithm certificate
  subjectPublicKey := x509.subjectPublicKey certificate

/-- The callback verifies a certificate under its issuer's key as the code does itself. -/
theorem verifyCertificateSignature_eq_ok_iff {signatures : SignatureLibrary x509}
    {certificate issuer : x509.Certificate} :
    verifyCertificateSignature signatures certificate issuer = .ok () ↔
      x509.signatureAlgorithm certificate = x509.tbsSignature certificate ∧
        ∃ message, signatures.tbsToDer certificate = some message ∧
          verifySignature signatures message (signatures.signatureBytes certificate)
            (x509.signatureAlgorithm certificate) (publicKeyInfo issuer) = .ok () := by
  unfold verifyCertificateSignature verifySignature orInvalid orFailure publicKeyInfo
  simp only [ite_error_eq_ok_iff, bind_eq_ok_iff, orError_eq_ok_iff, mapError_eq_ok_iff, not_not]
  constructor
  · rintro ⟨halgorithm, sigAlg, hsigAlg, keyAlg, hkeyAlg, supported, hsupported, publicKey,
      hpublicKey, message, hmessage, signature, hsignature, hverified, -⟩
    exact ⟨halgorithm, message, hmessage, sigAlg, hsigAlg, keyAlg, hkeyAlg, supported, hsupported,
      publicKey, hpublicKey, signature, hsignature, hverified, trivial⟩
  · rintro ⟨halgorithm, message, hmessage, sigAlg, hsigAlg, keyAlg, hkeyAlg, supported, hsupported,
      publicKey, hpublicKey, signature, hsignature, hverified, -⟩
    exact ⟨halgorithm, sigAlg, hsigAlg, keyAlg, hkeyAlg, supported, hsupported, publicKey,
      hpublicKey, message, hmessage, signature, hsignature, hverified, trivial⟩

/-- Certificates in turn, each with a signature that verifies under the key before it. -/
def CertifiedFrom (signatures : SignatureLibrary x509) :
    (spki : SubjectPublicKeyInfo) → (chain : List x509.Certificate) → Prop
  | _, [] => True
  | spki, certificate :: chain =>
    (∃ message, signatures.tbsToDer certificate = some message ∧
      verifySignature signatures message (signatures.signatureBytes certificate)
        (x509.signatureAlgorithm certificate) spki = .ok ()) ∧
      CertifiedFrom signatures (publicKeyInfo certificate) chain

/-! ### The names of the anchors -/

section Names

variable {library} {presented : List (ParsedCertificate x509)} {point : ByteString}

/-- A name that the configured key is trusted under: it issued a presented certificate, and if there
are presented certificates of the name, then one of them has the key. -/
def IsAnchorName (presented : List (ParsedCertificate x509)) (point name : ByteString) : Prop :=
  (∃ certificate ∈ presented, certificate.issuer = name) ∧
    ((∃ certificate ∈ presented, certificate.subject = name) →
      ∃ certificate ∈ presented, certificate.subject = name ∧
        certificate.p256PublicPoint = .ok point)

theorem hidesAnchor_eq_false_iff {name : ByteString} :
    hidesAnchor presented point name = false ↔
      ((∃ certificate ∈ presented, certificate.subject = name) →
        ∃ certificate ∈ presented, certificate.subject = name ∧
          certificate.p256PublicPoint = .ok point) := by
  unfold hidesAnchor
  simp only [Bool.and_eq_false_iff, Bool.not_eq_false', List.isEmpty_iff, List.filter_eq_nil_iff,
    List.any_eq_true, List.mem_filter, decide_eq_true_eq]
  constructor
  · rintro (hnone | ⟨certificate, ⟨hmem, hsubject⟩, hpoint⟩)
    · rintro ⟨certificate, hmem, hsubject⟩
      exact absurd hsubject (hnone certificate hmem)
    · exact fun _ ↦ ⟨certificate, hmem, hsubject, hpoint⟩
  · intro hkey
    by_cases hissuer : ∃ certificate ∈ presented, certificate.subject = name
    · obtain ⟨certificate, hmem, hsubject, hpoint⟩ := hkey hissuer
      exact Or.inr ⟨certificate, ⟨hmem, hsubject⟩, hpoint⟩
    · exact Or.inl fun certificate hmem hsubject ↦ hissuer ⟨certificate, hmem, hsubject⟩

/-- The file of an anchor of a key under a name. -/
def IsAnchorFile (library : AnchorLibrary) (pubKey : SubjectPublicKeyInfo) (keyId name : ByteString)
    (file : CertFile) : Prop :=
  ∃ taName, library.nameFromDer name = some taName ∧
    library.toDer ⟨pubKey, keyId, taName⟩ = some file.bytes

/-- The anchors that the loop makes: one for each name that has none yet and is not hidden. -/
theorem anchorFiles_eq_ok {pubKey : SubjectPublicKeyInfo} {keyId : ByteString} {index : ℕ}
    {certificates : List (ParsedCertificate x509)} {names : List ByteString}
    {files : List CertFile}
    (hfiles : anchorFiles library pubKey keyId point presented index certificates names =
      .ok files) :
    ∃ anchorNames : List ByteString, anchorNames.Nodup ∧
      (∀ name, name ∈ anchorNames ↔ name ∉ names ∧
        (∃ certificate ∈ certificates, certificate.issuer = name) ∧
          hidesAnchor presented point name = false) ∧
      List.Forall₂ (IsAnchorFile library pubKey keyId) anchorNames files := by
  induction certificates generalizing index names files with
  | nil =>
    obtain rfl := Except.ok.inj hfiles
    exact ⟨[], List.nodup_nil, fun name ↦ by simp, List.Forall₂.nil⟩
  | cons certificate certificates ih =>
    rw [anchorFiles] at hfiles
    split_ifs at hfiles with hhides hseen
    · obtain ⟨anchorNames, hnodup, hmem, hanchors⟩ := ih hfiles
      refine ⟨anchorNames, hnodup, fun name ↦ ?_, hanchors⟩
      rw [hmem, List.exists_mem_cons_iff, or_and_right]
      refine and_congr_right fun _ ↦ (or_iff_right ?_).symm
      rintro ⟨rfl, hshown⟩
      rw [hhides] at hshown
      exact Bool.noConfusion hshown
    · obtain ⟨anchorNames, hnodup, hmem, hanchors⟩ := ih hfiles
      refine ⟨anchorNames, hnodup, fun name ↦ ?_, hanchors⟩
      rw [hmem, List.exists_mem_cons_iff, or_and_right]
      refine and_congr_right fun hnew ↦ (or_iff_right ?_).symm
      rintro ⟨rfl, -⟩
      exact hnew (List.contains_iff_mem.mp hseen)
    · obtain ⟨taName, htaName, hfiles⟩ := bind_eq_ok_iff.mp hfiles
      obtain ⟨bytes, hbytes, hfiles⟩ := bind_eq_ok_iff.mp hfiles
      obtain ⟨rest, hrest, hfiles⟩ := bind_eq_ok_iff.mp hfiles
      obtain ⟨anchorNames, hnodup, hmem, hanchors⟩ := ih hrest
      rw [Bool.not_eq_true] at hhides
      rw [List.contains_iff_mem] at hseen
      obtain rfl := pure_eq_ok_iff.mp hfiles
      refine ⟨certificate.issuer :: anchorNames, ?_, fun name ↦ ?_, List.Forall₂.cons
        ⟨taName, orError_eq_ok_iff.mp htaName, orError_eq_ok_iff.mp hbytes⟩ hanchors⟩
      · refine List.nodup_cons.mpr ⟨fun habsurd ↦ ?_, hnodup⟩
        exact ((hmem _).mp habsurd).1 List.mem_cons_self
      · rw [List.mem_cons, hmem, List.exists_mem_cons_iff, List.mem_cons]
        by_cases hname : name = certificate.issuer
        · subst hname
          exact iff_of_true (Or.inl rfl) ⟨hseen, Or.inl rfl, hhides⟩
        · rw [or_iff_right hname, or_iff_right hname, or_iff_right (Ne.symm hname)]

end Names

/-! ### The paths of the library -/

/-- What is documented of the path library: a path starts at one of its anchors, goes over its
certificates and ends at its target, and it is valid only when every signature on it verifies under
the key before it, from the key of the anchor on. -/
structure BuildsPaths (signatures : SignatureLibrary x509) (certval : Certval)
    (library : AnchorLibrary) (encodedAnchor : certval.TrustAnchor → ByteString)
    (encodedCert : certval.PdvCertificate → ByteString) : Prop where
  trustAnchor_mem : ∀ files anchors source target time paths,
    certval.initializeAnchors files = some anchors →
      certval.getPathsForTarget anchors source target time = some paths →
        ∀ path ∈ paths, ∃ file ∈ files, file.bytes = encodedAnchor path.trustAnchor
  intermediates_mem : ∀ anchors settings files source target time paths,
    certval.initializeSource settings files = some source →
      certval.getPathsForTarget anchors (certval.findAllPartialPaths anchors settings source)
          target time = some paths →
        ∀ path ∈ paths, ∀ intermediate ∈ path.intermediates,
          ∃ file ∈ files, file.bytes = encodedCert intermediate
  target_eq : ∀ anchors source leaf target time paths, certval.parseTarget leaf = some target →
    certval.getPathsForTarget anchors source target time = some paths →
      ∀ path ∈ paths, encodedCert path.target = leaf
  certifiedFrom : ∀ settings path info, certval.validatePathRfc5280 settings path = .ok () →
    library.toDer info = some (encodedAnchor path.trustAnchor) →
      ∃ chain, List.Forall₂
          (fun certificate decoded ↦ x509.fromDer (encodedCert certificate) = some decoded)
          (path.intermediates ++ [path.target]) chain ∧
        CertifiedFrom signatures info.pubKey chain

/-- A chain of presented certificates from the configured key, over some of them to the last one. -/
def IsChainFromKey (signatures : SignatureLibrary x509) (parameters point : ByteString)
    (certificates intermediates : List ByteString) (leaf : ByteString) : Prop :=
  (∀ intermediate ∈ intermediates, intermediate ∈ certificates) ∧
    ∃ chain, List.Forall₂ (fun encoded decoded ↦ x509.fromDer encoded = some decoded)
        (intermediates ++ [leaf]) chain ∧
      CertifiedFrom signatures (configuredKey parameters point) chain

/-- A path of the configured key: the library builds it for the presented certificates and accepts
it, it is a chain of signatures from the key, and it starts at the anchor of the key under a name
that is not hidden. -/
structure IsPathFromKey (signatures : SignatureLibrary x509) (certval : Certval)
    (library : AnchorLibrary) (encodedAnchor : certval.TrustAnchor → ByteString)
    (encodedCert : certval.PdvCertificate → ByteString) (parameters keyId point : ByteString)
    (unique : List (ParsedCertificate x509)) (certificates : List ByteString) (now : ℕ)
    (leaf : ByteString) (anchorFiles : List CertFile) (settings : certval.Settings)
    (path : certval.Path) : Prop where
  isCandidate : IsCandidate certval anchorFiles [] certificates now settings path
  valid : certval.validatePathRfc5280 settings path = .ok ()
  isChain : IsChainFromKey signatures parameters point certificates
    (path.intermediates.map encodedCert) leaf
  anchor : ∃ name, IsAnchorName unique point name ∧ ∃ taName,
    library.nameFromDer name = some taName ∧
      library.toDer ⟨configuredKey parameters point, keyId, taName⟩ =
        some (encodedAnchor path.trustAnchor)

section Validation

variable {hashes certval library} {signatures : SignatureLibrary x509}
  {encodedAnchor : certval.TrustAnchor → ByteString}
  {encodedCert : certval.PdvCertificate → ByteString} {point : ByteString}
  {certificates : List ByteString} {now : ℕ}

/-- A path that is valid from an anchor of the configured key is one of that key. -/
theorem isPathFromKey_of_candidate
    (hlibrary : BuildsPaths signatures certval library encodedAnchor encodedCert)
    {parameters keyId : ByteString} {unique : List (ParsedCertificate x509)}
    {anchorNames : List ByteString} (hnames : ∀ name ∈ anchorNames, IsAnchorName unique point name)
    {files : List CertFile}
    (hanchors : List.Forall₂ (IsAnchorFile library (configuredKey parameters point) keyId)
      anchorNames files) {settings : certval.Settings} {path : certval.Path}
    (hcandidate : IsCandidate certval files [] certificates now settings path)
    (hvalid : certval.validatePathRfc5280 settings path = .ok ()) :
    ∃ leaf, certificates.getLast? = some leaf ∧
      IsPathFromKey signatures certval library encodedAnchor encodedCert parameters keyId point
        unique certificates now leaf files settings path := by
  have hbuilt := hcandidate
  obtain ⟨time, anchors, source, leaf, target, paths, -, hinitialize, hsource, hleaf, htarget,
    hpaths, hpath, -⟩ := hcandidate
  obtain ⟨file, hfile, hbytes⟩ :=
    hlibrary.trustAnchor_mem _ _ _ _ _ _ hinitialize hpaths path hpath
  obtain ⟨index, hindex, rfl⟩ := List.getElem_of_mem hfile
  have hname : index < anchorNames.length := hanchors.length_eq ▸ hindex
  obtain ⟨taName, htaName, hder⟩ := hanchors.get hname hindex
  have hanchor : library.toDer ⟨configuredKey parameters point, keyId, taName⟩ =
      some (encodedAnchor path.trustAnchor) := by
    rw [hder]
    exact congrArg some hbytes
  obtain ⟨chain, hchain, hcertified⟩ := hlibrary.certifiedFrom settings path _ hvalid hanchor
  refine ⟨leaf, hleaf, hbuilt, hvalid, ⟨?_, chain, ?_, hcertified⟩,
    anchorNames.get ⟨index, hname⟩, hnames _ (List.get_mem _ _), taName, htaName, hanchor⟩
  · intro encoded hencoded
    obtain ⟨intermediate, hintermediate, rfl⟩ := List.mem_map.mp hencoded
    obtain ⟨presented, hpresented, hbytes'⟩ :=
      hlibrary.intermediates_mem _ _ _ _ _ _ _ hsource hpaths path hpath intermediate
        hintermediate
    rw [← hbytes']
    exact bytes_mem_of_presentedFiles hpresented
  · rw [← hlibrary.target_eq _ _ _ _ _ _ htarget hpaths path hpath, ← List.map_singleton,
      ← List.map_append, List.forall₂_map_left_iff]
    exact hchain

/-- What `validate_with_p256_ca_key` makes of the key and checks of the certificates. -/
theorem validateWithP256CaKey_eq_ok {certificate : ParsedCertificate x509}
    (hvalidation : validateWithP256CaKey hashes certval library x509 point certificates now =
      .ok certificate) :
    ∃ parameters keyId unique anchorNames files, library.encodeOid p256Curve = some parameters ∧
      library.octetStringNew (hashes.digest .sha1 point) = some keyId ∧
      parseUnique hashes x509 certificates = .ok unique ∧ anchorNames.Nodup ∧
      (∀ name, name ∈ anchorNames ↔ IsAnchorName unique point name) ∧
      anchorFiles library (configuredKey parameters point) keyId point unique 0 unique [] =
        .ok files ∧
      List.Forall₂ (IsAnchorFile library (configuredKey parameters point) keyId) anchorNames files ∧
      validateFiles hashes x509 certval files [] certificates false now = .ok certificate := by
  unfold validateWithP256CaKey orInvalid at hvalidation
  simp only [ite_error_eq_ok_iff, bind_eq_ok_iff, orError_eq_ok_iff] at hvalidation
  obtain ⟨-, parameters, hparameters, bits, hbits, keyId, hkeyId, unique, hunique, files, hfiles,
    hvalidation⟩ := hvalidation
  obtain rfl := library.bitStringFromBytes_eq _ _ hbits
  obtain ⟨anchorNames, hnodup, hmem, hanchors⟩ := anchorFiles_eq_ok hfiles
  refine ⟨parameters, keyId, unique, anchorNames, files, hparameters, hkeyId, hunique, hnodup,
    fun name ↦ ?_, hfiles, hanchors, hvalidation⟩
  rw [hmem, and_iff_right List.not_mem_nil, hidesAnchor_eq_false_iff]
  exact Iff.rfl

end Validation

/-- The names of the anchors depend on the set of the presented certificates only. -/
theorem isAnchorName_iff_of_same_set {hashes : HashFunctions} {point name : ByteString}
    {first second : List ByteString} {unique unique' : List (ParsedCertificate x509)}
    (hunique : parseUnique hashes x509 first = .ok unique)
    (hunique' : parseUnique hashes x509 second = .ok unique')
    (hmem : ∀ encoded, encoded ∈ first ↔ encoded ∈ second)
    (hcollision : Set.InjOn (sha256Fingerprint hashes) {encoded | encoded ∈ first}) :
    IsAnchorName unique point name ↔ IsAnchorName unique' point name := by
  have hcollision' : Set.InjOn (sha256Fingerprint hashes) {encoded | encoded ∈ second} :=
    hcollision.mono fun encoded hencoded ↦ (hmem encoded).mpr hencoded
  have hsame : ∀ certificate, certificate ∈ unique ↔ certificate ∈ unique' := fun certificate ↦ by
    rw [mem_unique_iff hunique hcollision, mem_unique_iff hunique' hcollision']
    simp only [hmem]
  unfold IsAnchorName
  simp only [hsame]

/-! ### No trust but that in the key -/

/-- What validation against a configured key guarantees: the point it answers is that of the last
presented certificate, an end-entity certificate at the end of a path that the library built and
accepted; the path is a chain of signatures over presented certificates that starts at the key,
under a name that is not hidden; and which names these are does not depend on the order of the
presented certificates.

Assumes of the path library what is documented of its paths (`BuildsPaths`), and of the encoders of
the anchors only that a bit string keeps its bytes. The last part is for digests that do not collide
on the presented certificates. -/
theorem validateWithP256CaKey_trustsOnlyKey {hashes : HashFunctions} {certval : Certval}
    {library : AnchorLibrary} {signatures : SignatureLibrary x509}
    {encodedAnchor : certval.TrustAnchor → ByteString}
    {encodedCert : certval.PdvCertificate → ByteString}
    (hlibrary : BuildsPaths signatures certval library encodedAnchor encodedCert)
    {point agreed : ByteString} {certificates : List ByteString} {now : ℕ}
    (hvalidation : CertificateTrust.validateWithP256CaKey hashes certval library x509 point
      certificates now = .ok agreed) :
    x509.isP256Point point = true ∧
    ∃ leaf certificate unique, certificates.getLast? = some leaf ∧
      parse hashes x509 leaf = .ok certificate ∧ certificate.isCa = false ∧
      certificate.p256PublicPoint = .ok agreed ∧
      parseUnique hashes x509 certificates = .ok unique ∧
      (∃ parameters keyId files settings path,
        library.encodeOid p256Curve = some parameters ∧
        library.octetStringNew (hashes.digest .sha1 point) = some keyId ∧
        anchorFiles library (configuredKey parameters point) keyId point unique 0 unique [] =
          .ok files ∧
        IsPathFromKey signatures certval library encodedAnchor encodedCert parameters keyId point
          unique certificates now leaf files settings path) ∧
      ∀ other unique', (∀ encoded, encoded ∈ certificates ↔ encoded ∈ other) →
        parseUnique hashes x509 other = .ok unique' →
          Set.InjOn (sha256Fingerprint hashes) {encoded | encoded ∈ certificates} →
            ∀ name, IsAnchorName unique point name ↔ IsAnchorName unique' point name := by
  unfold CertificateTrust.validateWithP256CaKey at hvalidation
  rw [ite_error_eq_ok_iff, bind_eq_ok_iff, not_not] at hvalidation
  obtain ⟨hpoint, certificate, hcertificate, hagreed⟩ := hvalidation
  obtain ⟨parameters, keyId, unique, anchorNames, files, hparameters, hkeyId, hunique, -, hmem,
    hfiles, hanchors, hvalidated⟩ := validateWithP256CaKey_eq_ok hcertificate
  obtain ⟨parsed, hpresentable, -, hvalid, hlast⟩ := validateFiles_eq_ok_iff.mp hvalidated
  obtain ⟨settings, path, hcandidate, hvalid⟩ := findsValidPath_eq_ok_iff.mp hvalid
  rw [validatePath, if_neg Bool.false_ne_true] at hvalid
  obtain ⟨leaf, hleaf, hfromKey⟩ := isPathFromKey_of_candidate hlibrary
    (fun name hname ↦ (hmem name).mp hname) hanchors hcandidate hvalid
  obtain ⟨hca, hpublic⟩ := isCa_eq_false_of_p256KeyAgreementPoint hagreed
  have hparse : parse hashes x509 leaf = .ok certificate := by
    rcases hpresentable.parsesTo.getLast? with ⟨hnil, -⟩ | ⟨leaf', last, hleaf', hlast', hparse⟩
    · exact absurd hnil hpresentable.nonempty
    · obtain rfl := Option.some.inj (hleaf.symm.trans hleaf')
      obtain rfl := Option.some.inj (hlast.symm.trans hlast')
      exact hparse
  refine ⟨hpoint, leaf, certificate, unique, hleaf, hparse, hca, hpublic, hunique,
    ⟨parameters, keyId, files, settings, path, hparameters, hkeyId, hfiles, hfromKey⟩, ?_⟩
  intro other unique' hsame hunique' hcollision name
  exact isAnchorName_iff_of_same_set hunique hunique' hsame hcollision

/-! ### A chain under a configured key -/

/-- The certificates of `tokenX509`: the one encoded as zero is issued by the one encoded as one. -/
def issuedX509 : X509Library :=
  { tokenX509 with
    issuer := fun (certificate : ByteString) ↦ some (if certificate = [0] then [1] else [2]) }

/-- Signatures of the key `[4, 9]` of the certificate encoded as one, and of the key of that one of
the certificate encoded as zero. -/
def issuedSignatures : SignatureLibrary issuedX509 where
  oidToDer arcs := some (arcs.map UInt8.ofNat)
  parametersToDer := some
  tbsToDer := some
  signatureBytes _ := some []
  supportedSignatureAlgorithms := [{
    signatureAlgId := []
    publicKeyAlgId := ecPublicKey.map UInt8.ofNat
    verifySignature := fun publicKey message _ ↦
      (publicKey, message) ∈ [(([4, 9] : ByteString), ([1] : ByteString)), ([4, 1], [0])] }]

/-- Anchors of the key `[4, 9]`, encoded as their names. -/
def issuedAnchors : AnchorLibrary where
  Name := ByteString
  encodeOid _ := some []
  bitStringFromBytes := some
  octetStringNew := some
  nameFromDer := some
  toDer info := if info.pubKey = configuredKey [] [4, 9] then some info.taName else none
  bitStringFromBytes_eq _ _ hbits := (Option.some.inj hbits).symm

/-- The check of the signatures on a chain. -/
def certifies : (spki : SubjectPublicKeyInfo) → (chain : List ByteString) → Bool
  | _, [] => true
  | spki, certificate :: chain =>
    (verifySignature issuedSignatures certificate (some []) { oid := [], parameters := none }
      spki).isOk && certifies (@publicKeyInfo issuedX509 certificate) chain

theorem certifiedFrom_of_certifies {spki : SubjectPublicKeyInfo} {chain : List ByteString}
    (hchain : certifies spki chain = true) : CertifiedFrom issuedSignatures spki chain := by
  induction chain generalizing spki with
  | nil => trivial
  | cons certificate chain ih =>
    rw [certifies, Bool.and_eq_true] at hchain
    refine ⟨⟨certificate, rfl, ?_⟩, ih hchain.2⟩
    cases hverified : verifySignature issuedSignatures certificate (some [])
        { oid := [], parameters := none } spki with
    | error error =>
      rw [hverified] at hchain
      exact absurd hchain.1 Bool.false_ne_true
    | ok _ => exact hverified

/-- The validation of the certificates on a path under the key `[4, 9]`. -/
def validateChain (chain : List ByteString) : Except CertvalError Unit :=
  if (∀ encoded ∈ chain, encoded.length = 1) ∧ certifies (configuredKey [] [4, 9]) chain then .ok ()
  else .error (.other 2)

/-- A path library that answers, for each anchor, the path without intermediate certificates and
those with one, and accepts the paths on which the signatures verify. -/
def issuedCertval : Certval where
  TimeOfInterest := Unit
  TaSource := List CertFile
  CertSource := List CertFile
  TrustAnchor := ByteString
  PdvCertificate := ByteString
  timeFromUnixSecs _ := some ()
  initializeAnchors := some
  initializeSource _ files := some files
  findAllPartialPaths _ _ source := source
  parseTarget := some
  getPathsForTarget anchors source target _ := some (anchors.flatMap fun anchor ↦
    ([] :: source.map fun file ↦ [file.bytes]).map fun intermediates ↦
      { trustAnchor := anchor.bytes, intermediates := intermediates, target := target })
  enforceTrustAnchorConstraints settings _ := some settings
  keyUsageExtension _ := some none
  validatePathRfc5280 _ path := validateChain (path.intermediates ++ [path.target])
  checkKeyUsage _ _ := .ok ()
  checkExtendedKeyUsage _ _ := .ok ()
  checkCriticalExtensions _ _ := .ok ()
  verifySignatures _ _ := .ok ()

/-- The paths that `issuedCertval` answers. -/
theorem mem_paths_issuedCertval {anchors source : List CertFile} {target : ByteString}
    {paths : List issuedCertval.Path}
    (hpaths : issuedCertval.getPathsForTarget anchors source target () = some paths)
    {path : issuedCertval.Path} (hpath : path ∈ paths) :
    (∃ anchor ∈ anchors, anchor.bytes = path.trustAnchor) ∧
      (∀ intermediate ∈ path.intermediates, ∃ file ∈ source, file.bytes = intermediate) ∧
      path.target = target := by
  obtain rfl := Option.some.inj hpaths
  obtain ⟨anchor, hanchor, hpath⟩ := List.mem_flatMap.mp hpath
  obtain ⟨intermediates, hintermediates, rfl⟩ := List.mem_map.mp hpath
  refine ⟨⟨anchor, hanchor, rfl⟩, ?_, rfl⟩
  rcases List.mem_cons.mp hintermediates with rfl | hone
  · exact fun _ habsurd ↦ absurd habsurd List.not_mem_nil
  · obtain ⟨file, hfile, rfl⟩ := List.mem_map.mp hone
    exact fun intermediate hmem ↦ ⟨file, hfile, (List.mem_singleton.mp hmem).symm⟩

theorem buildsPaths_issuedCertval :
    BuildsPaths issuedSignatures issuedCertval issuedAnchors id id where
  trustAnchor_mem files anchors source target time paths hanchors hpaths path hpath := by
    obtain rfl := Option.some.inj hanchors
    exact (mem_paths_issuedCertval hpaths hpath).1
  intermediates_mem anchors settings files source target time paths hsource hpaths path hpath := by
    obtain rfl := Option.some.inj hsource
    exact (mem_paths_issuedCertval hpaths hpath).2.1
  target_eq anchors source leaf target time paths htarget hpaths path hpath := by
    obtain rfl := Option.some.inj htarget
    exact (mem_paths_issuedCertval hpaths hpath).2.2
  certifiedFrom settings path info hvalid hanchor := by
    have hkey : info.pubKey = configuredKey [] [4, 9] := by
      by_contra hother
      have hnone : issuedAnchors.toDer info = none := if_neg hother
      exact absurd (hnone.symm.trans hanchor) (by simp)
    obtain ⟨hlength, hcertified⟩ := ite_ok_eq_ok_iff.mp hvalid
    rw [hkey]
    refine ⟨path.intermediates ++ [path.target], ?_, certifiedFrom_of_certifies hcertified⟩
    exact List.forall₂_same.mpr fun encoded hencoded ↦ if_pos (hlength encoded hencoded)

/-- The certificate encoded as zero is validated against the key that signed its issuer. The name of
the issuer, which is presented, is hidden. -/
theorem validateWithP256CaKey_trustsOnlyKey_issued :
    CertificateTrust.validateWithP256CaKey lengthHashes issuedCertval issuedAnchors issuedX509
        [4, 9] [[1], [0]] 0 = .ok [4, 0] ∧
      ∃ unique, parseUnique lengthHashes issuedX509 [[1], [0]] = .ok unique ∧
        ¬ IsAnchorName unique [4, 9] [1] ∧
        ∃ keyId files settings path, IsPathFromKey issuedSignatures issuedCertval issuedAnchors id
          id [] keyId [4, 9] unique [[1], [0]] 0 [0] files settings path := by
  have hvalidation : CertificateTrust.validateWithP256CaKey lengthHashes issuedCertval issuedAnchors
      issuedX509 [4, 9] [[1], [0]] 0 = .ok [4, 0] := rfl
  obtain ⟨-, leaf, certificate, unique, hleaf, -, -, -, hunique,
    ⟨parameters, keyId, files, settings, path, hparameters, -, -, hpath⟩, -⟩ :=
    validateWithP256CaKey_trustsOnlyKey buildsPaths_issuedCertval hvalidation
  obtain rfl := Option.some.inj hparameters
  obtain rfl := Option.some.inj hleaf
  refine ⟨hvalidation, unique, hunique, fun hname ↦ ?_, keyId, files, settings, path, hpath⟩
  obtain rfl := Except.ok.inj hunique
  exact absurd (hidesAnchor_eq_false_iff.mpr hname.2) (by decide)

end SoftwareKeyCore.CertificateChain
