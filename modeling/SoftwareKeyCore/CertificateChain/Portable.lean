import SoftwareKeyCore.CertificateChain.Certificate

/-!
# Certificate path validation

`certificate_chain/portable.rs` and the entry points of `certificate_chain.rs` over a configured
trust. The path builder and validator is third-party code: `Certval` has its types and the
operations the code calls, arbitrary ones. The clock reading of a call is a parameter.

`validate_files` checks that the last certificate of the presented list without repeats is an
end-entity certificate, and it validates and returns the last certificate of the presented list.
The two differ when the list ends in a CA certificate that it repeats (`HidesCaLeaf`).
`validateFiles_eq_ok_iff` is what a successful validation consists of.
`returnsLastEndEntity_iff` is the exact condition under which every path library leaves
only an end-entity certificate to be returned. The key agreement entry point makes a second check
and needs no such condition (`validateP256KeyAgreementPoint_isEndEntity`).
-/

set_option autoImplicit false
set_option relaxedAutoImplicit false

namespace SoftwareKeyCore.CertificateChain

open FallibleResult FirstOccurrences

/-- `CertFile`. -/
structure CertFile where
  filename : String
  bytes : ByteString
  deriving DecidableEq, Repr

/-- What the code distinguishes of a path library's errors. -/
inductive CertvalError
  | invalidKeyUsage
  | other (code : ℕ)
  deriving DecidableEq, Repr

/-- The settings the code makes. -/
structure CertificationPathSettings (TimeOfInterest : Type) where
  timeOfInterest : TimeOfInterest
  checkRevocationStatus : Bool
  requireTaStore : Bool
  forbidSelfSignedEe : Bool
  enforceTrustAnchorValidity : Bool
  enforceTrustAnchorConstraints : Bool

/-- `CertificationPath`. -/
structure CertificationPath (TrustAnchor Certificate : Type) where
  trustAnchor : TrustAnchor
  intermediates : List Certificate
  target : Certificate

/-- The path library. Its environment is the default one of RFC 5280 with the signature
verification of `portable.rs`; what depends on it is part of the operations. -/
structure Certval where
  TimeOfInterest : Type
  TaSource : Type
  CertSource : Type
  TrustAnchor : Type
  PdvCertificate : Type
  timeFromUnixSecs : ℕ → Option TimeOfInterest
  initializeAnchors : List CertFile → Option TaSource
  initializeSource : CertificationPathSettings TimeOfInterest → List CertFile → Option CertSource
  findAllPartialPaths :
    TaSource → CertificationPathSettings TimeOfInterest → CertSource → CertSource
  parseTarget : ByteString → Option PdvCertificate
  getPathsForTarget : TaSource → CertSource → PdvCertificate → TimeOfInterest →
    Option (List (CertificationPath TrustAnchor PdvCertificate))
  enforceTrustAnchorConstraints : CertificationPathSettings TimeOfInterest → TrustAnchor →
    Option (CertificationPathSettings TimeOfInterest)
  keyUsageExtension : PdvCertificate → Option (Option ByteString)
  validatePathRfc5280 : CertificationPathSettings TimeOfInterest →
    CertificationPath TrustAnchor PdvCertificate → Except CertvalError Unit
  checkKeyUsage : CertificationPathSettings TimeOfInterest →
    CertificationPath TrustAnchor PdvCertificate → Except CertvalError Unit
  checkExtendedKeyUsage : CertificationPathSettings TimeOfInterest →
    CertificationPath TrustAnchor PdvCertificate → Except CertvalError Unit
  checkCriticalExtensions : CertificationPathSettings TimeOfInterest →
    CertificationPath TrustAnchor PdvCertificate → Except CertvalError Unit
  verifySignatures : CertificationPathSettings TimeOfInterest →
    CertificationPath TrustAnchor PdvCertificate → Except CertvalError Unit

namespace Certval

variable (certval : Certval)

/-- The settings of the path library. -/
abbrev Settings := CertificationPathSettings certval.TimeOfInterest

/-- The paths of the path library. -/
abbrev Path := CertificationPath certval.TrustAnchor certval.PdvCertificate

end Certval

/-- `CertificateTrust`. -/
structure CertificateTrust where
  rootFingerprints : List Fingerprint
  fingerprint : Fingerprint
  localCertificates : List ByteString
  deriving DecidableEq, Repr

variable (hashes : HashFunctions) (x509 : X509Library) (certval : Certval)

/-! ### Validation of files -/

/-- `validate_optional_ca_key_usage`. -/
def validateOptionalCaKeyUsage (settings : certval.Settings) (path : certval.Path) :
    Except CertvalError Unit :=
  match certval.validatePathRfc5280 settings path with
  | .error .invalidKeyUsage =>
    let intermediates := path.intermediates.filter fun certificate ↦
      match certval.keyUsageExtension certificate with
      | some none => false
      | _ => true
    if intermediates.length = path.intermediates.length then .error .invalidKeyUsage
    else do
      certval.checkKeyUsage settings { path with intermediates := intermediates }
      certval.checkExtendedKeyUsage settings path
      certval.checkCriticalExtensions settings path
      certval.verifySignatures settings path
  | result => result

/-- The path validation callback of `validate_files`. -/
def validatePath (optionalCaKeyUsage : Bool) (settings : certval.Settings) (path : certval.Path) :
    Except CertvalError Unit :=
  if optionalCaKeyUsage then validateOptionalCaKeyUsage certval settings path
  else certval.validatePathRfc5280 settings path

/-- The last loop of `validate_files`: some path passes under the settings of its anchor. -/
def anyPathValidates (optionalCaKeyUsage : Bool) (settings : certval.Settings) :
    (paths : List certval.Path) → Bool
  | [] => false
  | path :: paths =>
    match certval.enforceTrustAnchorConstraints settings path.trustAnchor with
    | none => anyPathValidates optionalCaKeyUsage settings paths
    | some pathSettings =>
      match validatePath certval optionalCaKeyUsage pathSettings path with
      | .ok () => true
      | .error _ => anyPathValidates optionalCaKeyUsage settings paths

/-- The files of the presented certificates but the last. -/
def presentedFiles (certificates : List ByteString) : List CertFile :=
  certificates.dropLast.mapIdx fun index encoded ↦
    { filename := s!"presented-{index}", bytes := encoded }

/-- What `validate_files` asks of the path library, from the settings to the last loop. -/
def findsValidPath (anchorFiles sourceFiles : List CertFile) (certificates : List ByteString)
    (optionalCaKeyUsage : Bool) (now : ℕ) : Except CertificateError Unit := do
  let time ← orInvalid (certval.timeFromUnixSecs now)
  let settings : certval.Settings :=
    { timeOfInterest := time
      checkRevocationStatus := false
      requireTaStore := true
      forbidSelfSignedEe := true
      enforceTrustAnchorValidity := true
      enforceTrustAnchorConstraints := true }
  let anchors ← orInvalid (certval.initializeAnchors anchorFiles)
  let source ← orInvalid
    (certval.initializeSource settings (sourceFiles ++ presentedFiles certificates))
  let source := certval.findAllPartialPaths anchors settings source
  let leaf ← orInvalid certificates.getLast?
  let target ← orInvalid (certval.parseTarget leaf)
  let paths ← orInvalid (certval.getPathsForTarget anchors source target time)
  if ¬ anyPathValidates certval optionalCaKeyUsage settings paths then .error .invalid else .ok ()

/-- `validate_files`. -/
def validateFiles (anchorFiles sourceFiles : List CertFile) (certificates : List ByteString)
    (optionalCaKeyUsage : Bool) (now : ℕ) :
    Except CertificateError (ParsedCertificate x509) :=
  if certificates = [] ∨ 8 < certificates.length then .error .invalid
  else do
    let presented ← parseUnique hashes x509 certificates
    let last ← orInvalid presented.getLast?
    if last.isCa then .error .invalid
    else if presented.any (fun certificate ↦ !certificate.isValidAt now) then .error .invalid
    else do
      findsValidPath certval anchorFiles sourceFiles certificates optionalCaKeyUsage now
      let leaf ← orInvalid certificates.getLast?
      parse hashes x509 leaf

/-! ### Entry points -/

/-- The loop of `validate_inner` that limits the exception to one issuer. -/
def checkOptionalKeyUsageIssuer (allowed : Fingerprint) :
    (certificates : List (ParsedCertificate x509)) → Except CertificateError Unit
  | [] => .ok ()
  | certificate :: certificates =>
    if certificate.isCa then do
      let usage ← orInvalid (x509.keyUsage certificate.certificate)
      if usage = none ∧ certificate.fingerprint ≠ allowed then .error .invalid
      else checkOptionalKeyUsageIssuer allowed certificates
    else checkOptionalKeyUsageIssuer allowed certificates

/-- The preflight of `validate_inner`. -/
def preflight (trust : CertificateTrust) (certificates : List ByteString) :
    (optionalKeyUsageIssuer : Option Fingerprint) → Except CertificateError Unit
  | none => .ok ()
  | some allowed => do
    let parsed ← parseUnique hashes x509 (trust.localCertificates ++ certificates)
    checkOptionalKeyUsageIssuer x509 allowed parsed

/-- The loop of `validate_inner` that sorts the configured certificates from an index on into
anchors and other certificates. -/
def configuredFiles (trust : CertificateTrust) :
    (index : ℕ) → (certificates : List ByteString) →
      Except CertificateError (List CertFile × List CertFile)
  | _, [] => .ok ([], [])
  | index, encoded :: certificates => do
    let certificate ← parse hashes x509 encoded
    let file : CertFile := { filename := s!"configured-{index}", bytes := encoded }
    let files ← configuredFiles trust (index + 1) certificates
    return if trust.rootFingerprints.contains certificate.fingerprint then
      (file :: files.1, files.2)
    else (files.1, file :: files.2)

/-- `validate_inner`. -/
def validateInner (trust : CertificateTrust) (certificates : List ByteString)
    (optionalKeyUsageIssuer : Option Fingerprint) (now : ℕ) :
    Except CertificateError (ParsedCertificate x509) := do
  preflight hashes x509 trust certificates optionalKeyUsageIssuer
  let files ← configuredFiles hashes x509 trust 0 trust.localCertificates
  validateFiles hashes x509 certval files.1 files.2 certificates optionalKeyUsageIssuer.isSome now

/-- `validate`. -/
def validate (trust : CertificateTrust) (certificates : List ByteString) (now : ℕ) :
    Except CertificateError (ParsedCertificate x509) :=
  validateInner hashes x509 certval trust certificates none now

/-- `validate_attestation`. -/
def validateAttestation (trust : CertificateTrust) (certificates : List ByteString)
    (optionalKeyUsageIssuer : ByteString) (now : ℕ) :
    Except CertificateError (ParsedCertificate x509) := do
  let issuer ← parse hashes x509 optionalKeyUsageIssuer
  if ¬ issuer.isCa ∨ issuer.isSelfIssued then .error .invalid
  else validateInner hashes x509 certval trust certificates (some issuer.fingerprint) now

/-- `CertificateTrust::validate_p256_public_point`. -/
def validateP256PublicPoint (trust : CertificateTrust) (certificates : List ByteString)
    (now : ℕ) : Except CertificateError ByteString := do
  let certificate ← validate hashes x509 certval trust certificates now
  certificate.p256PublicPoint

/-- `CertificateTrust::validate_p256_attestation_chain`. -/
def validateP256AttestationChain (trust : CertificateTrust) (certificates : List ByteString)
    (optionalKeyUsageIssuer : ByteString) (now : ℕ) : Except CertificateError ByteString := do
  let certificate ←
    validateAttestation hashes x509 certval trust certificates optionalKeyUsageIssuer now
  certificate.p256PublicPoint

/-- `CertificateTrust::validate_p256_key_agreement_point`. -/
def validateP256KeyAgreementPoint (trust : CertificateTrust) (certificates : List ByteString)
    (now : ℕ) : Except CertificateError ByteString := do
  let certificate ← validate hashes x509 certval trust certificates now
  certificate.p256KeyAgreementPoint

/-! ### Successful validations -/

variable {hashes x509 certval}

/-- A presented list that passes the checks of `validate_files` on its certificates, and the
certificates it parses to. -/
structure IsPresentable (hashes : HashFunctions) (certificates : List ByteString)
    (parsed : List (ParsedCertificate x509)) (now : ℕ) : Prop where
  parsesTo : ParsesTo hashes x509 certificates parsed
  nonempty : certificates ≠ []
  length_le : certificates.length ≤ 8
  valid : ∀ certificate ∈ firstOccurrences ParsedCertificate.fingerprint parsed [],
    certificate.isValidAt now

/-- What a successful validation consists of. -/
theorem validateFiles_eq_ok_iff {anchorFiles sourceFiles : List CertFile}
    {certificates : List ByteString} {optionalCaKeyUsage : Bool} {now : ℕ}
    {certificate : ParsedCertificate x509} :
    validateFiles hashes x509 certval anchorFiles sourceFiles certificates optionalCaKeyUsage now =
        .ok certificate ↔
      ∃ parsed, IsPresentable hashes certificates parsed now ∧
        (∃ last, (firstOccurrences ParsedCertificate.fingerprint parsed []).getLast? = some last ∧
          last.isCa = false) ∧
        findsValidPath certval anchorFiles sourceFiles certificates optionalCaKeyUsage now =
          .ok () ∧
        parsed.getLast? = some certificate := by
  unfold validateFiles orInvalid
  simp only [ite_error_eq_ok_iff, bind_eq_ok_iff, orError_eq_ok_iff, parseUnique_eq_ok_iff,
    not_or, not_lt, Bool.not_eq_true]
  constructor
  · rintro ⟨⟨hnonempty, hlength⟩, unique, ⟨parsed, hparsed, rfl⟩, last, hlast, hca, hvalid, ⟨⟩,
      hpath, leaf, hleaf, hcertificate⟩
    refine ⟨parsed, ⟨hparsed, hnonempty, hlength, ?_⟩, ⟨last, hlast, hca⟩, hpath, ?_⟩
    · simpa using hvalid
    · rcases hparsed.getLast? with ⟨hnil, -⟩ | ⟨leaf', last', hleaf', hlast', hparse⟩
      · exact absurd hnil hnonempty
      · obtain rfl := Option.some.inj (hleaf.symm.trans hleaf')
        obtain rfl := Except.ok.inj (hparse.symm.trans hcertificate)
        exact hlast'
  · rintro ⟨parsed, hpresentable, ⟨last, hlast, hca⟩, hpath, hcertificate⟩
    refine ⟨⟨hpresentable.nonempty, hpresentable.length_le⟩, _,
      ⟨parsed, hpresentable.parsesTo, rfl⟩, last, hlast, hca, ?_, (), hpath, ?_⟩
    · simpa using hpresentable.valid
    · rcases hpresentable.parsesTo.getLast? with ⟨hnil, -⟩ | ⟨leaf, last', hleaf, hlast', hparse⟩
      · exact absurd hnil hpresentable.nonempty
      · obtain rfl := Option.some.inj (hlast'.symm.trans hcertificate)
        exact ⟨leaf, hleaf, hparse⟩

/-- The configured certificates are sorted exactly when all of them parse. -/
theorem exists_configuredFiles_iff {trust : CertificateTrust} {index : ℕ}
    {certificates : List ByteString} :
    (∃ files, configuredFiles hashes x509 trust index certificates = .ok files) ↔
      ∀ encoded ∈ certificates, ∃ certificate, parse hashes x509 encoded = .ok certificate := by
  induction certificates generalizing index with
  | nil => simp [configuredFiles]
  | cons encoded certificates ih =>
    rw [List.forall_mem_cons]
    constructor
    · rintro ⟨files, hfiles⟩
      rw [configuredFiles, bind_eq_ok_iff] at hfiles
      obtain ⟨certificate, hcertificate, hfiles⟩ := hfiles
      obtain ⟨rest, hrest, -⟩ := bind_eq_ok_iff.mp hfiles
      exact ⟨⟨certificate, hcertificate⟩, ih.mp ⟨rest, hrest⟩⟩
    · rintro ⟨⟨certificate, hcertificate⟩, hcertificates⟩
      obtain ⟨files, hrest⟩ := ih.mpr hcertificates
      rw [configuredFiles]
      exact ⟨_, bind_eq_ok_iff.mpr ⟨certificate, hcertificate, bind_eq_ok_iff.mpr
        ⟨files, hrest, rfl⟩⟩⟩

/-! ### The returned certificate -/

/-- A list that ends in a CA certificate it repeats: the last certificate with a new fingerprint
is an end-entity certificate. -/
def HidesCaLeaf (parsed : List (ParsedCertificate x509)) : Prop :=
  (∃ front endEntity back, parsed = front ++ endEntity :: back ∧ endEntity.isCa = false ∧
    endEntity.fingerprint ∉ front.map ParsedCertificate.fingerprint ∧
    ∀ certificate ∈ back, certificate.fingerprint ∈
      (front ++ [endEntity]).map ParsedCertificate.fingerprint) ∧
    ∃ leaf, parsed.getLast? = some leaf ∧ leaf.isCa = true

/-- Whatever the path library answers, only the last certificate of the presented list is
returned, and only when it is not a CA certificate. -/
def ReturnsLastEndEntity (hashes : HashFunctions) (certificates : List ByteString)
    (validation : Certval → Except CertificateError (ParsedCertificate x509)) : Prop :=
  ∀ certval certificate, validation certval = .ok certificate →
    (∃ leaf, certificates.getLast? = some leaf ∧ parse hashes x509 leaf = .ok certificate) ∧
      certificate.isCa = false

/-- Only the last certificate of the presented list is returned. -/
theorem parse_getLast?_of_validateInner {trust : CertificateTrust}
    {certificates : List ByteString} {optionalKeyUsageIssuer : Option Fingerprint} {now : ℕ}
    {certificate : ParsedCertificate x509}
    (hvalidation : validateInner hashes x509 certval trust certificates optionalKeyUsageIssuer now =
      .ok certificate) :
    ∃ leaf, certificates.getLast? = some leaf ∧ parse hashes x509 leaf = .ok certificate := by
  obtain ⟨-, -, hvalidation⟩ := bind_eq_ok_iff.mp hvalidation
  obtain ⟨files, -, hvalidation⟩ := bind_eq_ok_iff.mp hvalidation
  obtain ⟨parsed, hpresentable, -, -, hlast⟩ := validateFiles_eq_ok_iff.mp hvalidation
  rcases hpresentable.parsesTo.getLast? with ⟨hnil, -⟩ | ⟨leaf, last, hleaf, hlast', hparse⟩
  · exact absurd hnil hpresentable.nonempty
  · obtain rfl := Option.some.inj (hlast'.symm.trans hlast)
    exact ⟨leaf, hleaf, hparse⟩

/-- The path library that finds one path for every target and accepts it. -/
def permissiveCertval : Certval where
  TimeOfInterest := Unit
  TaSource := Unit
  CertSource := Unit
  TrustAnchor := Unit
  PdvCertificate := Unit
  timeFromUnixSecs _ := some ()
  initializeAnchors _ := some ()
  initializeSource _ _ := some ()
  findAllPartialPaths _ _ source := source
  parseTarget _ := some ()
  getPathsForTarget _ _ _ _ := some [{ trustAnchor := (), intermediates := [], target := () }]
  enforceTrustAnchorConstraints settings _ := some settings
  keyUsageExtension _ := some none
  validatePathRfc5280 _ _ := .ok ()
  checkKeyUsage _ _ := .ok ()
  checkExtendedKeyUsage _ _ := .ok ()
  checkCriticalExtensions _ _ := .ok ()
  verifySignatures _ _ := .ok ()

theorem findsValidPath_permissiveCertval {anchorFiles sourceFiles : List CertFile}
    {certificates : List ByteString} {optionalCaKeyUsage : Bool} {now : ℕ} {leaf : ByteString}
    (hleaf : certificates.getLast? = some leaf) :
    findsValidPath permissiveCertval anchorFiles sourceFiles certificates optionalCaKeyUsage now =
      .ok () := by
  unfold findsValidPath
  rw [hleaf]
  cases optionalCaKeyUsage with
  | false => rfl
  | true => rfl

/-- The presented list and the trust that reach a hidden CA leaf: every configured certificate
parses, the presented list passes the checks on its certificates, and it hides a CA leaf. -/
def ReachesHiddenCaLeaf (hashes : HashFunctions) (x509 : X509Library) (trust : CertificateTrust)
    (certificates : List ByteString) (now : ℕ) : Prop :=
  (∀ encoded ∈ trust.localCertificates,
    ∃ certificate, parse hashes x509 encoded = .ok certificate) ∧
    ∃ parsed : List (ParsedCertificate x509),
      IsPresentable hashes certificates parsed now ∧ HidesCaLeaf parsed

/-- The condition under which the inner validation returns end-entity certificates only. -/
theorem returnsLastEndEntity_validateInner_iff {trust : CertificateTrust}
    {certificates : List ByteString} {optionalKeyUsageIssuer : Option Fingerprint} {now : ℕ}
    (hpreflight : preflight hashes x509 trust certificates optionalKeyUsageIssuer = .ok ()) :
    ReturnsLastEndEntity hashes certificates (fun certval ↦
        validateInner hashes x509 certval trust certificates optionalKeyUsageIssuer now) ↔
      ¬ ReachesHiddenCaLeaf hashes x509 trust certificates now := by
  constructor
  · rintro hreturns ⟨htrust, parsed, hpresentable, ⟨front, endEntity, back, hsplit, hca, hnew,
      hrepeats⟩, leaf, hleaf, hleafCa⟩
    obtain ⟨files, hfiles⟩ := exists_configuredFiles_iff.mpr htrust
    have hlast := (getLast?_firstOccurrences ParsedCertificate.fingerprint parsed endEntity).mpr
      ⟨front, back, hsplit, hnew, hrepeats⟩
    have hencoded : ∃ encoded, certificates.getLast? = some encoded := by
      rcases hpresentable.parsesTo.getLast? with ⟨hnil, -⟩ | ⟨encoded, -, hencoded, -⟩
      · exact absurd hnil hpresentable.nonempty
      · exact ⟨encoded, hencoded⟩
    obtain ⟨encoded, hencoded⟩ := hencoded
    have hvalidation : validateInner hashes x509 permissiveCertval trust certificates
        optionalKeyUsageIssuer now = .ok leaf :=
      bind_eq_ok_iff.mpr ⟨(), hpreflight, bind_eq_ok_iff.mpr ⟨files, hfiles,
        validateFiles_eq_ok_iff.mpr ⟨parsed, hpresentable, ⟨endEntity, hlast, hca⟩,
          findsValidPath_permissiveCertval hencoded, hleaf⟩⟩⟩
    have hfalse := (hreturns permissiveCertval leaf hvalidation).2
    rw [hleafCa] at hfalse
    exact absurd hfalse (by simp)
  · intro hreaches certval certificate hvalidation
    refine ⟨parse_getLast?_of_validateInner hvalidation, ?_⟩
    obtain ⟨-, -, hvalidation⟩ := bind_eq_ok_iff.mp hvalidation
    obtain ⟨files, hfiles, hvalidation⟩ := bind_eq_ok_iff.mp hvalidation
    obtain ⟨parsed, hpresentable, ⟨last, hlast, hca⟩, -, hcertificate⟩ :=
      validateFiles_eq_ok_iff.mp hvalidation
    by_contra hcertificateCa
    obtain ⟨front, back, hsplit, hnew, hrepeats⟩ :=
      (getLast?_firstOccurrences ParsedCertificate.fingerprint parsed last).mp hlast
    refine hreaches ⟨exists_configuredFiles_iff.mp ⟨files, hfiles⟩, parsed, hpresentable,
      ⟨front, last, back, hsplit, hca, hnew, hrepeats⟩, certificate, hcertificate, ?_⟩
    exact Bool.eq_true_of_not_eq_false hcertificateCa

/-- A successful attestation validation has an admissible issuer and is an inner validation. -/
theorem validateAttestation_eq_ok_iff {trust : CertificateTrust} {certificates : List ByteString}
    {optionalKeyUsageIssuer : ByteString} {now : ℕ} {certificate : ParsedCertificate x509} :
    validateAttestation hashes x509 certval trust certificates optionalKeyUsageIssuer now =
        .ok certificate ↔
      ∃ issuer, parse hashes x509 optionalKeyUsageIssuer = .ok issuer ∧
        (issuer.isCa = true ∧ issuer.isSelfIssued = false) ∧
        validateInner hashes x509 certval trust certificates (some issuer.fingerprint) now =
          .ok certificate := by
  unfold validateAttestation
  simp only [bind_eq_ok_iff, ite_error_eq_ok_iff, not_or, Bool.not_eq_true,
    Bool.not_eq_false]

/-- Ordinary validation returns end-entity certificates only, except on a presented list that
hides a CA leaf; attestation validation likewise, when its issuer is admissible and its preflight
passes.

Nothing is assumed of the path library: it may build no path, or accept any of those it builds. -/
theorem returnsLastEndEntity_iff (hashes : HashFunctions) (x509 : X509Library)
    (trust : CertificateTrust) (certificates : List ByteString)
    (optionalKeyUsageIssuer : ByteString) (now : ℕ) :
    (ReturnsLastEndEntity hashes certificates (fun certval ↦
        validate hashes x509 certval trust certificates now) ↔
      ¬ ReachesHiddenCaLeaf hashes x509 trust certificates now) ∧
    (ReturnsLastEndEntity hashes certificates (fun certval ↦
        validateAttestation hashes x509 certval trust certificates optionalKeyUsageIssuer now) ↔
      ¬ (ReachesHiddenCaLeaf hashes x509 trust certificates now ∧
        ∃ issuer, parse hashes x509 optionalKeyUsageIssuer = .ok issuer ∧ issuer.isCa = true ∧
          issuer.isSelfIssued = false ∧
          preflight hashes x509 trust certificates (some issuer.fingerprint) = .ok ())) := by
  refine ⟨returnsLastEndEntity_validateInner_iff rfl, ?_⟩
  constructor
  · rintro hreturns ⟨hreaches, issuer, hissuer, hca, hselfIssued, hpreflight⟩
    refine (returnsLastEndEntity_validateInner_iff hpreflight).mp ?_ hreaches
    intro certval certificate hvalidation
    exact hreturns certval certificate (validateAttestation_eq_ok_iff.mpr
      ⟨issuer, hissuer, ⟨hca, hselfIssued⟩, hvalidation⟩)
  · intro hreaches certval certificate hvalidation
    obtain ⟨issuer, hissuer, ⟨hca, hselfIssued⟩, hinner⟩ :=
      validateAttestation_eq_ok_iff.mp hvalidation
    obtain ⟨⟨⟩, hpreflight, -⟩ := bind_eq_ok_iff.mp hinner
    have hhidden : ¬ ReachesHiddenCaLeaf hashes x509 trust certificates now := fun hhidden ↦
      hreaches ⟨hhidden, issuer, hissuer, hca, hselfIssued, hpreflight⟩
    exact (returnsLastEndEntity_validateInner_iff hpreflight).mpr hhidden certval certificate hinner

/-- A point of the key agreement entry point is that of the last presented certificate, and that
certificate is not a CA certificate. -/
theorem validateP256KeyAgreementPoint_isEndEntity {trust : CertificateTrust}
    {certificates : List ByteString} {now : ℕ} {point : ByteString}
    (hpoint : validateP256KeyAgreementPoint hashes x509 certval trust certificates now =
      .ok point) :
    ∃ leaf certificate, certificates.getLast? = some leaf ∧
      parse hashes x509 leaf = .ok certificate ∧ certificate.isCa = false ∧
      certificate.p256PublicPoint = .ok point := by
  obtain ⟨certificate, hvalidation, hpoint⟩ := bind_eq_ok_iff.mp hpoint
  obtain ⟨leaf, hleaf, hparse⟩ := parse_getLast?_of_validateInner hvalidation
  obtain ⟨hca, hpublic⟩ := isCa_eq_false_of_p256KeyAgreementPoint hpoint
  exact ⟨leaf, certificate, hleaf, hparse, hca, hpublic⟩

/-! ### A presented list that hides a CA leaf -/

/-- Hash functions that tell encodings of one byte apart: a message resized to the digest
length. -/
def resizingHashes : HashFunctions where
  digest algorithm message := ByteString.resize message algorithm.outputLength 0
  length_digest algorithm message := ByteString.length_resize message algorithm.outputLength 0

/-- Certificates that are their own encodings, of one byte. All have a P-256 key and no extension
but basic constraints, by which all are CA certificates but the one encoded as zero. -/
def tokenX509 : X509Library where
  Certificate := ByteString
  fromDer encoded := if encoded.length = 1 then some encoded else none
  toDer := some
  signatureAlgorithm _ := { oid := [], parameters := none }
  tbsSignature _ := { oid := [], parameters := none }
  extensions _ := []
  certificatePolicies _ := some none
  basicConstraints certificate := some (some (certificate != [0]))
  keyUsage _ := some none
  subject certificate := some certificate
  issuer _ := some [2]
  notBefore _ := 0
  notAfter _ := 1
  subjectPublicKeyAlgorithm _ := { oid := ecPublicKey, parameters := some [] }
  subjectPublicKey certificate := some (4 :: certificate)
  decodeOid _ := some p256Curve
  isP256Point _ := true

/-- The trust in the self-issued certificate encoded as two. -/
def tokenTrust : CertificateTrust where
  rootFingerprints := [sha256Fingerprint resizingHashes [2]]
  fingerprint := []
  localCertificates := [[2]]

/-- The list of a CA certificate, an end-entity certificate and the CA certificate again: the
point of the CA certificate is returned. -/
theorem validateP256PublicPoint_hidden_ca :
    validateP256PublicPoint resizingHashes tokenX509 permissiveCertval tokenTrust
        [[1], [0], [1]] 0 = .ok [4, 1] ∧
      (parse resizingHashes tokenX509 [1]).toOption.map ParsedCertificate.isCa = some true ∧
      ¬ ReturnsLastEndEntity resizingHashes [[1], [0], [1]] (fun certval ↦
        validate resizingHashes tokenX509 certval tokenTrust [[1], [0], [1]] 0) := by
  refine ⟨rfl, rfl, fun hreturns ↦ ?_⟩
  have hvalidation : ∃ certificate, validate resizingHashes tokenX509 permissiveCertval tokenTrust
      [[1], [0], [1]] 0 = .ok certificate ∧ certificate.isCa = true := ⟨_, rfl, rfl⟩
  obtain ⟨certificate, hcertificate, hca⟩ := hvalidation
  rw [(hreturns permissiveCertval certificate hcertificate).2] at hca
  exact absurd hca (by simp)

end SoftwareKeyCore.CertificateChain
