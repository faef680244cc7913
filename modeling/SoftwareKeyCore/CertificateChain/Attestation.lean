import SoftwareKeyCore.CertificateChain.Trust

/-!
# The key usage exception of attestation

`validate_p256_attestation_chain` allows one named issuer to omit its key usage extension. The
path library is third-party code: `Rfc5280Checks` is what `validate_path_rfc5280` is made of,
arbitrary checks in a fixed order, and `ReadsCertificates` what the library reads of the
certificates it is given.

`checkOptionalKeyUsageIssuer_eq_ok_iff` is what the preflight lets through, and
`validateOptionalCaKeyUsage_eq_ok_iff` what the path callback does. `attestationScope` says that
the exception has the scope it names: nobody else's certificate lacks key usage, every other check
of an accepted path saw the full path, and without a certificate that needs the exception there is
none.
-/

set_option autoImplicit false
set_option relaxedAutoImplicit false

namespace SoftwareKeyCore.CertificateChain

open FallibleResult FirstOccurrences

/-! ### The checks of a path -/

/-- A check of a path under settings. -/
abbrev PathCheck (certval : Certval) : Type :=
  certval.Settings → certval.Path → Except CertvalError Unit

/-- Checks in turn, up to the first error. -/
def runChecks {certval : Certval} : (checks : List (PathCheck certval)) → PathCheck certval
  | [], _, _ => .ok ()
  | check :: checks, settings, path => do
    check settings path
    runChecks checks settings path

/-- The checks that `validate_path_rfc5280` runs in turn. The basic constraints are checked before
the key usage, and the extended key usage, the critical extensions and the signatures after it. -/
structure Rfc5280Checks (certval : Certval) where
  before : List (PathCheck certval)
  after : List (PathCheck certval)
  checkBasicConstraints : PathCheck certval
  validatePathRfc5280_eq : ∀ settings path, certval.validatePathRfc5280 settings path =
    runChecks (before ++ certval.checkKeyUsage :: after) settings path
  checkBasicConstraints_mem : checkBasicConstraints ∈ before
  checkExtendedKeyUsage_mem : certval.checkExtendedKeyUsage ∈ after
  checkCriticalExtensions_mem : certval.checkCriticalExtensions ∈ after
  verifySignatures_mem : certval.verifySignatures ∈ after

/-- What the path library reads of the certificates it is given, where `encodedCert` is the
encoding a certificate was read from: the intermediate certificates of its paths are among the
files, the basic constraints make each of them a CA certificate, an absent key usage extension is
absent for the X.509 library as well, and of the checks up to the key usage only that of the key
usage answers with its status. -/
structure ReadsCertificates (x509 : X509Library) {certval : Certval}
    (checks : Rfc5280Checks certval) (encodedCert : certval.PdvCertificate → ByteString) :
    Prop where
  intermediates_mem : ∀ anchors settings files source target time paths,
    certval.initializeSource settings files = some source →
      certval.getPathsForTarget anchors (certval.findAllPartialPaths anchors settings source)
          target time = some paths →
        ∀ path ∈ paths, ∀ intermediate ∈ path.intermediates,
          ∃ file ∈ files, file.bytes = encodedCert intermediate
  basicConstraints_ca : ∀ settings path, checks.checkBasicConstraints settings path = .ok () →
    ∀ intermediate ∈ path.intermediates, ∀ certificate,
      x509.fromDer (encodedCert intermediate) = some certificate →
        x509.basicConstraints certificate = some (some true)
  keyUsage_absent : ∀ intermediate certificate,
    x509.fromDer (encodedCert intermediate) = some certificate →
      certval.keyUsageExtension intermediate = some none → x509.keyUsage certificate = some none
  keyUsage_status : ∀ check ∈ checks.before, ∀ settings path,
    check settings path ≠ .error .invalidKeyUsage

section Checks

variable {certval : Certval} {settings : certval.Settings} {path : certval.Path}

theorem runChecks_eq_ok_iff {checks : List (PathCheck certval)} :
    runChecks checks settings path = .ok () ↔ ∀ check ∈ checks, check settings path = .ok () := by
  induction checks with
  | nil => exact iff_of_true rfl (List.forall_mem_nil _)
  | cons check checks ih =>
    rw [runChecks, unit_bind_eq_ok_iff, List.forall_mem_cons, ih]

/-- An error that the first checks do not answer with comes after them. -/
theorem eq_ok_of_runChecks_append {before rest : List (PathCheck certval)} {error : CertvalError}
    (hchecks : runChecks (before ++ rest) settings path = .error error)
    (hstatus : ∀ check ∈ before, check settings path ≠ .error error) :
    ∀ check ∈ before, check settings path = .ok () := by
  induction before with
  | nil => exact List.forall_mem_nil _
  | cons check before ih =>
    rw [List.forall_mem_cons] at hstatus ⊢
    rw [List.cons_append, runChecks] at hchecks
    rcases hcheck : check settings path with other | ⟨⟩
    · rw [hcheck] at hchecks
      obtain rfl := Except.error.inj hchecks
      exact absurd hcheck hstatus.1
    · rw [hcheck] at hchecks
      exact ⟨rfl, ih hchecks hstatus.2⟩

/-- The intermediate certificates that the key usage check sees. -/
def keepsIntermediate (certval : Certval) (certificate : certval.PdvCertificate) : Bool :=
  match certval.keyUsageExtension certificate with
  | some none => false
  | _ => true

theorem keepsIntermediate_eq_false_iff {certificate : certval.PdvCertificate} :
    keepsIntermediate certval certificate = false ↔
      certval.keyUsageExtension certificate = some none := by
  unfold keepsIntermediate
  split
  · exact iff_of_true rfl ‹_›
  · exact iff_of_false Bool.true_eq_false_eq_False ‹_›

/-- What the path callback of attestation accepts. -/
theorem validateOptionalCaKeyUsage_eq_ok_iff :
    validateOptionalCaKeyUsage certval settings path = .ok () ↔
      certval.validatePathRfc5280 settings path = .ok () ∨
      certval.validatePathRfc5280 settings path = .error .invalidKeyUsage ∧
        (path.intermediates.filter (keepsIntermediate certval)).length ≠
          path.intermediates.length ∧
        certval.checkKeyUsage settings
          { path with intermediates := path.intermediates.filter (keepsIntermediate certval) } =
            .ok () ∧
        certval.checkExtendedKeyUsage settings path = .ok () ∧
        certval.checkCriticalExtensions settings path = .ok () ∧
        certval.verifySignatures settings path = .ok () := by
  unfold validateOptionalCaKeyUsage
  rcases hresult : certval.validatePathRfc5280 settings path with (- | code) | ⟨⟩
  · change (if (path.intermediates.filter (keepsIntermediate certval)).length =
      path.intermediates.length then _ else _) = _ ↔ _
    simp only [ite_error_eq_ok_iff, unit_bind_eq_ok_iff, true_and, reduceCtorEq, false_or]
    exact Iff.rfl
  · simp
  · simp

end Checks

/-! ### The paths that are validated -/

/-- The settings of `validate_files` at a time. -/
def settingsAt {certval : Certval} (time : certval.TimeOfInterest) : certval.Settings where
  timeOfInterest := time
  checkRevocationStatus := false
  requireTaStore := true
  forbidSelfSignedEe := true
  enforceTrustAnchorValidity := true
  enforceTrustAnchorConstraints := true

/-- A path that the path library builds for the last certificate from the files, with the settings
of its anchor. -/
def IsCandidate (certval : Certval) (anchorFiles sourceFiles : List CertFile)
    (certificates : List ByteString) (now : ℕ) (settings : certval.Settings)
    (path : certval.Path) : Prop :=
  ∃ time anchors source leaf target paths, certval.timeFromUnixSecs now = some time ∧
    certval.initializeAnchors anchorFiles = some anchors ∧
    certval.initializeSource (settingsAt time) (sourceFiles ++ presentedFiles certificates) =
      some source ∧
    certificates.getLast? = some leaf ∧ certval.parseTarget leaf = some target ∧
    certval.getPathsForTarget anchors
      (certval.findAllPartialPaths anchors (settingsAt time) source) target time = some paths ∧
    path ∈ paths ∧
    certval.enforceTrustAnchorConstraints (settingsAt time) path.trustAnchor = some settings

section Paths

variable {certval : Certval} {anchorFiles sourceFiles : List CertFile}
  {certificates : List ByteString} {optionalCaKeyUsage : Bool} {now : ℕ}

/-- The last loop of `validate_files` finds a path that passes. -/
theorem anyPathValidates_eq_true_iff {settings : certval.Settings} {paths : List certval.Path} :
    anyPathValidates certval optionalCaKeyUsage settings paths = true ↔
      ∃ path ∈ paths, ∃ pathSettings,
        certval.enforceTrustAnchorConstraints settings path.trustAnchor = some pathSettings ∧
          validatePath certval optionalCaKeyUsage pathSettings path = .ok () := by
  induction paths with
  | nil => simp [anyPathValidates]
  | cons path paths ih =>
    simp only [anyPathValidates, List.mem_cons, or_and_right, exists_or, exists_eq_left]
    rcases hsettings : certval.enforceTrustAnchorConstraints settings path.trustAnchor with
      - | pathSettings
    · simp only [ih, reduceCtorEq, false_and, exists_false, false_or]
    · rcases hvalid : validatePath certval optionalCaKeyUsage pathSettings path with error | ⟨⟩
      · simp only [hvalid, ih, Option.some.injEq, exists_eq_left', reduceCtorEq, false_or]
      · simp only [hvalid, Option.some.injEq, exists_eq_left', true_or]

/-- `validate_files` finds a valid path when a path that is built passes. -/
theorem findsValidPath_eq_ok_iff :
    findsValidPath certval anchorFiles sourceFiles certificates optionalCaKeyUsage now = .ok () ↔
      ∃ settings path,
        IsCandidate certval anchorFiles sourceFiles certificates now settings path ∧
          validatePath certval optionalCaKeyUsage settings path = .ok () := by
  unfold findsValidPath orInvalid IsCandidate
  simp only [bind_eq_ok_iff, orError_eq_ok_iff, ite_error_eq_ok_iff, not_not,
    anyPathValidates_eq_true_iff, and_true]
  constructor
  · rintro ⟨time, htime, anchors, hanchors, source, hsource, leaf, hleaf, target, htarget, paths,
      hpaths, path, hpath, settings, hsettings, hvalid⟩
    exact ⟨settings, path, ⟨time, anchors, source, leaf, target, paths, htime, hanchors, hsource,
      hleaf, htarget, hpaths, hpath, hsettings⟩, hvalid⟩
  · rintro ⟨settings, path, ⟨time, anchors, source, leaf, target, paths, htime, hanchors, hsource,
      hleaf, htarget, hpaths, hpath, hsettings⟩, hvalid⟩
    exact ⟨time, htime, anchors, hanchors, source, hsource, leaf, hleaf, target, htarget, paths,
      hpaths, path, hpath, settings, hsettings, hvalid⟩

end Paths

/-! ### The preflight -/

section Preflight

variable {hashes : HashFunctions} {x509 : X509Library} {trust : CertificateTrust}
  {certificates : List ByteString}

/-- The certificates that the preflight lets through: CA certificates with key usage, and the
issuer that may omit it. -/
theorem checkOptionalKeyUsageIssuer_eq_ok_iff {allowed : Fingerprint}
    {parsed : List (ParsedCertificate x509)} :
    checkOptionalKeyUsageIssuer x509 allowed parsed = .ok () ↔
      ∀ certificate ∈ parsed, certificate.isCa = true →
        ∃ usage, x509.keyUsage certificate.certificate = some usage ∧
          (usage = none → certificate.fingerprint = allowed) := by
  induction parsed with
  | nil => exact iff_of_true rfl (List.forall_mem_nil _)
  | cons certificate parsed ih =>
    rw [checkOptionalKeyUsageIssuer, List.forall_mem_cons, ← ih]
    by_cases hca : certificate.isCa = true
    · rw [if_pos hca, bind_eq_ok_iff, orInvalid, imp_iff_right hca]
      simp only [orError_eq_ok_iff, ite_error_eq_ok_iff, not_and, not_not]
      constructor
      · rintro ⟨usage, husage, hallowed, hrest⟩
        exact ⟨⟨usage, husage, hallowed⟩, hrest⟩
      · rintro ⟨⟨usage, husage, hallowed⟩, hrest⟩
        exact ⟨usage, husage, hallowed, hrest⟩
    · rw [if_neg hca, iff_and_self]
      exact fun _ hcertificate ↦ absurd hcertificate hca

/-- The configured and the presented certificates. -/
def certificatePool (trust : CertificateTrust) (certificates : List ByteString) :
    List ByteString :=
  trust.localCertificates ++ certificates

/-- A CA certificate without key usage passes the preflight only as the issuer that may omit
it. -/
theorem keyUsage_of_preflight {allowed : Fingerprint}
    (hcollision : Set.InjOn (sha256Fingerprint hashes)
      {encoded | encoded ∈ certificatePool trust certificates})
    (hpreflight : preflight hashes x509 trust certificates (some allowed) = .ok ())
    {encoded : ByteString} (hencoded : encoded ∈ certificatePool trust certificates) :
    ∃ certificate, parse hashes x509 encoded = .ok certificate ∧
      (certificate.isCa = true → x509.keyUsage certificate.certificate = some none →
        certificate.fingerprint = allowed) := by
  obtain ⟨unique, hunique, hchecked⟩ := bind_eq_ok_iff.mp hpreflight
  obtain ⟨certificate, hparse⟩ := exists_parseUnique_iff.mp ⟨unique, hunique⟩ encoded hencoded
  refine ⟨certificate, hparse, fun hca habsent ↦ ?_⟩
  have hmem := (mem_unique_iff hunique hcollision).mpr ⟨encoded, hencoded, hparse⟩
  obtain ⟨usage, husage, hallowed⟩ :=
    checkOptionalKeyUsageIssuer_eq_ok_iff.mp hchecked certificate hmem hca
  exact hallowed (Option.some.inj (husage.symm.trans habsent))

/-- All CA certificates of a pool carry key usage. -/
def CarriesKeyUsage (hashes : HashFunctions) (x509 : X509Library)
    (certificates : List ByteString) : Prop :=
  ∀ encoded ∈ certificates, ∀ certificate, parse hashes x509 encoded = .ok certificate →
    certificate.isCa = true → x509.keyUsage certificate.certificate ≠ some none

/-- A pool that parses and carries key usage passes the preflight for every issuer. -/
theorem preflight_eq_ok (hcarries : CarriesKeyUsage hashes x509
      (certificatePool trust certificates))
    (hparses : ∀ encoded ∈ certificatePool trust certificates,
      ∃ certificate, parse hashes x509 encoded = .ok certificate) (allowed : Fingerprint) :
    preflight hashes x509 trust certificates (some allowed) = .ok () := by
  obtain ⟨unique, hunique⟩ := exists_parseUnique_iff.mpr hparses
  refine bind_eq_ok_iff.mpr ⟨unique, hunique, checkOptionalKeyUsageIssuer_eq_ok_iff.mpr ?_⟩
  intro certificate hcertificate hca
  obtain ⟨parsed, hparsed, rfl⟩ := parseUnique_eq_ok_iff.mp hunique
  obtain ⟨encoded, hencoded, hparse⟩ :=
    hparsed.mem_iff.mp (mem_of_mem_firstOccurrences _ hcertificate)
  obtain ⟨-, -, -, usage, husage⟩ := parse_eq_ok hparse
  refine ⟨usage, husage, ?_⟩
  rintro rfl
  exact absurd husage (hcarries encoded hencoded certificate hparse hca)

/-- The files of the configured certificates hold these. -/
theorem bytes_mem_of_configuredFiles {index : ℕ} {configured : List ByteString}
    {files : List CertFile × List CertFile}
    (hfiles : configuredFiles hashes x509 trust index configured = .ok files) :
    ∀ file ∈ files.2, file.bytes ∈ configured := by
  induction configured generalizing index files with
  | nil =>
    obtain rfl := Except.ok.inj hfiles
    exact List.forall_mem_nil _
  | cons encoded configured ih =>
    rw [configuredFiles] at hfiles
    obtain ⟨certificate, -, hfiles⟩ := bind_eq_ok_iff.mp hfiles
    obtain ⟨rest, hrest, hfiles⟩ := bind_eq_ok_iff.mp hfiles
    have hmem : ∀ file ∈ rest.2, file.bytes ∈ encoded :: configured := fun file hfile ↦
      List.mem_cons_of_mem encoded (ih hrest file hfile)
    obtain rfl := pure_eq_ok_iff.mp hfiles
    split_ifs
    · exact hmem
    · rw [List.forall_mem_cons]
      exact ⟨List.mem_cons_self, hmem⟩

theorem bytes_mem_of_presentedFiles {file : CertFile} (hfile : file ∈ presentedFiles certificates) :
    file.bytes ∈ certificates := by
  obtain ⟨index, hindex, rfl⟩ := List.mem_mapIdx.mp hfile
  exact List.mem_of_mem_dropLast (List.getElem_mem hindex)

/-- A certificate whose basic constraints make it a CA certificate. -/
theorem isCa_of_parse {encoded : ByteString} {certificate : ParsedCertificate x509}
    (hparse : parse hashes x509 encoded = .ok certificate)
    (hconstraints : x509.basicConstraints certificate.certificate = some (some true)) :
    certificate.isCa = true := by
  unfold parse orInvalid at hparse
  simp only [bind_eq_ok_iff, ite_error_eq_ok_iff, orError_eq_ok_iff, pure_eq_ok_iff] at hparse
  obtain ⟨decoded, -, -, -, -, -, -, -, constraints, hdecoded, usage, -, canonical, -, -, subject,
    -, issuer, -, hcertificate⟩ := hparse
  rw [← hcertificate] at hconstraints ⊢
  obtain rfl := Option.some.inj (hdecoded.symm.trans hconstraints)
  rfl

end Preflight

/-! ### The exception -/

section Exception

variable {hashes : HashFunctions} {x509 : X509Library} {certval : Certval}
  {checks : Rfc5280Checks certval} {trust : CertificateTrust} {certificates : List ByteString}
  {now : ℕ} {settings : certval.Settings} {path : certval.Path}
  {encodedCert : certval.PdvCertificate → ByteString}

/-- What holds of a path that attestation accepts: the key usage check succeeds on the path
without some intermediate certificates that have no key usage, all others on the full path. -/
structure IsAccepted (checks : Rfc5280Checks certval) (settings : certval.Settings)
    (path : certval.Path) : Prop where
  before : ∀ check ∈ checks.before, check settings path = .ok ()
  keyUsage : ∃ keeps : certval.PdvCertificate → Bool,
    (∀ intermediate, keeps intermediate = false →
      certval.keyUsageExtension intermediate = some none) ∧
    certval.checkKeyUsage settings
      { path with intermediates := path.intermediates.filter keeps } = .ok ()
  extendedKeyUsage : certval.checkExtendedKeyUsage settings path = .ok ()
  criticalExtensions : certval.checkCriticalExtensions settings path = .ok ()
  signatures : certval.verifySignatures settings path = .ok ()

/-- The checks before the key usage check passed when it failed. -/
theorem before_of_invalidKeyUsage (hreads : ReadsCertificates x509 checks encodedCert)
    (hinvalid : certval.validatePathRfc5280 settings path = .error .invalidKeyUsage) :
    ∀ check ∈ checks.before, check settings path = .ok () := by
  rw [checks.validatePathRfc5280_eq] at hinvalid
  exact eq_ok_of_runChecks_append hinvalid fun check hcheck ↦
    hreads.keyUsage_status check hcheck settings path

/-- What the path callback of attestation accepts passes every check. -/
theorem isAccepted_of_validatePath (hreads : ReadsCertificates x509 checks encodedCert)
    (hvalid : validatePath certval true settings path = .ok ()) :
    IsAccepted checks settings path := by
  rw [validatePath, if_pos rfl, validateOptionalCaKeyUsage_eq_ok_iff] at hvalid
  rcases hvalid with hvalid | ⟨hinvalid, -, hkeyUsage, hextended, hcritical, hsignatures⟩
  · rw [checks.validatePathRfc5280_eq, runChecks_eq_ok_iff] at hvalid
    have hafter : ∀ check ∈ checks.after, check settings path = .ok () := fun check hcheck ↦
      hvalid check (List.mem_append_right _ (List.mem_cons_of_mem _ hcheck))
    refine ⟨fun check hcheck ↦ hvalid check (List.mem_append_left _ hcheck),
      ⟨fun _ ↦ true, fun _ hkeeps ↦ absurd hkeeps (by simp), ?_⟩,
      hafter _ checks.checkExtendedKeyUsage_mem, hafter _ checks.checkCriticalExtensions_mem,
      hafter _ checks.verifySignatures_mem⟩
    rw [List.filter_true]
    exact hvalid _ (List.mem_append_right _ List.mem_cons_self)
  · exact ⟨before_of_invalidKeyUsage hreads hinvalid,
      ⟨keepsIntermediate certval, fun _ ↦ keepsIntermediate_eq_false_iff.mp, hkeyUsage⟩,
      hextended, hcritical, hsignatures⟩

/-- On a pool whose CA certificates carry key usage no intermediate certificate is removed. -/
theorem keepsIntermediate_of_invalidKeyUsage (hreads : ReadsCertificates x509 checks encodedCert)
    (hcarries : CarriesKeyUsage hashes x509 (certificatePool trust certificates))
    (hparses : ∀ encoded ∈ certificatePool trust certificates,
      ∃ certificate, parse hashes x509 encoded = .ok certificate)
    {anchorFiles sourceFiles : List CertFile}
    (hfiles : ∀ file ∈ sourceFiles, file.bytes ∈ trust.localCertificates)
    (hcandidate : IsCandidate certval anchorFiles sourceFiles certificates now settings path)
    (hinvalid : certval.validatePathRfc5280 settings path = .error .invalidKeyUsage) :
    ∀ intermediate ∈ path.intermediates, keepsIntermediate certval intermediate = true := by
  intro intermediate hintermediate
  obtain ⟨time, anchors, source, leaf, target, paths, -, -, hsource, -, -, hpaths, hpath, -⟩ :=
    hcandidate
  obtain ⟨file, hfile, hbytes⟩ := hreads.intermediates_mem _ _ _ _ _ _ _ hsource hpaths path
    hpath intermediate hintermediate
  have hpool : file.bytes ∈ certificatePool trust certificates := by
    rcases List.mem_append.mp hfile with hfile | hfile
    · exact List.mem_append_left _ (hfiles file hfile)
    · exact List.mem_append_right _ (bytes_mem_of_presentedFiles hfile)
  rw [hbytes] at hpool
  obtain ⟨certificate, hparse⟩ := hparses _ hpool
  have hdecoded := (parse_eq_ok hparse).1
  have hconstraints := hreads.basicConstraints_ca settings path
    (before_of_invalidKeyUsage hreads hinvalid _ checks.checkBasicConstraints_mem)
    intermediate hintermediate _ hdecoded
  by_contra hremoved
  have habsent := keepsIntermediate_eq_false_iff.mp (Bool.eq_false_of_not_eq_true hremoved)
  exact hcarries _ hpool certificate hparse (isCa_of_parse hparse hconstraints)
    (hreads.keyUsage_absent intermediate _ hdecoded habsent)

/-- On such a pool the path callback of attestation accepts what the ordinary one does. -/
theorem validatePath_true_iff (hreads : ReadsCertificates x509 checks encodedCert)
    (hcarries : CarriesKeyUsage hashes x509 (certificatePool trust certificates))
    (hparses : ∀ encoded ∈ certificatePool trust certificates,
      ∃ certificate, parse hashes x509 encoded = .ok certificate)
    {anchorFiles sourceFiles : List CertFile}
    (hfiles : ∀ file ∈ sourceFiles, file.bytes ∈ trust.localCertificates)
    (hcandidate : IsCandidate certval anchorFiles sourceFiles certificates now settings path) :
    validatePath certval true settings path = .ok () ↔
      validatePath certval false settings path = .ok () := by
  rw [validatePath, if_pos rfl, validatePath, if_neg Bool.false_ne_true,
    validateOptionalCaKeyUsage_eq_ok_iff]
  refine or_iff_left ?_
  rintro ⟨hinvalid, hremoved, -⟩
  refine hremoved (congrArg List.length (List.filter_eq_self.mpr ?_))
  exact keepsIntermediate_of_invalidKeyUsage hreads hcarries hparses hfiles hcandidate hinvalid

/-- On such a pool the exception makes no difference to the files. -/
theorem validateFiles_true_iff (hreads : ReadsCertificates x509 checks encodedCert)
    (hcarries : CarriesKeyUsage hashes x509 (certificatePool trust certificates))
    (hparses : ∀ encoded ∈ certificatePool trust certificates,
      ∃ certificate, parse hashes x509 encoded = .ok certificate)
    {anchorFiles sourceFiles : List CertFile}
    (hfiles : ∀ file ∈ sourceFiles, file.bytes ∈ trust.localCertificates)
    {certificate : ParsedCertificate x509} :
    validateFiles hashes x509 certval anchorFiles sourceFiles certificates true now =
        .ok certificate ↔
      validateFiles hashes x509 certval anchorFiles sourceFiles certificates false now =
        .ok certificate := by
  rw [validateFiles_eq_ok_iff, validateFiles_eq_ok_iff, findsValidPath_eq_ok_iff,
    findsValidPath_eq_ok_iff]
  refine exists_congr fun parsed ↦ and_congr_right fun _ ↦ and_congr_right fun _ ↦
    and_congr_left fun _ ↦ ?_
  refine exists₂_congr fun settings path ↦ and_congr_right fun hcandidate ↦ ?_
  exact validatePath_true_iff hreads hcarries hparses hfiles hcandidate

/-- Validation parses the configured and the presented certificates. -/
theorem exists_parse_of_validateFiles {files : List CertFile × List CertFile}
    {optionalCaKeyUsage : Bool} {certificate : ParsedCertificate x509}
    (hfiles : configuredFiles hashes x509 trust 0 trust.localCertificates = .ok files)
    (hvalidation : validateFiles hashes x509 certval files.1 files.2 certificates
      optionalCaKeyUsage now = .ok certificate) :
    ∀ encoded ∈ certificatePool trust certificates,
      ∃ certificate, parse hashes x509 encoded = .ok certificate := by
  obtain ⟨parsed, hpresentable, -⟩ := validateFiles_eq_ok_iff.mp hvalidation
  intro encoded hencoded
  rcases List.mem_append.mp hencoded with hencoded | hencoded
  · exact exists_configuredFiles_iff.mp ⟨files, hfiles⟩ encoded hencoded
  · exact exists_parsesTo_iff.mp ⟨parsed, hpresentable.parsesTo⟩ encoded hencoded

/-- Results of one error are equal when their values are. -/
theorem eq_of_eq_ok_iff {α : Type} {result result' : Except CertificateError α}
    (hok : ∀ value, result = .ok value ↔ result' = .ok value) : result = result' := by
  cases result with
  | ok value => exact ((hok value).mp rfl).symm
  | error error =>
    cases result' with
    | ok value => exact (hok value).mpr rfl
    | error error' => rfl

/-- On such a pool the exception changes nothing. -/
theorem validateInner_some (hreads : ReadsCertificates x509 checks encodedCert)
    (hcarries : CarriesKeyUsage hashes x509 (certificatePool trust certificates))
    (allowed : Fingerprint) :
    validateInner hashes x509 certval trust certificates (some allowed) now =
      validateInner hashes x509 certval trust certificates none now := by
  refine eq_of_eq_ok_iff fun certificate ↦ ?_
  unfold validateInner
  have hnone : preflight hashes x509 trust certificates none = .ok () := rfl
  rw [unit_bind_eq_ok_iff, unit_bind_eq_ok_iff, and_iff_right hnone, bind_eq_ok_iff,
    bind_eq_ok_iff]
  constructor
  · rintro ⟨hpreflight, files, hfiles, hvalidation⟩
    have hparses := exists_parse_of_validateFiles hfiles hvalidation
    exact ⟨files, hfiles, (validateFiles_true_iff hreads hcarries hparses
      (bytes_mem_of_configuredFiles hfiles)).mp hvalidation⟩
  · rintro ⟨files, hfiles, hvalidation⟩
    have hparses := exists_parse_of_validateFiles hfiles hvalidation
    exact ⟨preflight_eq_ok hcarries hparses allowed, files, hfiles,
      (validateFiles_true_iff hreads hcarries hparses
        (bytes_mem_of_configuredFiles hfiles)).mpr hvalidation⟩

end Exception

/-! ### The scope of the exception -/

section Scope

variable {hashes : HashFunctions} {x509 : X509Library} {certval : Certval}
  {checks : Rfc5280Checks certval} {trust : CertificateTrust} {certificates : List ByteString}
  {issuer : ByteString} {now : ℕ} {encodedCert : certval.PdvCertificate → ByteString}

/-- The issuers that may omit key usage: CA certificates that are not self-issued. -/
def IsAdmissibleIssuer (hashes : HashFunctions) (x509 : X509Library) (issuer : ByteString) :
    Prop :=
  ∃ certificate, parse hashes x509 issuer = .ok certificate ∧ certificate.isCa = true ∧
    certificate.isSelfIssued = false

/-- The exception of attestation has the scope it names: when attestation succeeds, the issuer is
admissible, it is the only CA certificate without key usage, and a path is accepted; every accepted
path passes the checks; and the exception changes nothing where it is not needed. -/
structure AttestationScope (hashes : HashFunctions) (x509 : X509Library) {certval : Certval}
    (checks : Rfc5280Checks certval) (trust : CertificateTrust) (certificates : List ByteString)
    (issuer : ByteString) (now : ℕ) : Prop where
  admissible : ∀ point,
    validateP256AttestationChain hashes x509 certval trust certificates issuer now = .ok point →
      IsAdmissibleIssuer hashes x509 issuer
  only_issuer : ∀ point,
    validateP256AttestationChain hashes x509 certval trust certificates issuer now = .ok point →
      ∀ encoded ∈ certificatePool trust certificates, ∃ certificate,
        parse hashes x509 encoded = .ok certificate ∧
          (certificate.isCa = true → x509.keyUsage certificate.certificate = some none →
            encoded = issuer)
  accepts_path : ∀ point,
    validateP256AttestationChain hashes x509 certval trust certificates issuer now = .ok point →
      ∃ files, configuredFiles hashes x509 trust 0 trust.localCertificates = .ok files ∧
        ∃ settings path, IsCandidate certval files.1 files.2 certificates now settings path ∧
          validatePath certval true settings path = .ok ()
  accepted : ∀ settings path, validatePath certval true settings path = .ok () →
    IsAccepted checks settings path
  ordinary : CarriesKeyUsage hashes x509 (certificatePool trust certificates) →
    IsAdmissibleIssuer hashes x509 issuer →
      validateP256AttestationChain hashes x509 certval trust certificates issuer now =
        validateP256PublicPoint hashes x509 certval trust certificates now

/-- A successful attestation rests on an inner validation with an admissible issuer. -/
theorem exists_validateInner {point : ByteString}
    (hpoint : validateP256AttestationChain hashes x509 certval trust certificates issuer now =
      .ok point) :
    ∃ allowed certificate, parse hashes x509 issuer = .ok allowed ∧
      (allowed.isCa = true ∧ allowed.isSelfIssued = false) ∧
      validateInner hashes x509 certval trust certificates (some allowed.fingerprint) now =
        .ok certificate := by
  obtain ⟨certificate, hattestation, -⟩ := bind_eq_ok_iff.mp hpoint
  obtain ⟨allowed, hissuer, hadmissible, hinner⟩ := validateAttestation_eq_ok_iff.mp hattestation
  exact ⟨allowed, certificate, hissuer, hadmissible, hinner⟩

/-- The key usage exception has exactly the scope it names, when no two of the certificates have
the same digest.

That no two collide is assumed of the certificates of the pool and of the issuer only; of the
path library, that it reads basic constraints and key usage as the code does
(`ReadsCertificates`). -/
theorem attestationScope
    (hcollision : Set.InjOn (sha256Fingerprint hashes)
      {encoded | encoded ∈ certificatePool trust certificates ∨ encoded = issuer})
    (hreads : ReadsCertificates x509 checks encodedCert) :
    AttestationScope hashes x509 checks trust certificates issuer now := by
  refine ⟨fun point hpoint ↦ ?_, fun point hpoint encoded hencoded ↦ ?_, fun point hpoint ↦ ?_,
    fun settings path ↦ isAccepted_of_validatePath hreads, fun hcarries hadmissible ↦ ?_⟩
  · obtain ⟨allowed, -, hissuer, hadmissible, -⟩ := exists_validateInner hpoint
    exact ⟨allowed, hissuer, hadmissible⟩
  · obtain ⟨allowed, certificate, hissuer, -, hinner⟩ := exists_validateInner hpoint
    have hpreflight := (unit_bind_eq_ok_iff.mp hinner).1
    have hpool : Set.InjOn (sha256Fingerprint hashes)
        {encoded | encoded ∈ certificatePool trust certificates} :=
      hcollision.mono fun encoded ↦ Or.inl
    obtain ⟨parsed, hparse, hallowed⟩ := keyUsage_of_preflight hpool hpreflight hencoded
    refine ⟨parsed, hparse, fun hca habsent ↦ hcollision (Or.inl hencoded) (Or.inr rfl) ?_⟩
    rw [← fingerprint_of_parse hparse, hallowed hca habsent, fingerprint_of_parse hissuer]
  · obtain ⟨allowed, certificate, -, -, hinner⟩ := exists_validateInner hpoint
    obtain ⟨files, hfiles, hvalidation⟩ := bind_eq_ok_iff.mp (unit_bind_eq_ok_iff.mp hinner).2
    obtain ⟨-, -, -, hpath, -⟩ := validateFiles_eq_ok_iff.mp hvalidation
    exact ⟨files, hfiles, findsValidPath_eq_ok_iff.mp hpath⟩
  · obtain ⟨allowed, hissuer, hca, hselfIssued⟩ := hadmissible
    have hattestation :
        validateAttestation hashes x509 certval trust certificates issuer now =
          validateInner hashes x509 certval trust certificates (some allowed.fingerprint) now := by
      unfold validateAttestation
      rw [hissuer, ok_bind, if_neg (by simp [hca, hselfIssued])]
    rw [validateP256AttestationChain, hattestation, validateInner_some hreads hcarries,
      validateP256PublicPoint, validate]

end Scope

/-! ### An issuer without key usage -/

/-- The certificates of `tokenX509`, all with a key usage extension but the one encoded as one. -/
def issuerX509 : X509Library :=
  { tokenX509 with
    keyUsage := fun (certificate : ByteString) ↦
      some (if certificate = [1] then none
        else some { keyCertSign := true, keyAgreement := true }) }

/-- The check that rejects a path with an intermediate certificate. -/
def rejectsIntermediate (encoded : ByteString) (error : CertvalError)
    (path : CertificationPath Unit ByteString) : Except CertvalError Unit :=
  if path.intermediates.any fun intermediate ↦ intermediate = encoded then .error error
  else .ok ()

theorem rejectsIntermediate_eq_ok_iff {encoded : ByteString} {error : CertvalError}
    {path : CertificationPath Unit ByteString} :
    rejectsIntermediate encoded error path = .ok () ↔ encoded ∉ path.intermediates := by
  rw [rejectsIntermediate, ite_error_eq_ok_iff, and_iff_left rfl]
  simp

/-- The path library that builds one path of all files, in which the certificate encoded as zero is
no CA certificate and the one encoded as one has no key usage. -/
def issuerCertval : Certval where
  TimeOfInterest := Unit
  TaSource := Unit
  CertSource := List CertFile
  TrustAnchor := Unit
  PdvCertificate := ByteString
  timeFromUnixSecs _ := some ()
  initializeAnchors _ := some ()
  initializeSource _ files := some files
  findAllPartialPaths _ _ source := source
  parseTarget := some
  getPathsForTarget _ source target _ := some
    [{ trustAnchor := (), intermediates := source.map CertFile.bytes, target := target }]
  enforceTrustAnchorConstraints settings _ := some settings
  keyUsageExtension certificate := some (if certificate = [1] then none else some certificate)
  validatePathRfc5280 _ path := do
    rejectsIntermediate [0] (.other 0) path
    rejectsIntermediate [1] .invalidKeyUsage path
  checkKeyUsage _ path := rejectsIntermediate [1] .invalidKeyUsage path
  checkExtendedKeyUsage _ _ := .ok ()
  checkCriticalExtensions _ _ := .ok ()
  verifySignatures _ _ := .ok ()

/-- The checks of `issuerCertval`. -/
def issuerChecks : Rfc5280Checks issuerCertval where
  before := [fun _ path ↦ rejectsIntermediate [0] (.other 0) path]
  after := [fun _ _ ↦ .ok ()]
  checkBasicConstraints _ path := rejectsIntermediate [0] (.other 0) path
  validatePathRfc5280_eq settings path := by
    change (do
      rejectsIntermediate [0] (.other 0) path
      rejectsIntermediate [1] .invalidKeyUsage path) = (do
        rejectsIntermediate [0] (.other 0) path
        rejectsIntermediate [1] .invalidKeyUsage path
        .ok ())
    rcases rejectsIntermediate [1] .invalidKeyUsage path with error | ⟨⟩
    · rfl
    · rfl
  checkBasicConstraints_mem := List.mem_cons_self
  checkExtendedKeyUsage_mem := List.mem_cons_self
  checkCriticalExtensions_mem := List.mem_cons_self
  verifySignatures_mem := List.mem_cons_self

/-- The certificates of `tokenX509` are their own encodings. -/
theorem eq_of_fromDer_tokenX509 {encoded certificate : ByteString}
    (hdecoded : tokenX509.fromDer encoded = some certificate) : encoded = certificate := by
  have hdecoded : (if encoded.length = 1 then some encoded else none) = some certificate := hdecoded
  split_ifs at hdecoded
  exact Option.some.inj hdecoded

theorem readsCertificates_issuer : ReadsCertificates issuerX509 issuerChecks id where
  intermediates_mem := by
    rintro anchors settings files source target time paths hsource hpaths path hpath intermediate
      hintermediate
    obtain rfl := Option.some.inj hsource
    obtain rfl := Option.some.inj hpaths
    obtain rfl := List.mem_singleton.mp hpath
    exact List.mem_map.mp hintermediate
  basicConstraints_ca := by
    rintro settings path hconstraints intermediate hintermediate certificate hdecoded
    have hzero := rejectsIntermediate_eq_ok_iff.mp hconstraints
    obtain rfl := eq_of_fromDer_tokenX509 hdecoded
    have hne : intermediate ≠ [0] := by
      rintro rfl
      exact hzero hintermediate
    exact congrArg (fun isCa ↦ some (some isCa)) (bne_iff_ne.mpr hne)
  keyUsage_absent := by
    intro (intermediate : ByteString) certificate hdecoded habsent
    obtain rfl := eq_of_fromDer_tokenX509 hdecoded
    have habsent : (if intermediate = [1] then none else some intermediate) = none :=
      Option.some.inj habsent
    split_ifs at habsent with hone
    exact congrArg some (if_pos hone)
  keyUsage_status := by
    intro check hcheck settings path hstatus
    obtain rfl := List.mem_singleton.mp hcheck
    have hstatus : rejectsIntermediate [0] (.other 0) path = .error .invalidKeyUsage := hstatus
    unfold rejectsIntermediate at hstatus
    split_ifs at hstatus
    exact absurd (Except.error.inj hstatus) (by decide)

/-- Single bytes have digests of their own. -/
theorem injOn_sha256Fingerprint_resizingHashes :
    Set.InjOn (sha256Fingerprint resizingHashes) {encoded | encoded.length = 1} := by
  intro encoded hencoded encoded' hencoded' hsame
  obtain ⟨byte, rfl⟩ := List.length_eq_one_iff.mp hencoded
  obtain ⟨byte', rfl⟩ := List.length_eq_one_iff.mp hencoded'
  have hhead : some byte = some byte' := congrArg List.head? hsame
  rw [Option.some.inj hhead]

/-- With the certificate encoded as one named, it may omit key usage; ordinarily it may not. -/
theorem attestationScope_issuer :
    (validateP256AttestationChain resizingHashes issuerX509 issuerCertval tokenTrust
        [[1], [0]] [1] 0 = .ok [4, 0] ∧
      validateP256PublicPoint resizingHashes issuerX509 issuerCertval tokenTrust
        [[1], [0]] 0 = .error .invalid) ∧
    AttestationScope resizingHashes issuerX509 issuerChecks tokenTrust [[1], [0]] [1] 0 := by
  refine ⟨⟨rfl, rfl⟩, attestationScope ?_ readsCertificates_issuer⟩
  refine injOn_sha256Fingerprint_resizingHashes.mono ?_
  have hpool : ∀ encoded ∈ certificatePool tokenTrust [[1], [0]], encoded.length = 1 := by decide
  rintro encoded (hencoded | rfl)
  · exact hpool encoded hencoded
  · rfl

end SoftwareKeyCore.CertificateChain
