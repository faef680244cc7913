import SoftwareKeyCore.Foundation.Der
import SoftwareKeyCore.Foundation.FallibleResult
import SoftwareKeyCore.Foundation.FirstOccurrences
import SoftwareKeyCore.Digest

/-!
# Parsed certificates

`certificate_chain.rs`: the strict parsing of a certificate, the removal of repeated certificates
from a list, and the P-256 points of a certificate. The X.509 library is third-party code:
`X509Library` is a type of certificates with the operations the parsing uses. An operation that
can fail answers an option; the code maps every failure to the one `CertificateError`.

Parsing accepts canonical encodings only, so it is injective (`parse_injective`).
`parseUnique_eq_ok_iff` says what the removal of repeats computes: the first occurrences, by
fingerprint, of the parsed list.
-/

set_option autoImplicit false
set_option relaxedAutoImplicit false

namespace SoftwareKeyCore.CertificateChain

open FallibleResult FirstOccurrences

/-- `CertificateError`. -/
inductive CertificateError
  | invalid
  deriving DecidableEq, Repr

/-- `.map_err(|_| INVALID)` and `.ok_or(INVALID)`. -/
def orInvalid {α : Type} (value? : Option α) : Except CertificateError α :=
  orError .invalid value?

/-- `Fingerprint`. -/
abbrev Fingerprint := ByteString

/-- What the code reads of an extension's header. -/
structure Extension where
  extnId : ObjectIdentifier
  critical : Bool
  deriving DecidableEq, Repr

/-- What the code reads of a key usage extension. -/
structure KeyUsage where
  keyCertSign : Bool
  keyAgreement : Bool
  deriving DecidableEq, Repr

/-- The certificates of the X.509 library. The extensions with typed contents answer nothing when
the extension is malformed, and `some none` when it is absent. -/
structure X509Library where
  Certificate : Type
  fromDer : ByteString → Option Certificate
  toDer : Certificate → Option ByteString
  signatureAlgorithm : Certificate → AlgorithmIdentifier
  tbsSignature : Certificate → AlgorithmIdentifier
  extensions : Certificate → List Extension
  certificatePolicies : Certificate → Option (Option (List ByteString))
  basicConstraints : Certificate → Option (Option Bool)
  keyUsage : Certificate → Option (Option KeyUsage)
  subject : Certificate → Option ByteString
  issuer : Certificate → Option ByteString
  notBefore : Certificate → ℕ
  notAfter : Certificate → ℕ
  subjectPublicKeyAlgorithm : Certificate → AlgorithmIdentifier
  subjectPublicKey : Certificate → Option ByteString
  decodeOid : ByteString → Option ObjectIdentifier
  isP256Point : ByteString → Bool

/-- `EC_PUBLIC_KEY`. -/
def ecPublicKey : ObjectIdentifier := [1, 2, 840, 10045, 2, 1]

/-- `P256_CURVE`. -/
def p256Curve : ObjectIdentifier := [1, 2, 840, 10045, 3, 1, 7]

/-- `SUPPORTED` of `validate_critical_extensions`. -/
def supportedExtensions : List ObjectIdentifier :=
  [[2, 5, 29, 14], [2, 5, 29, 15], [2, 5, 29, 17], [2, 5, 29, 19], [2, 5, 29, 32], [2, 5, 29, 37],
    [2, 5, 29, 35], [2, 5, 29, 31], [1, 3, 6, 1, 5, 5, 7, 1, 1], [2, 5, 29, 30], [2, 5, 29, 33],
    [2, 5, 29, 36], [2, 5, 29, 54]]

variable (hashes : HashFunctions) (x509 : X509Library)

/-- `ParsedCertificate`. -/
structure ParsedCertificate where
  certificate : x509.Certificate
  subject : ByteString
  issuer : ByteString
  fingerprint : Fingerprint
  notBefore : ℕ
  notAfter : ℕ
  isCa : Bool
  canSignCertificates : Bool

/-- `sha256_fingerprint`. -/
def sha256Fingerprint (data : ByteString) : Fingerprint :=
  hashes.digest .sha256 data

/-- `validate_critical_extensions`. -/
def validateCriticalExtensions (certificate : x509.Certificate) : Except CertificateError Unit :=
  if (x509.extensions certificate).any fun extension ↦
      extension.critical && !supportedExtensions.contains extension.extnId then
    .error .invalid
  else .ok ()

/-- `ParsedCertificate::parse`. -/
def parse (encoded : ByteString) : Except CertificateError (ParsedCertificate x509) := do
  let certificate ← orInvalid (x509.fromDer encoded)
  if x509.signatureAlgorithm certificate ≠ x509.tbsSignature certificate then .error .invalid
  else do
    validateCriticalExtensions x509 certificate
    let policies ← orInvalid (x509.certificatePolicies certificate)
    if policies = some [] then .error .invalid
    else do
      let basicConstraints ← orInvalid (x509.basicConstraints certificate)
      let keyUsage ← orInvalid (x509.keyUsage certificate)
      let canonical ← orInvalid (x509.toDer certificate)
      if canonical ≠ encoded then .error .invalid
      else do
        let subject ← orInvalid (x509.subject certificate)
        let issuer ← orInvalid (x509.issuer certificate)
        return {
          certificate := certificate
          subject := subject
          issuer := issuer
          fingerprint := sha256Fingerprint hashes canonical
          notBefore := x509.notBefore certificate
          notAfter := x509.notAfter certificate
          isCa := basicConstraints.any id
          canSignCertificates := keyUsage.all KeyUsage.keyCertSign }

/-- `algorithm_parameter_oid`. -/
def algorithmParameterOid (algorithm : AlgorithmIdentifier) :
    Except CertificateError ObjectIdentifier := do
  let parameters ← orInvalid algorithm.parameters
  orInvalid (x509.decodeOid parameters)

namespace ParsedCertificate

variable {x509}

/-- `ParsedCertificate::is_self_issued`. -/
def isSelfIssued (certificate : ParsedCertificate x509) : Bool :=
  certificate.subject = certificate.issuer

/-- `ParsedCertificate::is_valid_at`. -/
def isValidAt (certificate : ParsedCertificate x509) (timestamp : ℕ) : Bool :=
  certificate.notBefore ≤ timestamp ∧ timestamp ≤ certificate.notAfter

/-- `p256_public_point`. -/
def p256PublicPoint (certificate : ParsedCertificate x509) :
    Except CertificateError ByteString := do
  let algorithm := x509.subjectPublicKeyAlgorithm certificate.certificate
  if algorithm.oid ≠ ecPublicKey then .error .invalid
  else do
    let curve ← algorithmParameterOid x509 algorithm
    if curve ≠ p256Curve then .error .invalid
    else do
      let point ← orInvalid (x509.subjectPublicKey certificate.certificate)
      if ¬ x509.isP256Point point then .error .invalid
      else return point

/-- `ParsedCertificate::p256_key_agreement_point`. -/
def p256KeyAgreementPoint (certificate : ParsedCertificate x509) :
    Except CertificateError ByteString := do
  let usage ← orInvalid (x509.keyUsage certificate.certificate)
  if certificate.isCa ∨ usage.any (fun usage ↦ !usage.keyAgreement) then .error .invalid
  else p256PublicPoint certificate

end ParsedCertificate

/-- The loop of `parse_unique` with the fingerprints inserted so far. -/
def parseUniqueLoop : (certificates : List ByteString) → (fingerprints : List Fingerprint) →
    Except CertificateError (List (ParsedCertificate x509))
  | [], _ => .ok []
  | encoded :: certificates, fingerprints => do
    let certificate ← parse hashes x509 encoded
    if certificate.fingerprint ∈ fingerprints then parseUniqueLoop certificates fingerprints
    else
      let rest ← parseUniqueLoop certificates (certificate.fingerprint :: fingerprints)
      return certificate :: rest

/-- `parse_unique`. -/
def parseUnique (certificates : List ByteString) :
    Except CertificateError (List (ParsedCertificate x509)) :=
  parseUniqueLoop hashes x509 certificates []

/-! ### Parsing -/

variable {hashes x509}

/-- What a parsed certificate keeps of its encoding. -/
theorem parse_eq_ok {encoded : ByteString} {certificate : ParsedCertificate x509}
    (hparse : parse hashes x509 encoded = .ok certificate) :
    x509.fromDer encoded = some certificate.certificate ∧
      x509.toDer certificate.certificate = some encoded ∧
      certificate.fingerprint = sha256Fingerprint hashes encoded ∧
      ∃ usage, x509.keyUsage certificate.certificate = some usage := by
  unfold parse orInvalid at hparse
  simp only [bind_eq_ok_iff, ite_error_eq_ok_iff, orError_eq_ok_iff, pure_eq_ok_iff] at hparse
  obtain ⟨decoded, hdecoded, -, -, -, policies, -, -, constraints, -, usage, husage, canonical,
    hcanonical, hencoded, subject, -, issuer, -, rfl⟩ := hparse
  obtain rfl := not_not.mp hencoded
  exact ⟨hdecoded, hcanonical, rfl, usage, husage⟩

/-- Parsing is injective: it accepts the canonical encoding only. -/
theorem parse_injective {encoded encoded' : ByteString} {certificate : ParsedCertificate x509}
    (hparse : parse hashes x509 encoded = .ok certificate)
    (hparse' : parse hashes x509 encoded' = .ok certificate) : encoded = encoded' :=
  Option.some.inj ((parse_eq_ok hparse).2.1.symm.trans (parse_eq_ok hparse').2.1)

/-- A list of encodings and the certificates they parse to. -/
def ParsesTo (hashes : HashFunctions) (x509 : X509Library) :
    (certificates : List ByteString) → (parsed : List (ParsedCertificate x509)) → Prop :=
  List.Forall₂ fun encoded certificate ↦ parse hashes x509 encoded = .ok certificate

/-- `parse_unique` answers the first occurrences, by fingerprint, of the parsed list. -/
theorem parseUniqueLoop_eq_ok_iff {certificates : List ByteString}
    {fingerprints : List Fingerprint} {unique : List (ParsedCertificate x509)} :
    parseUniqueLoop hashes x509 certificates fingerprints = .ok unique ↔
      ∃ parsed, ParsesTo hashes x509 certificates parsed ∧
        unique = firstOccurrences ParsedCertificate.fingerprint parsed fingerprints := by
  induction certificates generalizing fingerprints unique with
  | nil =>
    rw [parseUniqueLoop]
    constructor
    · intro hunique
      exact ⟨[], List.Forall₂.nil, (Except.ok.inj hunique).symm⟩
    · rintro ⟨parsed, hparsed, rfl⟩
      cases hparsed
      rfl
  | cons encoded certificates ih =>
    rw [parseUniqueLoop, bind_eq_ok_iff]
    constructor
    · rintro ⟨certificate, hcertificate, hunique⟩
      split_ifs at hunique with hseen
      · obtain ⟨parsed, hparsed, rfl⟩ := ih.mp hunique
        refine ⟨certificate :: parsed, List.Forall₂.cons hcertificate hparsed, ?_⟩
        rw [firstOccurrences, if_pos hseen]
      · obtain ⟨rest, hrest, hpure⟩ := bind_eq_ok_iff.mp hunique
        obtain ⟨parsed, hparsed, rfl⟩ := ih.mp hrest
        refine ⟨certificate :: parsed, List.Forall₂.cons hcertificate hparsed, ?_⟩
        rw [firstOccurrences, if_neg hseen, pure_eq_ok_iff.mp hpure]
    · rintro ⟨parsed, hparsed, rfl⟩
      rcases hparsed with _ | ⟨hcertificate, hparsed⟩
      rename_i certificate parsed
      refine ⟨certificate, hcertificate, ?_⟩
      rw [firstOccurrences]
      split_ifs with hseen
      · exact ih.mpr ⟨parsed, hparsed, rfl⟩
      · exact bind_eq_ok_iff.mpr ⟨_, ih.mpr ⟨parsed, hparsed, rfl⟩, rfl⟩

theorem parseUnique_eq_ok_iff {certificates : List ByteString}
    {unique : List (ParsedCertificate x509)} :
    parseUnique hashes x509 certificates = .ok unique ↔
      ∃ parsed, ParsesTo hashes x509 certificates parsed ∧
        unique = firstOccurrences ParsedCertificate.fingerprint parsed [] :=
  parseUniqueLoop_eq_ok_iff

/-- The last encoding of a parsed list parses to the last certificate. -/
theorem ParsesTo.getLast? {certificates : List ByteString}
    {parsed : List (ParsedCertificate x509)} (hparsed : ParsesTo hashes x509 certificates parsed) :
    (certificates = [] ∧ parsed = []) ∨
      ∃ leaf last, certificates.getLast? = some leaf ∧ parsed.getLast? = some last ∧
        parse hashes x509 leaf = .ok last := by
  induction hparsed with
  | nil => exact Or.inl ⟨rfl, rfl⟩
  | cons hcertificate hrest ih =>
    right
    rcases ih with ⟨rfl, rfl⟩ | ⟨leaf, last, hleaf, hlast, hparse⟩
    · exact ⟨_, _, rfl, rfl, hcertificate⟩
    · refine ⟨leaf, last, ?_, ?_, hparse⟩
      · rw [List.getLast?_cons, hleaf]
        rfl
      · rw [List.getLast?_cons, hlast]
        rfl

/-- A certificate with a key agreement point is not a CA certificate. -/
theorem isCa_eq_false_of_p256KeyAgreementPoint {certificate : ParsedCertificate x509}
    {point : ByteString} (hpoint : certificate.p256KeyAgreementPoint = .ok point) :
    certificate.isCa = false ∧ certificate.p256PublicPoint = .ok point := by
  unfold ParsedCertificate.p256KeyAgreementPoint orInvalid at hpoint
  simp only [bind_eq_ok_iff, ite_error_eq_ok_iff] at hpoint
  obtain ⟨usage, -, husage, hpoint⟩ := hpoint
  push Not at husage
  exact ⟨Bool.eq_false_iff.mpr husage.1, hpoint⟩

end SoftwareKeyCore.CertificateChain
