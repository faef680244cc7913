import SoftwareKeyCore.SoftwareSigning.SigningKey

/-!
# The identity of restored keys

A key that is exported and restored under its own kind should come back, and a key restored under
a kind should have that kind. Both hold for the curves and for ML-DSA. For RSA the restorations
compare the requested bit length with eight times the byte length of the modulus, while the kind
is the exact bit length: `restoresPublicKey_rsa_iff` and `soundForKind_iff` are what remains, and
`keyIdentity_iff` puts them together for the two exports.
-/

set_option autoImplicit false
set_option relaxedAutoImplicit false

namespace SoftwareKeyCore.SoftwareSigning

open ByteString CheckedSlice FallibleResult PostQuantum RsaKeys RsaValidation SoftwareSigningKey

variable {libraries : KeyLibraries}

/-- A restoration under signature schemes. -/
abbrev Restoration (libraries : KeyLibraries) :=
  SignatureScheme → ByteString → Except SoftwareSigningError (SoftwareSigningKey libraries)

/-! ### Restoration under a scheme -/

/-- What a restoration makes of the schemes of the kinds: keys of the curve or the parameter set,
and for RSA the keys of an RSA restoration. -/
structure RespectsKinds (restore : Restoration libraries)
    (restoreRsa : ByteString → Except RsaPrivateValidationError RsaKey) : Prop where
  ec : ∀ {curve serialized key}, restore (EcCurve.signatureScheme curve) serialized = .ok key →
    key.keyKind = .ec curve
  edwards : ∀ {curve serialized key},
    restore (EdwardsCurve.signatureScheme curve) serialized = .ok key →
      key.keyKind = .edwards curve
  rsa : ∀ {serialized key}, restore .rsaPssSha256 serialized = .ok key ↔
    ∃ rsaKey, restoreRsa serialized = .ok rsaKey ∧ SoftwareSigningKey.rsa rsaKey = key
  mlDsa : ∀ {parameterSet serialized key}, restore (.mlDsa parameterSet) serialized = .ok key →
    key.keyKind = .mlDsa parameterSet

/-- A key that is built around a restored secret has the kind it is built for. -/
theorem keyKind_of_restored {ε α Key : Type} {restored : Except ε α} {build : α → Key}
    {wrap : Key → SoftwareSigningKey libraries} {kind : KeyKind}
    {key : SoftwareSigningKey libraries} (hkind : ∀ secret, (wrap (build secret)).keyKind = kind)
    (hkey : (restored >>= fun secret ↦ pure (build secret)).map wrap = .ok key) :
    key.keyKind = kind := by
  obtain ⟨inner, hinner, rfl⟩ := map_eq_ok_iff.mp hkey
  obtain ⟨secret, -, hpure⟩ := bind_eq_ok_iff.mp hinner
  obtain rfl := pure_eq_ok_iff.mp hpure
  exact hkind secret

/-- The restoration of serialized keys. -/
theorem respectsKinds_fromSerialized :
    RespectsKinds (fromSerialized libraries) (restorePkcs8 libraries.rsa) where
  ec {curve serialized key} hkey := by
    unfold fromSerialized at hkey
    rw [ecCurve_signatureScheme] at hkey
    exact keyKind_of_restored (fun _ ↦ rfl) hkey
  edwards {curve serialized key} hkey := by
    have hscheme : fromSerialized libraries curve.signatureScheme serialized =
        (SoftwareEdwardsKey.fromSerialized libraries curve serialized).map edwards := by
      cases curve <;> rfl
    rw [hscheme] at hkey
    exact keyKind_of_restored (fun _ ↦ rfl) hkey
  rsa {serialized key} := by
    change ((restorePkcs8 libraries.rsa serialized).mapError rsaKeyError).map rsa = _ ↔ _
    simp only [map_eq_ok_iff, mapError_eq_ok_iff]
  mlDsa {parameterSet serialized key} hkey := by
    obtain ⟨inner, hinner, rfl⟩ := map_eq_ok_iff.mp hkey
    exact congrArg KeyKind.mlDsa
      (MlDsaPrivateKey.parameterSet_of_fromSerialized (mapError_eq_ok_iff.mp hinner))

/-- The restoration of PKCS #8 keys. -/
theorem respectsKinds_fromPkcs8Der :
    RespectsKinds (fromPkcs8Der libraries) (importPkcs8 libraries.estimate libraries.rsa) where
  ec {curve serialized key} hkey := by
    unfold fromPkcs8Der at hkey
    rw [ecCurve_signatureScheme] at hkey
    exact keyKind_of_restored (fun _ ↦ rfl) hkey
  edwards {curve serialized key} hkey := by
    have hscheme : fromPkcs8Der libraries curve.signatureScheme serialized =
        (SoftwareEdwardsKey.fromPkcs8Der libraries curve serialized).map edwards := by
      cases curve <;> rfl
    rw [hscheme] at hkey
    exact keyKind_of_restored (fun _ ↦ rfl) hkey
  rsa {serialized key} := by
    change ((importPkcs8 libraries.estimate libraries.rsa serialized).mapError rsaKeyError).map
      rsa = _ ↔ _
    simp only [map_eq_ok_iff, mapError_eq_ok_iff]
  mlDsa {parameterSet serialized key} hkey := by
    obtain ⟨inner, hinner, rfl⟩ := map_eq_ok_iff.mp hkey
    exact congrArg KeyKind.mlDsa
      (MlDsaPrivateKey.parameterSet_of_fromPkcs8Der libraries.der (mapError_eq_ok_iff.mp hinner))

/-! ### Soundness of the requested kind -/

/-- Whatever a restoration under a kind returns has that kind. -/
def SoundForKind (restore : Restoration libraries) (kind : KeyKind) (serialized : ByteString) :
    Prop :=
  ∀ key, restoreForKind libraries restore kind serialized = .ok key → key.keyKind = kind

/-- An RSA key whose bit length is rounded up to the requested one. -/
def IsRoundedUp (kind : KeyKind) (key : RsaKey) : Prop :=
  ∃ modulusBits, kind = .rsa modulusBits ∧ checkedMul key.key.size 8 = some modulusBits ∧
    ¬ 8 ∣ key.key.bits

section Soundness

variable {restore : Restoration libraries}
  {restoreRsa : ByteString → Except RsaPrivateValidationError RsaKey}

/-- What a restoration under an RSA kind returns. -/
theorem restoreForKind_rsa_eq_ok_iff (hkinds : RespectsKinds restore restoreRsa)
    {modulusBits : ℕ} {serialized : ByteString} {key : SoftwareSigningKey libraries} :
    restoreForKind libraries restore (.rsa modulusBits) serialized = .ok key ↔
      ∃ rsaKey, restoreRsa serialized = .ok rsaKey ∧
        checkedMul rsaKey.key.size 8 = some modulusBits ∧ SoftwareSigningKey.rsa rsaKey = key := by
  unfold restoreForKind
  simp only [bind_eq_ok_iff, ite_error_eq_ok_iff, pure_eq_ok_iff, hkinds.rsa]
  constructor
  · rintro ⟨-, ⟨rsaKey, hrestored, rfl⟩, size, hsize, hbits, rfl⟩
    obtain rfl := Except.ok.inj hsize
    exact ⟨rsaKey, hrestored, not_not.mp hbits, rfl⟩
  · rintro ⟨rsaKey, hrestored, hbits, rfl⟩
    exact ⟨_, ⟨rsaKey, hrestored, rfl⟩, rsaKey.key.size, rfl, not_not.mpr hbits, rfl⟩

/-- Soundness fails exactly on RSA keys whose bit length is rounded up to the requested one. -/
theorem soundForKind_iff (hkinds : RespectsKinds restore restoreRsa) {kind : KeyKind}
    {serialized : ByteString} :
    SoundForKind restore kind serialized ↔
      ¬ ∃ key, restoreRsa serialized = .ok key ∧ IsRoundedUp kind key := by
  constructor
  · rintro hsound ⟨rsaKey, hrestored, modulusBits, rfl, hbits, hdvd⟩
    have hkind := hsound _ ((restoreForKind_rsa_eq_ok_iff hkinds).mpr
      ⟨rsaKey, hrestored, hbits, rfl⟩)
    have heq : rsaKey.key.bits = modulusBits := KeyKind.rsa.inj hkind
    have hmul : rsaKey.key.size * 8 = modulusBits := (checkedMul_eq_some_iff.mp hbits).2
    exact hdvd ((size_mul_eight_eq_bits_iff rsaKey.key).mp (hmul.trans heq.symm))
  · intro hrounded key hkey
    cases kind with
    | ec curve => exact hkinds.ec hkey
    | edwards curve => exact hkinds.edwards hkey
    | mlDsa parameterSet => exact hkinds.mlDsa hkey
    | rsa modulusBits =>
      obtain ⟨rsaKey, hrestored, hbits, rfl⟩ := (restoreForKind_rsa_eq_ok_iff hkinds).mp hkey
      have hdvd : 8 ∣ rsaKey.key.bits := by
        by_contra hdvd
        exact hrounded ⟨rsaKey, hrestored, modulusBits, rfl, hbits, hdvd⟩
      have hmul := (checkedMul_eq_some_iff.mp hbits).2
      rw [(size_mul_eight_eq_bits_iff rsaKey.key).mpr hdvd] at hmul
      exact congrArg KeyKind.rsa hmul

end Soundness

/-! ### Restoring exported keys -/

/-- An export is restored under the key's own kind to a key with the same public key. -/
def RestoresPublicKey (restore : Restoration libraries)
    (exported : Except SoftwareSigningError ByteString) (key : SoftwareSigningKey libraries) :
    Prop :=
  ∃ bytes restored, exported = .ok bytes ∧
    restoreForKind libraries restore key.keyKind bytes = .ok restored ∧
    restored.publicKey = key.publicKey

/-- An RSA key whose export is restored with its numbers comes back under its own kind exactly
when its bit length is a multiple of eight. -/
theorem restoresPublicKey_rsa_iff {restore : Restoration libraries}
    {restoreRsa : ByteString → Except RsaPrivateValidationError RsaKey}
    (hkinds : RespectsKinds restore restoreRsa) {key restored : RsaKey} {bytes : ByteString}
    (hrestored : restoreRsa bytes = .ok restored) (hn : restored.key.n = key.key.n)
    (he : restored.key.e = key.key.e) (hbound : key.key.bits ≤ maxRsaBits) :
    RestoresPublicKey restore (.ok bytes) (.rsa key) ↔
      8 ∣ key.key.bits := by
  have hbits : restored.key.bits = key.key.bits := by
    unfold RsaPrivateKey.bits
    rw [hn]
  have hmul : checkedMul restored.key.size 8 = some key.key.bits ↔ 8 ∣ key.key.bits := by
    rw [← hbits, ← size_mul_eight_eq_bits_iff]
    unfold checkedMul
    rw [if_pos, Option.some.injEq]
    unfold RsaPrivateKey.size
    rw [hbits]
    unfold maxRsaBits at hbound
    omega
  constructor
  · rintro ⟨bytes', restored', hbytes, hkey, -⟩
    obtain rfl := Except.ok.inj hbytes
    obtain ⟨rsaKey, hrsaKey, hsize, -⟩ := (restoreForKind_rsa_eq_ok_iff hkinds).mp hkey
    obtain rfl := Except.ok.inj (hrestored.symm.trans hrsaKey)
    exact hmul.mp hsize
  · intro hdvd
    refine ⟨bytes, .rsa restored, rfl, (restoreForKind_rsa_eq_ok_iff hkinds).mpr
      ⟨restored, hrestored, hmul.mpr hdvd, rfl⟩, ?_⟩
    simp only [SoftwareSigningKey.publicKey, hn, he]

/-- A key whose export is restored to itself comes back. -/
theorem restoresPublicKey_of_eq {restore : Restoration libraries}
    {exported : Except SoftwareSigningError ByteString} {key : SoftwareSigningKey libraries}
    {bytes : ByteString} (hexported : exported = .ok bytes)
    (hrestored : restoreForKind libraries restore key.keyKind bytes = .ok key) :
    RestoresPublicKey restore exported key :=
  ⟨bytes, key, hexported, hrestored, rfl⟩

/-- A key as the RSA boundary admits it: its size is within the work bounds and its numbers pass
the import. The keys of the other kinds are all admitted. -/
def IsAdmitted : SoftwareSigningKey libraries → Prop
  | .rsa key => minRsaBits ≤ key.key.bits ∧ key.key.bits ≤ maxRsaBits ∧
      ∃ imported, finishImport libraries.estimate libraries.rsa key.key = .ok imported
  | _ => True

/-- A key that is no RSA key, or whose modulus is a whole number of bytes long. -/
def HasWholeByteModulus : SoftwareSigningKey libraries → Prop
  | .rsa key => 8 ∣ key.key.bits
  | _ => True

/-- A curve key comes back from its raw storage. -/
theorem restoresPublicKey_serialized_ec (key : SoftwareEcKey libraries) :
    RestoresPublicKey (fromSerialized libraries) (SoftwareSigningKey.ec key).serialized
      (.ec key) := by
  refine restoresPublicKey_of_eq rfl ?_
  change fromSerialized libraries key.curve.signatureScheme key.serialized = _
  unfold fromSerialized
  rw [ecCurve_signatureScheme]
  exact map_eq_ok_iff.mpr ⟨key, bind_eq_ok_iff.mpr ⟨key.key, orError_eq_ok_iff.mpr
    ((libraries.ec key.curve).fromSlice_toBytes key.key), rfl⟩, rfl⟩

/-- A curve key comes back from its PKCS #8 export. -/
theorem restoresPublicKey_pkcs8_ec (key : SoftwareEcKey libraries) :
    RestoresPublicKey (fromPkcs8Der libraries) (SoftwareSigningKey.ec key).toPkcs8Der
      (.ec key) := by
  obtain ⟨encoded, hencoded, hdecoded⟩ := (libraries.ec key.curve).exists_toPkcs8Der key.key
  refine restoresPublicKey_of_eq (orError_eq_ok_iff.mpr hencoded) ?_
  change fromPkcs8Der libraries key.curve.signatureScheme encoded = _
  unfold fromPkcs8Der
  rw [ecCurve_signatureScheme]
  exact map_eq_ok_iff.mpr ⟨key, bind_eq_ok_iff.mpr ⟨key.key, orError_eq_ok_iff.mpr hdecoded, rfl⟩,
    rfl⟩

/-- An Edwards key comes back from its raw storage. -/
theorem restoresPublicKey_serialized_edwards (key : SoftwareEdwardsKey libraries) :
    RestoresPublicKey (fromSerialized libraries) (SoftwareSigningKey.edwards key).serialized
      (.edwards key) := by
  refine restoresPublicKey_of_eq rfl ?_
  have hkey : SoftwareEdwardsKey.fromSerialized libraries key.curve key.serialized = .ok key :=
    bind_eq_ok_iff.mpr ⟨key.key, orError_eq_ok_iff.mpr
      ((libraries.edwards key.curve).fromSlice_toBytes key.key), rfl⟩
  have hscheme : fromSerialized libraries key.curve.signatureScheme key.serialized =
      (SoftwareEdwardsKey.fromSerialized libraries key.curve key.serialized).map edwards := by
    cases key.curve <;> rfl
  exact hscheme.trans (map_eq_ok_iff.mpr ⟨key, hkey, rfl⟩)

/-- An Edwards key comes back from its PKCS #8 export. -/
theorem restoresPublicKey_pkcs8_edwards (key : SoftwareEdwardsKey libraries) :
    RestoresPublicKey (fromPkcs8Der libraries) (SoftwareSigningKey.edwards key).toPkcs8Der
      (.edwards key) := by
  obtain ⟨encoded, hencoded, hdecoded⟩ :=
    (libraries.edwards key.curve).exists_toPkcs8Der key.key
  refine restoresPublicKey_of_eq (orError_eq_ok_iff.mpr hencoded) ?_
  have hkey : SoftwareEdwardsKey.fromPkcs8Der libraries key.curve encoded = .ok key :=
    bind_eq_ok_iff.mpr ⟨key.key, orError_eq_ok_iff.mpr hdecoded, rfl⟩
  have hscheme : fromPkcs8Der libraries key.curve.signatureScheme encoded =
      (SoftwareEdwardsKey.fromPkcs8Der libraries key.curve encoded).map edwards := by
    cases key.curve <;> rfl
  exact hscheme.trans (map_eq_ok_iff.mpr ⟨key, hkey, rfl⟩)

/-- An ML-DSA key comes back from its raw storage. -/
theorem restoresPublicKey_serialized_mlDsa (key : MlDsaPrivateKey libraries.mlDsa) :
    RestoresPublicKey (fromSerialized libraries) (SoftwareSigningKey.mlDsa key).serialized
      (.mlDsa key) := by
  refine restoresPublicKey_of_eq rfl ?_
  exact map_eq_ok_iff.mpr ⟨key, mapError_eq_ok_iff.mpr key.fromSerialized_serialized, rfl⟩

/-- An ML-DSA key comes back from its PKCS #8 export. -/
theorem restoresPublicKey_pkcs8_mlDsa (key : MlDsaPrivateKey libraries.mlDsa) :
    RestoresPublicKey (fromPkcs8Der libraries) (SoftwareSigningKey.mlDsa key).toPkcs8Der
      (.mlDsa key) := by
  obtain ⟨encoded, hencoded, hkey⟩ := key.fromPkcs8Der_toPkcs8Der libraries.der
  refine restoresPublicKey_of_eq (mapError_eq_ok_iff.mpr hencoded) ?_
  exact map_eq_ok_iff.mpr ⟨key, mapError_eq_ok_iff.mpr hkey, rfl⟩

/-- An admitted key comes back from its raw storage exactly when its modulus is a whole number of
bytes long. -/
theorem restoresPublicKey_serialized_iff {key : SoftwareSigningKey libraries}
    (hadmitted : IsAdmitted key) :
    RestoresPublicKey (fromSerialized libraries) key.serialized key ↔
      HasWholeByteModulus key := by
  cases key with
  | ec key => exact iff_of_true (restoresPublicKey_serialized_ec key) trivial
  | edwards key => exact iff_of_true (restoresPublicKey_serialized_edwards key) trivial
  | mlDsa key => exact iff_of_true (restoresPublicKey_serialized_mlDsa key) trivial
  | rsa key =>
    obtain ⟨-, hbound, imported, himported⟩ := hadmitted
    obtain ⟨encoded, hencoded⟩ :=
      libraries.rsa.exists_toPkcs8Der (finishImport_eq_ok himported).1
    have hexported : (SoftwareSigningKey.rsa key : SoftwareSigningKey libraries).serialized =
        .ok encoded := orError_eq_ok_iff.mpr hencoded
    have hrestored : restorePkcs8 libraries.rsa encoded = .ok ⟨key.key, false⟩ :=
      restorePkcs8_eq_ok_iff.mpr ⟨libraries.rsa.fromPkcs8Der_toPkcs8Der hencoded, rfl⟩
    rw [hexported]
    exact restoresPublicKey_rsa_iff respectsKinds_fromSerialized hrestored rfl rfl hbound

/-- An admitted key comes back from its PKCS #8 export exactly when its modulus is a whole number
of bytes long. -/
theorem restoresPublicKey_pkcs8_iff {key : SoftwareSigningKey libraries}
    (hadmitted : IsAdmitted key) :
    RestoresPublicKey (fromPkcs8Der libraries) key.toPkcs8Der key ↔ HasWholeByteModulus key := by
  cases key with
  | ec key => exact iff_of_true (restoresPublicKey_pkcs8_ec key) trivial
  | edwards key => exact iff_of_true (restoresPublicKey_pkcs8_edwards key) trivial
  | mlDsa key => exact iff_of_true (restoresPublicKey_pkcs8_mlDsa key) trivial
  | rsa key =>
    obtain ⟨-, hbound, imported, himported⟩ := hadmitted
    obtain ⟨htwo, hn, he⟩ := finishImport_eq_ok himported
    obtain ⟨encoded, hencoded⟩ := libraries.rsa.exists_toPkcs8Der htwo
    have hexported : (SoftwareSigningKey.rsa key : SoftwareSigningKey libraries).toPkcs8Der =
        .ok encoded := orError_eq_ok_iff.mpr hencoded
    have hrestored : importPkcs8 libraries.estimate libraries.rsa encoded = .ok imported :=
      importPkcs8_eq_ok_iff.mpr
        ⟨key.key, libraries.rsa.fromPkcs8Der_toPkcs8Der hencoded, himported⟩
    rw [hexported]
    exact restoresPublicKey_rsa_iff respectsKinds_fromPkcs8Der hrestored hn he hbound

/-! ### Key identity -/

/-- A key comes back under its own kind from both of its exports. -/
def RoundTrips (key : SoftwareSigningKey libraries) : Prop :=
  RestoresPublicKey (fromSerialized libraries) key.serialized key ∧
    RestoresPublicKey (fromPkcs8Der libraries) key.toPkcs8Der key

/-- Key identity at the restoration boundaries: an admitted key comes back exactly when its
modulus is a whole number of bytes long, and a restoration under a kind is sound exactly when its
input is not an RSA key whose bit length is rounded up to the requested one.

Assumes of the third-party codecs the laws of `KeyLibraries`: a key is read back from its bytes
and from its PKCS #8 document, and a document is encoded for every key of two primes. -/
theorem keyIdentity_iff (libraries : KeyLibraries) :
    (∀ key : SoftwareSigningKey libraries, IsAdmitted key →
      (RoundTrips key ↔ HasWholeByteModulus key)) ∧
    ∀ (kind : KeyKind) (serialized : ByteString),
      ((∀ key, fromSerializedForKind libraries kind serialized = .ok key → key.keyKind = kind) ↔
        ¬ ∃ key, restorePkcs8 libraries.rsa serialized = .ok key ∧ IsRoundedUp kind key) ∧
      ((∀ key, fromPkcs8DerForKind libraries kind serialized = .ok key → key.keyKind = kind) ↔
        ¬ ∃ key, importPkcs8 libraries.estimate libraries.rsa serialized = .ok key ∧
          IsRoundedUp kind key) := by
  refine ⟨fun key hadmitted ↦ ?_, fun kind serialized ↦ ⟨?_, ?_⟩⟩
  · unfold RoundTrips
    rw [restoresPublicKey_serialized_iff hadmitted, restoresPublicKey_pkcs8_iff hadmitted,
      and_self]
  · exact soundForKind_iff respectsKinds_fromSerialized
  · exact soundForKind_iff respectsKinds_fromPkcs8Der

/-! ### Libraries that satisfy the laws -/

section ReferenceLibraries

/-- Bytes as codes. -/
instance encodableByte : Encodable UInt8 :=
  Encodable.ofLeftInverse UInt8.toNat UInt8.ofNat fun _ ↦ UInt8.ofNat_toNat

/-- RSA private keys as codes of their exponents and primes. -/
instance encodableRsaPrivateKey : Encodable RsaPrivateKey :=
  Encodable.ofLeftInverse (fun key ↦ (key.e, key.d, key.primes))
    (fun fields ↦ ⟨fields.2.2.prod, fields.1, fields.2.1, fields.2.2, rfl⟩) (by
      rintro ⟨n, e, d, primes, rfl⟩
      rfl)

/-- PKCS #8 informations as codes of their fields. -/
instance encodablePrivateKeyInfo : Encodable PrivateKeyInfo :=
  Encodable.ofLeftInverse
    (fun info ↦ (info.algorithm.oid, info.algorithm.parameters, info.privateKey,
      info.publicKey.map fun bits ↦ (bits.unusedBits, bits.bytes)))
    (fun fields ↦ ⟨⟨fields.1, fields.2.1⟩, fields.2.2.1,
      fields.2.2.2.map fun bits ↦ ⟨bits.1, bits.2⟩⟩) (by
      rintro ⟨⟨oid, parameters⟩, privateKey, publicKey⟩
      cases publicKey <;> rfl)

/-- A value as the bytes of its code. -/
def encodeBytes {α : Type} [Encodable α] (value : α) : ByteString :=
  toBytesBe (Encodable.encode value)

/-- The value of the code that bytes stand for. -/
def decodeBytes (α : Type) [Encodable α] (bytes : ByteString) : Option α :=
  Encodable.decode (fromBeBytes bytes)

theorem decodeBytes_encodeBytes {α : Type} [Encodable α] (value : α) :
    decodeBytes α (encodeBytes value) = some value := by
  rw [decodeBytes, encodeBytes, fromBeBytes_toBytesBe, Encodable.encodek]

/-- Secret keys that are their own encodings. -/
def referenceCodec : PrivateKeyCodec where
  SecretKey := ByteString
  fromSlice := some
  toBytes := id
  fromPkcs8Der := some
  toPkcs8Der := some
  publicKey := id
  fromSlice_toBytes _ := rfl
  exists_toPkcs8Der key := ⟨key, rfl, rfl⟩

/-- RSA keys by their codes; every two factors and exponent make a key, which passes the
validation. -/
def referenceRsa : RsaLibrary where
  fromPkcs8Der := decodeBytes RsaPrivateKey
  toPkcs8Der key := some (encodeBytes key)
  fromPq p q e := some (.ofFactors p q e 0)
  precompute _ := some ()
  validateRsaPrivateKey _ _ := .ok ()
  exists_toPkcs8Der _ := ⟨_, rfl⟩
  fromPkcs8Der_toPkcs8Der hencoded := by
    obtain rfl := Option.some.inj hencoded
    exact decodeBytes_encodeBytes _
  fromPq_eq hkey := by
    obtain rfl := Option.some.inj hkey
    exact ⟨rfl, rfl⟩

/-- ML-DSA keys that are their seeds or their expanded encodings. -/
def referenceMlDsa (parameterSet : MlDsaParameterSet) : MlDsaLibrary parameterSet where
  SigningKey := Seed
  ExpandedSigningKey := List.Vector UInt8 parameterSet.expandedPrivateKeyLength
  VerifyingKey := Unit
  Signature := Unit
  fromSeed := id
  asSeed := id
  expandedKey _ := List.Vector.replicate _ 0
  verifyingKey _ := ()
  encodeVerifyingKey _ := []
  validate _ := .ok ()
  fromExpanded encoded := ⟨resize encoded parameterSet.expandedPrivateKeyLength 0,
    length_resize _ _ _⟩
  toExpanded := List.Vector.toList
  shake256 _ := List.Vector.replicate 64 0
  signDeterministic _ _ _ := some ()
  verify _ _ _ := true
  fromSeed_asSeed _ := rfl
  length_toExpanded key := key.toList_length
  toExpanded_fromExpanded {encoded} hlength _ := by
    rw [← hlength]
    change resize encoded encoded.length 0 = encoded
    rw [resize_of_le le_rfl, Nat.sub_self, List.replicate_zero, List.append_nil]

/-- The byte of a tag. -/
def tagByte : DerTag → UInt8
  | .context0 => 0x80
  | .octetString => 0x04
  | .sequence => 0x30
  | .other => 0x05

/-- The tag of a byte. -/
def byteTag (byte : UInt8) : DerTag :=
  if byte = 0x80 then .context0
  else if byte = 0x04 then .octetString
  else if byte = 0x30 then .sequence
  else .other

/-- A tag and a content, with a length of five bytes between them. -/
def referenceEncodeTlv (tag : DerTag) (content : ByteString) : Option ByteString :=
  if content.length < 256 ^ 5 then some (tagByte tag :: toBeBytes 5 content.length ++ content)
  else none

/-- The tag and the content of a tagged value, and the bytes after it. -/
def referenceDecodeTlv : ByteString → Option (DerTag × ByteString × ByteString)
  | [] => none
  | tag :: bytes =>
    let length := fromBeBytes (bytes.take 5)
    some (byteTag tag, (bytes.drop 5).take length, (bytes.drop 5).drop length)

theorem referenceDecodeTlv_append {tag : DerTag} {content encoded : ByteString}
    (hencoded : referenceEncodeTlv tag content = some encoded) (rest : ByteString) :
    referenceDecodeTlv (encoded ++ rest) = some (tag, content, rest) := by
  unfold referenceEncodeTlv at hencoded
  split_ifs at hencoded with hlength
  obtain rfl := Option.some.inj hencoded
  have htag : byteTag (tagByte tag) = tag := by cases tag <;> rfl
  have hwidth : (toBeBytes 5 content.length).length = 5 := length_toBeBytes 5 content.length
  rw [List.append_assoc, List.cons_append]
  dsimp only [referenceDecodeTlv]
  rw [List.take_left' hwidth, List.drop_left' hwidth, fromBeBytes_toBeBytes_of_lt hlength,
    List.take_left, List.drop_left, htag]

theorem exists_referenceEncodeTlv (tag : DerTag) {content : ByteString}
    (hlength : content.length ≤ derLengthLimit) :
    ∃ encoded, referenceEncodeTlv tag content = some encoded ∧
      encoded.length ≤ content.length + 6 := by
  unfold derLengthLimit at hlength
  refine ⟨_, if_pos (by omega), ?_⟩
  simp only [List.length_append, List.length_cons, length_toBeBytes]
  omega

/-- Tagged values with a length of five bytes. -/
def referenceDer : DerLibrary where
  encodeTlv := referenceEncodeTlv
  decodeTlv := referenceDecodeTlv
  encodeInfo info := some (encodeBytes info)
  decodeInfo := decodeBytes PrivateKeyInfo
  decodeTlv_append := referenceDecodeTlv_append
  exists_encodeTlv := exists_referenceEncodeTlv
  decodeInfo_encodeInfo hencoded := by
    obtain rfl := Option.some.inj hencoded
    exact decodeBytes_encodeBytes _
  exists_encodeInfo _ _ _ _ := ⟨_, rfl⟩

/-- The libraries above. -/
def referenceLibraries : KeyLibraries where
  ec _ := referenceCodec
  edwards _ := referenceCodec
  rsa := referenceRsa
  mlDsa := referenceMlDsa
  der := referenceDer
  estimate _ := 14

/-- Two-prime keys within the work bounds are admitted. -/
theorem isAdmitted_referenceLibraries {key : RsaPrivateKey} (validated : Bool) {p q : ℕ}
    (hprimes : key.primes = [p, q]) (hlower : minRsaBits ≤ key.bits)
    (hupper : key.bits ≤ maxRsaBits) :
    IsAdmitted (.rsa ⟨key, validated⟩ : SoftwareSigningKey referenceLibraries) := by
  refine ⟨hlower, hupper, ?_⟩
  obtain ⟨strength, hstrength⟩ := Option.isSome_iff_exists.mp
    ((isSome_validationStrength (fun _ ↦ 14) key.bits).mpr ⟨hlower, hupper⟩)
  unfold finishImport
  rw [hprimes]
  exact ⟨_, bind_eq_ok_iff.mpr ⟨strength, orError_eq_ok_iff.mpr hstrength, rfl⟩⟩

/-- A key of 512 bits, from two primes of 256 bits. -/
def key512 : RsaPrivateKey where
  n := 87477114620238864154363460302792167617054858370308240678252756531282953075661 *
    81967250438886944543852432491803649813315347976146673724790250590442489827643
  e := 65537
  d := 26719571325360925988147031129821924216941282790716569557574137432703478978386 * 10 ^ 77 +
    34838399053036942227496578584218622659799807256398379230905233250588733107793
  primes := [87477114620238864154363460302792167617054858370308240678252756531282953075661,
    81967250438886944543852432491803649813315347976146673724790250590442489827643]
  prod_primes := by simp

/-- A key of 513 bits, from primes of 257 and 256 bits. -/
def key513 : RsaPrivateKey where
  n := 177252511544360555830696273566149014287732849872778697840176585450798922371403 *
    104303513765971773117897630059006084758292946424304425372277076899953224374761
  e := 65537
  d := 15050093674596747451235419324997026815972017168272218683845401514681326707098 * 10 ^ 77 +
    60600358103089110961611785579905913619051913611968185087194225844754182185073
  primes := [177252511544360555830696273566149014287732849872778697840176585450798922371403,
    104303513765971773117897630059006084758292946424304425372277076899953224374761]
  prod_primes := by simp

/-- The key of 512 bits comes back under its own kind. -/
theorem keyIdentity_key512 :
    RoundTrips (.rsa ⟨key512, true⟩ : SoftwareSigningKey referenceLibraries) :=
  ((keyIdentity_iff referenceLibraries).1 _ (isAdmitted_referenceLibraries true rfl
    (by decide +kernel) (by decide +kernel))).mpr (by decide +kernel : 8 ∣ key512.bits)

/-- The key of 513 bits is admitted and does not come back under its own kind, and it comes back
under the kind of 520 bits. -/
theorem not_roundTrips_key513 :
    IsAdmitted (.rsa ⟨key513, true⟩ : SoftwareSigningKey referenceLibraries) ∧
      ¬ RoundTrips (.rsa ⟨key513, true⟩ : SoftwareSigningKey referenceLibraries) ∧
      ∃ key, fromSerializedForKind referenceLibraries (.rsa 520) (encodeBytes key513) = .ok key ∧
        key.keyKind = .rsa 513 := by
  have hbits : key513.bits = 513 := by decide +kernel
  have hadmitted : IsAdmitted (.rsa ⟨key513, true⟩ : SoftwareSigningKey referenceLibraries) :=
    isAdmitted_referenceLibraries true rfl (by rw [hbits]; decide) (by rw [hbits]; decide)
  refine ⟨hadmitted, fun hround ↦ ?_, .rsa ⟨key513, false⟩, ?_, congrArg KeyKind.rsa hbits⟩
  · have hdvd : 8 ∣ key513.bits := (restoresPublicKey_serialized_iff hadmitted).mp hround.1
    rw [hbits] at hdvd
    omega
  · refine (restoreForKind_rsa_eq_ok_iff respectsKinds_fromSerialized).mpr
      ⟨⟨key513, false⟩, restorePkcs8_eq_ok_iff.mpr ⟨decodeBytes_encodeBytes key513, rfl⟩, ?_, rfl⟩
    unfold RsaPrivateKey.size
    rw [hbits]
    rfl

end ReferenceLibraries

end SoftwareKeyCore.SoftwareSigning
