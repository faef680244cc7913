import SoftwareKeyCore.Foundation.FallibleResult
import SoftwareKeyCore.PostQuantum.KeyEncoding

/-!
# Import routes of the post-quantum private keys

`post_quantum.rs`: the private keys of both algorithms are imported from their components, from
their raw storage and from a PKCS #8 document, and exported to the last two (`KeyRoutes`). The
routes of both follow one policy, and the algorithms differ in its parameters (`KeyPolicy`): the
lengths, the admission of a seed and of an expanded encoding, and the errors.

The raw storage of a form of a key is recognised by its length (`IsRecognized`). The result is
`KeyPolicy.Lawful.routesAgree`: under the laws of the admission the routes agree on every form, and
what is exported is imported as the same key (`RoutesAgree`).
-/

set_option autoImplicit false
set_option relaxedAutoImplicit false

namespace SoftwareKeyCore.PostQuantum

open FallibleResult

/-- The routes of a type of private keys. -/
structure KeyRoutes (Error Key : Type) where
  fromComponents : (seed expanded : Option ByteString) → Except Error Key
  fromSerialized : (encoded : ByteString) → Except Error Key
  fromPkcs8Der : (encoded : ByteString) → Except Error Key
  seed : Key → Option ByteString
  expandedPrivateKey : Key → ByteString
  publicKey : Key → ByteString
  serialized : Key → ByteString
  toPkcs8Der : Key → Except Error ByteString

/-- The parameters of the policy of the routes. -/
structure KeyPolicy (Error Key : Type) where
  seedLength : ℕ
  expandedLength : ℕ
  algorithm : AlgorithmIdentifier
  algorithmOf : Key → AlgorithmIdentifier
  fromSeedSlice : (seed : ByteString) → Except Error Key
  fromExpandedPrivateKey : (expanded : ByteString) → Except Error Key
  seed : Key → Option ByteString
  expandedPrivateKey : Key → ByteString
  publicKey : Key → ByteString
  invalidExpandedPrivateKey : Error
  invalidPrivateKey : Error
  encodingFailed : Error

namespace PrivateEncoding

/-- The seed a form supplies. -/
def seed? : PrivateEncoding → Option ByteString
  | .seed bytes => some bytes
  | .expanded _ => none
  | .both bytes _ => some bytes

/-- The expanded encoding a form supplies. -/
def expanded? : PrivateEncoding → Option ByteString
  | .seed _ => none
  | .expanded bytes => some bytes
  | .both _ bytes => some bytes

/-- The raw storage of a form. -/
def serialization : PrivateEncoding → ByteString
  | .seed bytes => bytes
  | .expanded bytes => bytes
  | .both bytes more => bytes ++ more

end PrivateEncoding

namespace KeyRoutes

variable {Error Key : Type} (routes : KeyRoutes Error Key)

/-- The import of a form from its components. -/
def importForm (form : PrivateEncoding) : Except Error Key :=
  routes.fromComponents form.seed? form.expanded?

/-- A key that was imported from components. -/
def IsAdmitted (key : Key) : Prop :=
  ∃ form, routes.importForm form = .ok key

/-- A form whose raw storage is told from the other forms by its length. -/
def IsRecognized (seedLength expandedLength : ℕ) : (form : PrivateEncoding) → Prop
  | .seed seed => seed.length = seedLength
  | .expanded expanded =>
    expanded.length ≠ seedLength ∧ expanded.length ≠ seedLength + expandedLength
  | .both seed expanded =>
    seed.length = seedLength ∧ expanded ≠ [] ∧ seedLength + expanded.length ≠ expandedLength

/-- The routes agree on every form, and what is exported is imported as the same key. -/
structure RoutesAgree (der : DerLibrary) (algorithm : AlgorithmIdentifier)
    (seedLength expandedLength : ℕ) : Prop where
  fromPkcs8Der_iff : ∀ {document decoded}, decode der document algorithm = some decoded →
    ∀ key, routes.fromPkcs8Der document = .ok key ↔
      routes.importForm decoded.encoding = .ok key ∧
        ∀ publicKey ∈ decoded.publicKey, routes.publicKey key = publicKey
  fromSerialized_iff : ∀ {form}, IsRecognized seedLength expandedLength form →
    ∀ key, routes.fromSerialized form.serialization = .ok key ↔ routes.importForm form = .ok key
  fromComponents_both_iff : ∀ seed expanded key,
    routes.fromComponents (some seed) (some expanded) = .ok key ↔
      routes.fromComponents (some seed) none = .ok key ∧ expanded = routes.expandedPrivateKey key
  seed_iff : ∀ {form key}, routes.importForm form = .ok key →
    ∀ seed, routes.seed key = some seed ↔ form.seed? = some seed
  fromSerialized_serialized : ∀ {key}, routes.IsAdmitted key →
    routes.fromSerialized (routes.serialized key) = .ok key
  fromPkcs8Der_toPkcs8Der : ∀ {key}, routes.IsAdmitted key → ∃ document,
    routes.toPkcs8Der key = .ok document ∧ routes.fromPkcs8Der document = .ok key

end KeyRoutes

open KeyRoutes

namespace KeyPolicy

variable {Error Key : Type} (policy : KeyPolicy Error Key)

/-! ### The policy -/

/-- `from_seed_and_expanded`. -/
def fromSeedAndExpanded (seed expanded : ByteString) : Except Error Key := do
  let key ← policy.fromSeedSlice seed
  if policy.expandedPrivateKey key ≠ expanded then .error policy.invalidExpandedPrivateKey
  else return key

/-- `from_components`. -/
def fromComponents : (seed expanded : Option ByteString) → Except Error Key
  | some seed, some expanded => policy.fromSeedAndExpanded seed expanded
  | some seed, none => policy.fromSeedSlice seed
  | none, some expanded => policy.fromExpandedPrivateKey expanded
  | none, none => .error policy.invalidPrivateKey

/-- `from_serialized`. -/
def fromSerialized (encoded : ByteString) : Except Error Key :=
  if encoded.length = policy.seedLength then policy.fromComponents (some encoded) none
  else if encoded.length = policy.seedLength + policy.expandedLength then
    policy.fromComponents (some (encoded.take policy.seedLength))
      (some (encoded.drop policy.seedLength))
  else policy.fromComponents none (some encoded)

/-- The match of `from_pkcs8_der` on the decoded choice. -/
def importEncoding : (encoding : PrivateEncoding) → Except Error Key
  | .seed seed => policy.fromSeedSlice seed
  | .expanded expanded => policy.fromExpandedPrivateKey expanded
  | .both seed expanded => policy.fromSeedAndExpanded seed expanded

/-- `from_pkcs8_der`. -/
def fromPkcs8Der (der : DerLibrary) (encoded : ByteString) : Except Error Key := do
  let decoded ← orError policy.invalidPrivateKey (decode der encoded policy.algorithm)
  let key ← policy.importEncoding decoded.encoding
  if decoded.publicKey.any fun publicKey ↦ policy.publicKey key != publicKey then
    .error policy.invalidPrivateKey
  else return key

/-- `serialized`. -/
def serialized (key : Key) : ByteString :=
  match policy.seed key with
  | some seed => seed
  | none => policy.expandedPrivateKey key

/-- `to_pkcs8_der`. -/
def toPkcs8Der (der : DerLibrary) (key : Key) : Except Error ByteString :=
  orError policy.encodingFailed <|
    match policy.seed key with
    | some seed => encode der (policy.algorithmOf key) (.seed seed) none
    | none =>
      encode der (policy.algorithmOf key) (.expanded (policy.expandedPrivateKey key)) none

/-- The routes of the policy. -/
def routes (der : DerLibrary) : KeyRoutes Error Key where
  fromComponents := policy.fromComponents
  fromSerialized := policy.fromSerialized
  fromPkcs8Der := policy.fromPkcs8Der der
  seed := policy.seed
  expandedPrivateKey := policy.expandedPrivateKey
  publicKey := policy.publicKey
  serialized := policy.serialized
  toPkcs8Der := policy.toPkcs8Der der

/-- What the admission of the components promises. -/
structure Lawful : Prop where
  seedLength_pos : 0 < policy.seedLength
  seedLength_lt : policy.seedLength < policy.expandedLength
  expandedLength_le : policy.expandedLength + 6 ≤ derLengthLimit
  parameters_algorithm : policy.algorithm.parameters = none
  of_fromSeedSlice : ∀ {seed key}, policy.fromSeedSlice seed = .ok key →
    seed.length = policy.seedLength ∧ policy.seed key = some seed ∧
      (policy.expandedPrivateKey key).length = policy.expandedLength ∧
        policy.algorithmOf key = policy.algorithm
  of_fromExpandedPrivateKey : ∀ {expanded key}, policy.fromExpandedPrivateKey expanded = .ok key →
    expanded.length = policy.expandedLength ∧ policy.seed key = none ∧
      policy.expandedPrivateKey key = expanded ∧ policy.algorithmOf key = policy.algorithm

variable {policy} {der : DerLibrary}

/-! ### The routes agree -/

/-- The import of a form from its components is the match on the decoded choice. -/
theorem importForm_eq (form : PrivateEncoding) :
    (policy.routes der).importForm form = policy.importEncoding form := by
  cases form with
  | seed seed => rfl
  | expanded expanded => rfl
  | both seed expanded => rfl

/-- A combined form is accepted as its seed when it holds the expansion of the seed. -/
theorem fromSeedAndExpanded_eq_ok_iff {seed expanded : ByteString} {key : Key} :
    policy.fromSeedAndExpanded seed expanded = .ok key ↔
      policy.fromSeedSlice seed = .ok key ∧ expanded = policy.expandedPrivateKey key := by
  simp only [fromSeedAndExpanded, bind_eq_ok_iff, ite_error_eq_ok_iff, pure_eq_ok_iff, not_not]
  constructor
  · rintro ⟨inner, hinner, hexpanded, rfl⟩
    exact ⟨hinner, hexpanded.symm⟩
  · rintro ⟨hkey, hexpanded⟩
    exact ⟨key, hkey, hexpanded.symm, rfl⟩

/-- A document is imported as its form, when its public key is that of the key. -/
theorem fromPkcs8Der_eq_ok_iff {document : ByteString} {decoded : EncodedPrivateKey}
    (hdecoded : decode der document policy.algorithm = some decoded) (key : Key) :
    policy.fromPkcs8Der der document = .ok key ↔
      policy.importEncoding decoded.encoding = .ok key ∧
        ∀ publicKey ∈ decoded.publicKey, policy.publicKey key = publicKey := by
  have hpublic : ∀ key, (¬(decoded.publicKey.any fun publicKey ↦
      policy.publicKey key != publicKey) = true) ↔
        ∀ publicKey ∈ decoded.publicKey, policy.publicKey key = publicKey := by
    intro key
    cases decoded.publicKey with
    | none => simp
    | some publicKey => simp
  simp only [fromPkcs8Der, hdecoded, orError_some, ok_bind, bind_eq_ok_iff, ite_error_eq_ok_iff,
    pure_eq_ok_iff, hpublic]
  constructor
  · rintro ⟨inner, hinner, hkey, rfl⟩
    exact ⟨hinner, hkey⟩
  · rintro ⟨hkey, hpublicKey⟩
    exact ⟨key, hkey, hpublicKey, rfl⟩

namespace Lawful

variable (hlawful : policy.Lawful)

include hlawful

/-- The raw storage of a recognised form is imported as the form. -/
theorem fromSerialized_eq_ok_iff {form : PrivateEncoding}
    (hform : IsRecognized policy.seedLength policy.expandedLength form) (key : Key) :
    policy.fromSerialized form.serialization = .ok key ↔
      policy.importEncoding form = .ok key := by
  cases form with
  | seed seed =>
    have hlength : seed.length = policy.seedLength := hform
    rw [PrivateEncoding.serialization, fromSerialized, if_pos hlength]
    rfl
  | expanded expanded =>
    obtain ⟨hseed, hboth⟩ := hform
    rw [PrivateEncoding.serialization, fromSerialized, if_neg hseed, if_neg hboth]
    rfl
  | both seed expanded =>
    obtain ⟨hseed, hexpanded, hother⟩ := hform
    have hpositive := List.length_pos_iff.mpr hexpanded
    rw [PrivateEncoding.serialization, fromSerialized, List.length_append, hseed,
      if_neg (by omega)]
    by_cases hlength : expanded.length = policy.expandedLength
    · rw [if_pos (by rw [hlength]), List.take_left' hseed, List.drop_left' hseed]
      rfl
    · rw [if_neg (by omega)]
      refine iff_of_false (fun hkey ↦ hother ?_) fun hkey ↦ hlength ?_
      · have happend := (hlawful.of_fromExpandedPrivateKey hkey).1
        rwa [List.length_append, hseed] at happend
      · obtain ⟨hkey, hexpansion⟩ := fromSeedAndExpanded_eq_ok_iff.mp hkey
        rw [hexpansion]
        exact (hlawful.of_fromSeedSlice hkey).2.2.1

/-- A key has the seed that was supplied. -/
theorem seed_eq {form : PrivateEncoding} {key : Key}
    (hkey : policy.importEncoding form = .ok key) : policy.seed key = form.seed? := by
  cases form with
  | seed seed => exact (hlawful.of_fromSeedSlice hkey).2.1
  | expanded expanded => exact (hlawful.of_fromExpandedPrivateKey hkey).2.1
  | both seed expanded =>
    exact (hlawful.of_fromSeedSlice (fromSeedAndExpanded_eq_ok_iff.mp hkey).1).2.1

/-- The form a key is exported as: the key is imported from it, and it is told by its length. -/
theorem exists_exported {form : PrivateEncoding} {key : Key}
    (hkey : policy.importEncoding form = .ok key) :
    ∃ exported tag content, policy.importEncoding exported = .ok key ∧
      IsRecognized policy.seedLength policy.expandedLength exported ∧
      policy.serialized key = exported.serialization ∧
      policy.toPkcs8Der der key =
        orError policy.encodingFailed (encode der policy.algorithm exported none) ∧
      encodeChoice der exported = der.encodeTlv tag content ∧
        content.length + 6 ≤ derLengthLimit := by
  have hbound := hlawful.expandedLength_le
  have hseedLength := hlawful.seedLength_lt
  have hpositive := hlawful.seedLength_pos
  have hseeded : ∀ seed, policy.fromSeedSlice seed = .ok key →
      ∃ exported tag content, policy.importEncoding exported = .ok key ∧
        IsRecognized policy.seedLength policy.expandedLength exported ∧
        policy.serialized key = exported.serialization ∧
        policy.toPkcs8Der der key =
          orError policy.encodingFailed (encode der policy.algorithm exported none) ∧
        encodeChoice der exported = der.encodeTlv tag content ∧
          content.length + 6 ≤ derLengthLimit := by
    intro seed hkey
    obtain ⟨hlength, hseed, -, halgorithm⟩ := hlawful.of_fromSeedSlice hkey
    refine ⟨.seed seed, .context0, seed, hkey, hlength, ?_, ?_, rfl, by omega⟩
    · rw [serialized, hseed, PrivateEncoding.serialization]
    · rw [toPkcs8Der, hseed, halgorithm]
  cases form with
  | seed seed => exact hseeded seed hkey
  | both seed expanded => exact hseeded seed (fromSeedAndExpanded_eq_ok_iff.mp hkey).1
  | expanded expanded =>
    obtain ⟨hlength, hseed, hexpanded, halgorithm⟩ := hlawful.of_fromExpandedPrivateKey hkey
    refine ⟨.expanded expanded, .octetString, expanded, hkey, ⟨by omega, by omega⟩, ?_, ?_, rfl,
      by omega⟩
    · rw [serialized, hseed, hexpanded, PrivateEncoding.serialization]
    · rw [toPkcs8Der, hseed, hexpanded, halgorithm]

/-- The routes agree under the laws of the admission. -/
theorem routesAgree (der : DerLibrary) :
    (policy.routes der).RoutesAgree der policy.algorithm policy.seedLength policy.expandedLength
    where
  fromPkcs8Der_iff hdecoded key := by
    rw [importForm_eq]
    exact fromPkcs8Der_eq_ok_iff hdecoded key
  fromSerialized_iff hform key := by
    rw [importForm_eq]
    exact hlawful.fromSerialized_eq_ok_iff hform key
  fromComponents_both_iff _ _ _ := fromSeedAndExpanded_eq_ok_iff
  seed_iff hkey seed := by
    rw [importForm_eq] at hkey
    show policy.seed _ = some seed ↔ _
    rw [hlawful.seed_eq hkey]
  fromSerialized_serialized hadmitted := by
    obtain ⟨form, hform⟩ := hadmitted
    rw [importForm_eq] at hform
    obtain ⟨exported, -, -, hkey, hrecognized, hserialized, -⟩ :=
      @exists_exported _ _ _ der hlawful _ _ hform
    show policy.fromSerialized (policy.serialized _) = _
    rw [hserialized]
    exact (hlawful.fromSerialized_eq_ok_iff hrecognized _).mpr hkey
  fromPkcs8Der_toPkcs8Der hadmitted := by
    obtain ⟨form, hform⟩ := hadmitted
    rw [importForm_eq] at hform
    obtain ⟨exported, tag, content, hkey, -, -, hexport, hchoice, hlength⟩ :=
      @exists_exported _ _ _ der hlawful _ _ hform
    obtain ⟨document, hdocument, hdecoded⟩ :=
      exists_encode hlawful.parameters_algorithm hchoice hlength
    refine ⟨document, hexport.trans ?_, ?_⟩
    · rw [hdocument, orError_some]
    · refine (fromPkcs8Der_eq_ok_iff hdecoded _).mpr ⟨hkey, fun publicKey hpublic ↦ ?_⟩
      exact absurd hpublic (Option.not_mem_none publicKey)

end Lawful

end KeyPolicy

end SoftwareKeyCore.PostQuantum
