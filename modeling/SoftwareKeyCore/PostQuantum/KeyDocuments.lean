import SoftwareKeyCore.Foundation.DerEncoding
import SoftwareKeyCore.PostQuantum.KeyEncoding
import SoftwareKeyCore.SoftwareSigning.KeyIdentity

/-!
# The documents of post-quantum private keys

`pqc_key_encoding.rs`, with a DER library that is strict: it only reads the encodings that it writes,
and it writes what is below its length limit (`StrictDer`).

`decode_eq_some_iff` is that a document is accepted exactly when the private key in it is the encoding
of the key that is returned, and `decode_eq_none_of_isMalformed` what that leaves out.
`pkcs8Codec_roundTrips` puts this together with the way back. `documentDer` is a strict library with the
encodings of DER for tagged values.
-/

set_option autoImplicit false
set_option relaxedAutoImplicit false

namespace SoftwareKeyCore.PostQuantum

/-- What a strict DER library does below its length limit. -/
structure StrictDer (der : DerLibrary) (limit : ℕ) : Prop where
  decodeTlv_eq_some : ∀ {tag bytes content rest}, tag ≠ .other →
    der.decodeTlv bytes = some (tag, content, rest) →
      ∃ encoded, der.encodeTlv tag content = some encoded ∧ encoded ++ rest = bytes
  exists_encodeTlv : ∀ {tag content}, tag ≠ .other → content.length + 6 ≤ limit →
    ∃ encoded, der.encodeTlv tag content = some encoded ∧ encoded.length ≤ content.length + 6
  exists_encodeInfo : ∀ {oid privateKey} (publicKey : Option ByteString),
    privateKey.length + (publicKey.elim 0 List.length) + 100 ≤ limit →
      ∃ encoded, der.encodeInfo ⟨⟨oid, none⟩, privateKey,
        publicKey.map fun bytes ↦ ⟨0, bytes⟩⟩ = some encoded

variable {der : DerLibrary} {limit : ℕ} {algorithm : AlgorithmIdentifier}
  {encoding : PrivateEncoding} {publicKey : Option ByteString} {info : PrivateKeyInfo}
  {bytes encoded inner rest : ByteString}

/-! ### The inner choice -/

/-- An octet string is only read from its encoding. -/
theorem decodeOctetString_eq_some (hstrict : StrictDer der limit) {content : ByteString}
    (hread : decodeOctetString der bytes = some (content, rest)) :
    ∃ encoded, der.encodeTlv .octetString content = some encoded ∧ encoded ++ rest = bytes := by
  unfold decodeOctetString at hread
  split at hread
  next content' rest' htlv =>
    obtain ⟨rfl, rfl⟩ := Prod.mk.inj (Option.some.inj hread)
    exact hstrict.decodeTlv_eq_some (by decide) htlv
  next => exact absurd hread.symm (Option.some_ne_none _)

/-- An inner choice is only read from its encoding. -/
theorem decodeChoice_eq_some (hstrict : StrictDer der limit)
    (hread : decodeChoice der bytes = some (encoding, rest)) :
    ∃ inner, encodeChoice der encoding = some inner ∧ inner ++ rest = bytes := by
  unfold decodeChoice at hread
  split at hread
  next seed rest' htlv =>
    obtain ⟨rfl, rfl⟩ := Prod.mk.inj (Option.some.inj hread)
    exact hstrict.decodeTlv_eq_some (by decide) htlv
  next expanded rest' htlv =>
    obtain ⟨rfl, rfl⟩ := Prod.mk.inj (Option.some.inj hread)
    exact hstrict.decodeTlv_eq_some (by decide) htlv
  next content rest' htlv =>
    obtain ⟨⟨seed, after⟩, hseed, hread⟩ := Option.bind_eq_some_iff.mp hread
    obtain ⟨⟨expanded, after'⟩, hexpanded, hread⟩ := Option.bind_eq_some_iff.mp hread
    dsimp only at hexpanded hread
    split_ifs at hread with hend
    obtain ⟨rfl, rfl⟩ := Prod.mk.inj (Option.some.inj hread)
    obtain ⟨sequence, hsequence, hbytes⟩ := hstrict.decodeTlv_eq_some (by decide) htlv
    obtain ⟨first, hfirst, hcontent⟩ := decodeOctetString_eq_some hstrict hseed
    obtain ⟨second, hsecond, hafter⟩ := decodeOctetString_eq_some hstrict hexpanded
    rw [hend, List.append_nil] at hafter
    refine ⟨sequence, ?_, hbytes⟩
    refine Option.bind_eq_some_iff.mpr ⟨first, hfirst, Option.bind_eq_some_iff.mpr
      ⟨second, hsecond, ?_⟩⟩
    rw [hafter, hcontent, hsequence]
  next => exact absurd hread.symm (Option.some_ne_none _)

/-! ### The documents that are accepted -/

theorem asBytes_eq_some_iff {bits : BitString} :
    bits.asBytes = some bytes ↔ bits = ⟨0, bytes⟩ := by
  obtain ⟨unusedBits, content⟩ := bits
  rw [BitString.asBytes, BitString.mk.injEq]
  constructor
  · intro hbytes
    split_ifs at hbytes with hunused
    exact ⟨hunused, Option.some.inj hbytes⟩
  · rintro ⟨rfl, rfl⟩
    rfl

/-- A document is accepted exactly when it is one under the algorithm, without parameters, whose
private key is the encoding of the inner choice that is returned. -/
theorem decode_eq_some_iff (hstrict : StrictDer der limit) {key : EncodedPrivateKey} :
    decode der encoded algorithm = some key ↔
      ∃ inner, encodeChoice der key.encoding = some inner ∧
        der.decodeInfo encoded = some ⟨⟨algorithm.oid, none⟩, inner,
          key.publicKey.map fun bytes ↦ ⟨0, bytes⟩⟩ := by
  constructor
  · intro hdecode
    obtain ⟨⟨⟨oid, parameters⟩, privateKey, bits⟩, hinfo, hdecode⟩ :=
      Option.bind_eq_some_iff.mp hdecode
    dsimp only at hdecode
    split_ifs at hdecode with halgorithm
    obtain ⟨hoid, hparameters⟩ := not_or.mp halgorithm
    obtain rfl := not_not.mp hoid
    obtain rfl := Option.not_isSome_iff_eq_none.mp hparameters
    obtain ⟨⟨encoding, rest⟩, hchoice, hkey⟩ := Option.bind_eq_some_iff.mp hdecode
    dsimp only at hkey
    split_ifs at hkey with hrest
    obtain rfl := not_not.mp hrest
    obtain ⟨inner, hinner, hprivate⟩ := decodeChoice_eq_some hstrict hchoice
    rw [List.append_nil] at hprivate
    obtain rfl := hprivate
    cases bits with
    | none =>
      obtain rfl := Option.some.inj hkey
      exact ⟨inner, hinner, hinfo⟩
    | some bits =>
      obtain ⟨publicKey, hbits, rfl⟩ := Option.map_eq_some_iff.mp hkey
      obtain rfl := asBytes_eq_some_iff.mp hbits
      exact ⟨inner, hinner, hinfo⟩
  · rintro ⟨inner, hinner, hinfo⟩
    obtain ⟨encoding, publicKey⟩ := key
    rw [decode, hinfo, Option.bind_eq_bind, Option.bind_some]
    dsimp only
    rw [if_neg (by simp), decodeChoice_encodeChoice hinner, Option.bind_eq_bind, Option.bind_some]
    cases publicKey with
    | none => rfl
    | some publicKey => rfl

/-- What a document under an algorithm must not be. -/
inductive IsMalformed (der : DerLibrary) (algorithm : AlgorithmIdentifier)
    (info : PrivateKeyInfo) : Prop
  | otherOid (hoid : info.algorithm.oid ≠ algorithm.oid)
  | parameters (hparameters : info.algorithm.parameters ≠ none)
  | afterChoice {encoding : PrivateEncoding} {inner rest : ByteString}
      (hinner : encodeChoice der encoding = some inner) (hrest : rest ≠ [])
      (hkey : info.privateKey = inner ++ rest)
  | inSequence {seed expanded first second rest sequence after : ByteString}
      (hfirst : der.encodeTlv .octetString seed = some first)
      (hsecond : der.encodeTlv .octetString expanded = some second) (hrest : rest ≠ [])
      (hsequence : der.encodeTlv .sequence (first ++ second ++ rest) = some sequence)
      (hkey : info.privateKey = sequence ++ after)
  | otherTag {content after : ByteString}
      (htag : der.decodeTlv info.privateKey = some (.other, content, after))

/-- A combined sequence with bytes after its two octet strings is not read. -/
theorem decodeChoice_inSequence {seed expanded first second sequence after : ByteString}
    (hfirst : der.encodeTlv .octetString seed = some first)
    (hsecond : der.encodeTlv .octetString expanded = some second) (hrest : rest ≠ [])
    (hsequence : der.encodeTlv .sequence (first ++ second ++ rest) = some sequence) :
    decodeChoice der (sequence ++ after) = none := by
  rw [decodeChoice, der.decodeTlv_append hsequence]
  dsimp only
  rw [List.append_assoc, decodeOctetString_append hfirst, Option.bind_eq_bind, Option.bind_some]
  dsimp only
  rw [decodeOctetString_append hsecond]
  exact if_neg hrest

/-- Malformed documents are refused. -/
theorem decode_eq_none_of_isMalformed (hinfo : der.decodeInfo encoded = some info)
    (hmalformed : IsMalformed der algorithm info) : decode der encoded algorithm = none := by
  rw [decode, hinfo, Option.bind_eq_bind, Option.bind_some]
  by_cases halgorithm : info.algorithm.oid ≠ algorithm.oid ∨ info.algorithm.parameters.isSome
  · rw [if_pos halgorithm]
  rw [if_neg halgorithm]
  obtain ⟨hoid, hparameters⟩ := not_or.mp halgorithm
  cases hmalformed with
  | otherOid hother => exact absurd hother hoid
  | parameters hsome => exact absurd (Option.isSome_iff_ne_none.mpr hsome) hparameters
  | afterChoice hinner hrest hkey =>
    rw [hkey, decodeChoice_append hinner, Option.bind_eq_bind, Option.bind_some]
    exact if_pos hrest
  | inSequence hfirst hsecond hrest hsequence hkey =>
    rw [hkey, decodeChoice_inSequence hfirst hsecond hrest hsequence]
    rfl
  | otherTag htag =>
    rw [decodeChoice, htag]
    rfl

/-! ### The round trip -/

/-- The number of bytes of the seed and the expanded key. -/
def PrivateEncoding.contentLength : PrivateEncoding → ℕ
  | .seed content => content.length
  | .expanded content => content.length
  | .both first second => first.length + second.length

/-- An inner choice below the length limit is encoded. -/
theorem exists_encodeChoice (hstrict : StrictDer der limit)
    (hlength : encoding.contentLength + 18 ≤ limit) :
    ∃ inner, encodeChoice der encoding = some inner ∧
      inner.length ≤ encoding.contentLength + 18 := by
  cases encoding with
  | seed seed =>
    dsimp only [PrivateEncoding.contentLength] at hlength ⊢
    obtain ⟨inner, hinner, hbound⟩ :=
      hstrict.exists_encodeTlv (by decide : DerTag.context0 ≠ .other)
        (by omega : seed.length + 6 ≤ limit)
    exact ⟨inner, hinner, by omega⟩
  | expanded expanded =>
    dsimp only [PrivateEncoding.contentLength] at hlength ⊢
    obtain ⟨inner, hinner, hbound⟩ :=
      hstrict.exists_encodeTlv (by decide : DerTag.octetString ≠ .other)
        (by omega : expanded.length + 6 ≤ limit)
    exact ⟨inner, hinner, by omega⟩
  | both seed expanded =>
    dsimp only [PrivateEncoding.contentLength] at hlength ⊢
    have hoctetString : DerTag.octetString ≠ .other := by decide
    obtain ⟨first, hfirst, hfirstBound⟩ :=
      hstrict.exists_encodeTlv hoctetString (by omega : seed.length + 6 ≤ limit)
    obtain ⟨second, hsecond, hsecondBound⟩ :=
      hstrict.exists_encodeTlv hoctetString (by omega : expanded.length + 6 ≤ limit)
    have hcontent : (first ++ second).length ≤ seed.length + expanded.length + 12 := by
      rw [List.length_append]
      omega
    obtain ⟨inner, hinner, hbound⟩ :=
      hstrict.exists_encodeTlv (by decide : DerTag.sequence ≠ .other)
        (by omega : (first ++ second).length + 6 ≤ limit)
    exact ⟨inner, Option.bind_eq_some_iff.mpr ⟨first, hfirst, Option.bind_eq_some_iff.mpr
      ⟨second, hsecond, hinner⟩⟩, by omega⟩

/-- A private key below the length limit is encoded, with or without a public key. -/
theorem exists_encode_of_le (hstrict : StrictDer der limit) (halgorithm : algorithm.parameters = none)
    (hlength : encoding.contentLength + publicKey.elim 0 List.length + 118 ≤ limit) :
    ∃ encoded, encode der algorithm encoding publicKey = some encoded := by
  obtain ⟨inner, hinner, hbound⟩ := exists_encodeChoice hstrict
    (by omega : encoding.contentLength + 18 ≤ limit)
  obtain ⟨oid, parameters⟩ := algorithm
  obtain rfl := halgorithm
  have hinfo : ∃ encoded, der.encodeInfo ⟨⟨oid, none⟩, inner, publicKey.map fun bytes ↦ ⟨0, bytes⟩⟩ =
      some encoded := hstrict.exists_encodeInfo publicKey (by omega)
  obtain ⟨encoded, hencoded⟩ := hinfo
  exact ⟨encoded, Option.bind_eq_some_iff.mpr ⟨inner, hinner, hencoded⟩⟩

/-- The PKCS #8 codec of private keys: what it encodes is read back, below the length limit
everything is encoded, and malformed documents are refused.

Assumes a strict DER codec (`StrictDer`): what it decodes is what it encodes, and it encodes
everything up to a limit on the length. -/
theorem pkcs8Codec_roundTrips (hstrict : StrictDer der limit) (algorithm : AlgorithmIdentifier) :
    (algorithm.parameters = none →
      ∀ (encoding : PrivateEncoding) (publicKey : Option ByteString),
        (∀ encoded, encode der algorithm encoding publicKey = some encoded →
          decode der encoded algorithm = some ⟨encoding, publicKey⟩) ∧
        (encoding.contentLength + publicKey.elim 0 List.length + 118 ≤ limit →
          ∃ encoded, encode der algorithm encoding publicKey = some encoded)) ∧
    (∀ encoded info, der.decodeInfo encoded = some info → IsMalformed der algorithm info →
      decode der encoded algorithm = none) ∧
    ∀ encoded key, decode der encoded algorithm = some key ↔
      ∃ inner, encodeChoice der key.encoding = some inner ∧
        der.decodeInfo encoded = some ⟨⟨algorithm.oid, none⟩, inner,
          key.publicKey.map fun bytes ↦ ⟨0, bytes⟩⟩ :=
  ⟨fun halgorithm _ _ ↦ ⟨fun _ ↦ decode_encode halgorithm,
      exists_encode_of_le hstrict halgorithm⟩,
    fun _ _ ↦ decode_eq_none_of_isMalformed, fun _ _ ↦ decode_eq_some_iff hstrict⟩

/-! ### A strict library -/

section DocumentDer

open DerEncoding SoftwareSigning

/-- A tagged value of DER, below the length limit. -/
def documentEncodeTlv (tag : DerTag) (content : ByteString) : Option ByteString :=
  if content.length < 2 ^ 28 then some (tagged (tagByte tag) content) else none

/-- The tagged value of DER at the front, below the length limit. -/
def documentDecodeTlv (bytes : ByteString) : Option (DerTag × ByteString × ByteString) := do
  let (tag, content, rest) ← readTagged bytes
  if content.length < 2 ^ 28 then some (byteTag tag, content, rest) else none

theorem documentDecodeTlv_append {tag : DerTag} {content encoded : ByteString}
    (hencoded : documentEncodeTlv tag content = some encoded) (rest : ByteString) :
    documentDecodeTlv (encoded ++ rest) = some (tag, content, rest) := by
  unfold documentEncodeTlv at hencoded
  split_ifs at hencoded with hlength
  obtain rfl := Option.some.inj hencoded
  have htag : byteTag (tagByte tag) = tag := by cases tag <;> rfl
  have hread := readTagged_tagged (tagByte tag)
    (hlength.trans (by norm_num) : content.length < 256 ^ 126) rest
  rw [documentDecodeTlv, hread, Option.bind_eq_bind, Option.bind_some]
  dsimp only
  rw [if_pos hlength, htag]

theorem exists_documentEncodeTlv {tag : DerTag} {content : ByteString}
    (hlength : content.length < 2 ^ 28) :
    ∃ encoded, documentEncodeTlv tag content = some encoded ∧
      encoded.length ≤ content.length + 6 := by
  have hwidth : (lengthBytes content.length).length ≤ 5 :=
    length_lengthBytes_le_succ (by decide) (hlength.trans (by decide) : _ < 256 ^ 4)
  refine ⟨_, if_pos hlength, ?_⟩
  rw [tagged, List.length_cons, List.length_append]
  omega

/-- The document of an ML-DSA-44 key with seed, expanded key and public key. -/
def bothInfo : PrivateKeyInfo where
  algorithm := MlDsaParameterSet.mlDsa44.algorithm
  privateKey := [0x30, 7, 0x04, 2, 1, 2, 0x04, 1, 3]
  publicKey := some ⟨0, [5]⟩

/-- The DER encoding of `bothInfo`: version two, the algorithm, the private key, the public key. -/
def bothDocument : ByteString :=
  [0x30, 31, 0x02, 1, 1, 0x30, 11, 0x06, 9, 0x60, 0x86, 0x48, 1, 0x65, 3, 4, 3, 17, 0x04, 9, 0x30, 7,
    0x04, 2, 1, 2, 0x04, 1, 3, 0x81, 2, 0, 5]

/-- The document of an information: DER for `bothInfo`, and codes for the others. -/
def documentEncodeInfo (info : PrivateKeyInfo) : Option ByteString :=
  some (if info = bothInfo then bothDocument else 0 :: encodeBytes info)

/-- The information of a document. -/
def documentDecodeInfo (bytes : ByteString) : Option PrivateKeyInfo :=
  if bytes = bothDocument then some bothInfo else decodeBytes PrivateKeyInfo bytes.tail

theorem documentDecodeInfo_documentEncodeInfo {info : PrivateKeyInfo} {encoded : ByteString}
    (hencoded : documentEncodeInfo info = some encoded) :
    documentDecodeInfo encoded = some info := by
  obtain rfl := Option.some.inj hencoded
  split_ifs with hinfo
  · rw [hinfo]
    exact if_pos rfl
  · have hother : 0 :: encodeBytes info ≠ bothDocument :=
      fun heq ↦ absurd (List.cons.inj heq).1 (by decide)
    rw [documentDecodeInfo, if_neg hother]
    exact decodeBytes_encodeBytes info

theorem exists_documentEncodeTlv_of_le (tag : DerTag) {content : ByteString}
    (hlength : content.length ≤ derLengthLimit) :
    ∃ encoded, documentEncodeTlv tag content = some encoded ∧
      encoded.length ≤ content.length + 6 :=
  exists_documentEncodeTlv (hlength.trans_lt (by decide))

/-- DER for tagged values. -/
def documentDer : DerLibrary where
  encodeTlv := documentEncodeTlv
  decodeTlv := documentDecodeTlv
  encodeInfo := documentEncodeInfo
  decodeInfo := documentDecodeInfo
  decodeTlv_append := documentDecodeTlv_append
  exists_encodeTlv := exists_documentEncodeTlv_of_le
  decodeInfo_encodeInfo := documentDecodeInfo_documentEncodeInfo
  exists_encodeInfo _ _ _ _ := ⟨_, rfl⟩

theorem strictDer_documentDer : StrictDer documentDer (2 ^ 28 - 1) where
  decodeTlv_eq_some {tag bytes content rest} htag hread := by
    obtain ⟨⟨byte, content', rest'⟩, hbyte, hread⟩ := Option.bind_eq_some_iff.mp hread
    dsimp only at hread
    split_ifs at hread with hlength
    obtain ⟨rfl, rfl, rfl⟩ := Option.some.inj hread
    have hself : tagByte (byteTag byte) = byte := by
      unfold byteTag at htag ⊢
      split_ifs at htag ⊢ with hcontext hoctet hsequence
      · exact hcontext.symm
      · exact hoctet.symm
      · exact hsequence.symm
      · exact absurd rfl htag
    refine ⟨_, ?_, readTagged_eq_some hbyte⟩
    change documentEncodeTlv (byteTag byte) content = _
    rw [documentEncodeTlv, if_pos hlength, hself]
  exists_encodeTlv _ hlength := exists_documentEncodeTlv (by omega)
  exists_encodeInfo _ _ := ⟨_, rfl⟩

/-- The document of seed, expanded key and public key is read back under ML-DSA-44 and refused
under ML-DSA-65. -/
theorem pkcs8Codec_roundTrips_both :
    encode documentDer MlDsaParameterSet.mlDsa44.algorithm (.both [1, 2] [3]) (some [5]) =
        some bothDocument ∧
      decode documentDer bothDocument MlDsaParameterSet.mlDsa44.algorithm =
        some ⟨.both [1, 2] [3], some [5]⟩ ∧
      decode documentDer bothDocument MlDsaParameterSet.mlDsa65.algorithm = none := by
  have hencoded : encode documentDer MlDsaParameterSet.mlDsa44.algorithm (.both [1, 2] [3])
      (some [5]) = some bothDocument := by decide
  have hinfo : documentDecodeInfo bothDocument = some bothInfo := if_pos rfl
  refine ⟨hencoded, ?_, ?_⟩
  · exact ((pkcs8Codec_roundTrips strictDer_documentDer _).1 rfl _ _).1 _ hencoded
  · exact (pkcs8Codec_roundTrips strictDer_documentDer _).2.1 bothDocument bothInfo hinfo
      (.otherOid (by decide))

end DocumentDer

end SoftwareKeyCore.PostQuantum
