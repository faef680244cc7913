import SoftwareKeyCore.Foundation.Der

/-!
# Private key encodings of the post-quantum algorithms

`pqc_key_encoding.rs`: a private key is a seed, an expanded key, or both, encoded as a choice of
three inside a PKCS #8 private key information. All errors of the codec are one error for its
callers, so encoding and decoding answer options. `decode_encode` reads an encoding back.
-/

set_option autoImplicit false
set_option relaxedAutoImplicit false

namespace SoftwareKeyCore.PostQuantum

/-- `PrivateEncoding`. -/
inductive PrivateEncoding
  | seed (seed : ByteString)
  | expanded (expanded : ByteString)
  | both (seed expanded : ByteString)
  deriving DecidableEq, Repr

/-- `PrivateKey` of `pqc_key_encoding.rs`. -/
structure EncodedPrivateKey where
  encoding : PrivateEncoding
  publicKey : Option ByteString
  deriving DecidableEq, Repr

variable (der : DerLibrary)

/-- `<&OctetStringRef>::decode`, with the bytes after the value. -/
def decodeOctetString (bytes : ByteString) : Option (ByteString × ByteString) :=
  match der.decodeTlv bytes with
  | some (.octetString, content, rest) => some (content, rest)
  | _ => none

/-- The inner choice of `decode`, with the bytes after it. -/
def decodeChoice (bytes : ByteString) : Option (PrivateEncoding × ByteString) :=
  match der.decodeTlv bytes with
  | some (.context0, seed, rest) => some (.seed seed, rest)
  | some (.octetString, expanded, rest) => some (.expanded expanded, rest)
  | some (.sequence, content, rest) => do
    let (seed, inner) ← decodeOctetString der content
    let (expanded, inner) ← decodeOctetString der inner
    if inner = [] then some (.both seed expanded, rest) else none
  | _ => none

/-- `decode`. -/
def decode (encoded : ByteString) (algorithm : AlgorithmIdentifier) :
    Option EncodedPrivateKey := do
  let info ← der.decodeInfo encoded
  if info.algorithm.oid ≠ algorithm.oid ∨ info.algorithm.parameters.isSome then none
  else do
    let (encoding, rest) ← decodeChoice der info.privateKey
    if rest ≠ [] then none
    else
      match info.publicKey with
      | none => some { encoding := encoding, publicKey := none }
      | some bits =>
        bits.asBytes.map fun publicKey ↦ { encoding := encoding, publicKey := some publicKey }

/-- The inner choice of `encode`. -/
def encodeChoice : PrivateEncoding → Option ByteString
  | .seed seed => der.encodeTlv .context0 seed
  | .expanded expanded => der.encodeTlv .octetString expanded
  | .both seed expanded => do
    let content ← der.encodeTlv .octetString seed
    let encodedExpanded ← der.encodeTlv .octetString expanded
    der.encodeTlv .sequence (content ++ encodedExpanded)

/-- `encode`. -/
def encode (algorithm : AlgorithmIdentifier) (encoding : PrivateEncoding)
    (publicKey : Option ByteString) : Option ByteString := do
  let inner ← encodeChoice der encoding
  der.encodeInfo
    { algorithm := algorithm
      privateKey := inner
      publicKey := publicKey.map fun bytes ↦ { unusedBits := 0, bytes := bytes } }

/-! ### Reading an encoding back -/

variable {der}

theorem decodeOctetString_append {content encoded : ByteString}
    (hencoded : der.encodeTlv .octetString content = some encoded) (rest : ByteString) :
    decodeOctetString der (encoded ++ rest) = some (content, rest) := by
  rw [decodeOctetString, der.decodeTlv_append hencoded]

/-- An inner choice is read back, with the bytes after it. -/
theorem decodeChoice_append {encoding : PrivateEncoding} {inner : ByteString}
    (hinner : encodeChoice der encoding = some inner) (rest : ByteString) :
    decodeChoice der (inner ++ rest) = some (encoding, rest) := by
  cases encoding with
  | seed seed => rw [decodeChoice, der.decodeTlv_append hinner]
  | expanded expanded => rw [decodeChoice, der.decodeTlv_append hinner]
  | both seed expanded =>
    obtain ⟨content, hcontent, hrest⟩ := Option.bind_eq_some_iff.mp hinner
    obtain ⟨encodedExpanded, hexpanded, hsequence⟩ := Option.bind_eq_some_iff.mp hrest
    have hlast := decodeOctetString_append hexpanded []
    rw [List.append_nil] at hlast
    rw [decodeChoice, der.decodeTlv_append hsequence]
    dsimp only
    rw [decodeOctetString_append hcontent, Option.bind_eq_bind, Option.bind_some]
    dsimp only
    rw [hlast]
    rfl

/-- An inner choice alone is read back. -/
theorem decodeChoice_encodeChoice {encoding : PrivateEncoding} {inner : ByteString}
    (hinner : encodeChoice der encoding = some inner) :
    decodeChoice der inner = some (encoding, []) := by
  have hread := decodeChoice_append hinner []
  rwa [List.append_nil] at hread

/-- An encoded private key is read back under its algorithm. -/
theorem decode_encode {algorithm : AlgorithmIdentifier} {encoding : PrivateEncoding}
    {publicKey : Option ByteString} {encoded : ByteString}
    (halgorithm : algorithm.parameters = none)
    (hencoded : encode der algorithm encoding publicKey = some encoded) :
    decode der encoded algorithm = some { encoding := encoding, publicKey := publicKey } := by
  obtain ⟨inner, hinner, hinfo⟩ := Option.bind_eq_some_iff.mp hencoded
  have hchoice := decodeChoice_encodeChoice hinner
  unfold decode
  rw [der.decodeInfo_encodeInfo hinfo]
  change (if algorithm.oid ≠ algorithm.oid ∨ algorithm.parameters.isSome then none
    else decodeChoice der inner >>= _) = _
  rw [if_neg (by simp [halgorithm]), hchoice]
  cases publicKey with
  | none => rfl
  | some bytes => rfl

/-- A private key whose inner choice is below the length limit is encoded, and read back. -/
theorem exists_encode {algorithm : AlgorithmIdentifier} {encoding : PrivateEncoding} {tag : DerTag}
    {content : ByteString} (halgorithm : algorithm.parameters = none)
    (hchoice : encodeChoice der encoding = der.encodeTlv tag content)
    (hlength : content.length + 6 ≤ derLengthLimit) :
    ∃ encoded, encode der algorithm encoding none = some encoded ∧
      decode der encoded algorithm = some { encoding := encoding, publicKey := none } := by
  obtain ⟨inner, hinner, hbound⟩ :=
    der.exists_encodeTlv tag (by omega : content.length ≤ derLengthLimit)
  obtain ⟨encoded, hencoded⟩ := der.exists_encodeInfo ⟨algorithm, inner, none⟩ halgorithm rfl
    (hbound.trans hlength)
  have hdocument : encode der algorithm encoding none = some encoded :=
    Option.bind_eq_some_iff.mpr ⟨inner, hchoice.trans hinner, hencoded⟩
  exact ⟨encoded, hdocument, decode_encode halgorithm hdocument⟩

end SoftwareKeyCore.PostQuantum
