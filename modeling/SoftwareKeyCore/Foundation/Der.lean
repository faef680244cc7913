import SoftwareKeyCore.Foundation.ByteString

/-!
# The DER library

The encodings a third-party DER library provides: a tagged value with its length, read from the
front of a byte string, and a PKCS #8 private key information. `DerLibrary` carries what the
formats built on it rely on: a value that is written is read back, with the bytes after it, and
values below the length limit are written.
-/

set_option autoImplicit false
set_option relaxedAutoImplicit false

namespace SoftwareKeyCore

/-- An object identifier, by its arcs. -/
abbrev ObjectIdentifier := List ℕ

/-- An algorithm identifier with the encoding of its parameters. -/
structure AlgorithmIdentifier where
  oid : ObjectIdentifier
  parameters : Option ByteString
  deriving DecidableEq, Repr

/-- The tags the code distinguishes; `context0` is the primitive context-specific tag zero. -/
inductive DerTag
  | context0
  | octetString
  | sequence
  | other
  deriving DecidableEq, Repr

/-- A bit string with the number of unused bits of its last byte. -/
structure BitString where
  unusedBits : ℕ
  bytes : ByteString
  deriving DecidableEq, Repr

/-- `BitStringRef::as_bytes`. -/
def BitString.asBytes (bits : BitString) : Option ByteString :=
  if bits.unusedBits = 0 then some bits.bytes else none

/-- `PrivateKeyInfoRef`. -/
structure PrivateKeyInfo where
  algorithm : AlgorithmIdentifier
  privateKey : ByteString
  publicKey : Option BitString
  deriving DecidableEq, Repr

/-- The longest content the laws of `DerLibrary` promise an encoding of. -/
def derLengthLimit : ℕ := 2 ^ 20

/-- The DER library. -/
structure DerLibrary where
  encodeTlv : DerTag → ByteString → Option ByteString
  decodeTlv : ByteString → Option (DerTag × ByteString × ByteString)
  encodeInfo : PrivateKeyInfo → Option ByteString
  decodeInfo : ByteString → Option PrivateKeyInfo
  decodeTlv_append : ∀ {tag content encoded}, encodeTlv tag content = some encoded →
    ∀ rest, decodeTlv (encoded ++ rest) = some (tag, content, rest)
  exists_encodeTlv : ∀ tag {content}, content.length ≤ derLengthLimit →
    ∃ encoded, encodeTlv tag content = some encoded ∧ encoded.length ≤ content.length + 6
  decodeInfo_encodeInfo : ∀ {info encoded}, encodeInfo info = some encoded →
    decodeInfo encoded = some info
  exists_encodeInfo : ∀ info, info.algorithm.parameters = none → info.publicKey = none →
    info.privateKey.length ≤ derLengthLimit → ∃ encoded, encodeInfo info = some encoded

end SoftwareKeyCore
