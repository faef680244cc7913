import SoftwareKeyCore.P256
import SoftwareKeyCore.SecureChannel
import SoftwareKeyCore.SoftwareSigning.KeyIdentity

/-!
# Keys from a password

`secure_channel.rs`, `yubico_password_kdf` and `yubico_password_p256_key`. PBKDF2 with HMAC-SHA-256 is
third-party code. `Pbkdf2HmacSha256` is the HMAC rule for its keys over any function of the key that
the rule makes: a password of more than one hash block is hashed, and what is there is padded with
zeros to one block.

The candidates for the private key come from the password with a byte of a counter after it. By the
HMAC rule the first one is the symmetric key as long as the byte of zero goes where the rule pads with
zeros, which is up to a password of 63 bytes (`startsFromSymmetric`), and not from there on
(`not_startsFromSymmetric_block`).
-/

set_option autoImplicit false
set_option relaxedAutoImplicit false

namespace SoftwareKeyCore.SecureChannel

open ByteString FallibleResult SoftwareSigning

/-- PBKDF2 with HMAC-SHA-256: the hash, and what PBKDF2 computes from the padded key, the salt and the
number of rounds. -/
structure Pbkdf2HmacSha256 where
  sha256 : ByteString → List.Vector UInt8 32
  deriveFromBlock : List.Vector UInt8 64 → ByteString → ℕ → List.Vector UInt8 32

namespace Pbkdf2HmacSha256

variable (pbkdf2 : Pbkdf2HmacSha256)

/-- The key of HMAC-SHA-256: one hash block. -/
def paddedKey (password : ByteString) : List.Vector UInt8 64 :=
  let key := if 64 < password.length then (pbkdf2.sha256 password).toList else password
  ⟨resize key 64 0, length_resize key 64 0⟩

/-- `pbkdf2_hmac::<Sha256>`, with an output of 32 bytes. -/
def pbkdf2Hmac (password salt : ByteString) (rounds : ℕ) : List.Vector UInt8 32 :=
  pbkdf2.deriveFromBlock (pbkdf2.paddedKey password) salt rounds

end Pbkdf2HmacSha256

variable (libraries : KeyLibraries) (pbkdf2 : Pbkdf2HmacSha256)

/-- `yubico_password_kdf`. The salt is the text "Yubico". -/
def yubicoPasswordKdf (password : ByteString) : List.Vector UInt8 32 :=
  pbkdf2.pbkdf2Hmac password [0x59, 0x75, 0x62, 0x69, 0x63, 0x6f] 10000

/-- The loop of `yubico_password_p256_key` over its counters: the first candidate that is a private
key. -/
def firstP256Key (input : ByteString) :
    List ℕ → Except SecureChannelCryptoError (SoftwareSigningKey libraries)
  | [] => .error .keyDerivationFailed
  | counter :: counters =>
    let input := input.modifyLast fun _ ↦ UInt8.ofNat counter
    match SoftwareSigningKey.fromSerialized libraries .ecdsaP256Sha256
      (yubicoPasswordKdf pbkdf2 input).toList with
    | .ok key => .ok key
    | .error _ => firstP256Key input counters

/-- `yubico_password_p256_key`. -/
def yubicoPasswordP256Key (password : ByteString) :
    Except SecureChannelCryptoError (SoftwareSigningKey libraries) :=
  firstP256Key libraries pbkdf2 (password ++ [0]) (List.range 256)

/-! ### The HMAC rule -/

variable {pbkdf2} {password : ByteString}

/-- A zero after a password of less than one block is what the rule pads with. -/
theorem paddedKey_append_zero (hlength : password.length ≤ 63) :
    pbkdf2.paddedKey (password ++ [0]) = pbkdf2.paddedKey password := by
  have hextended : (password ++ [(0 : UInt8)]).length = password.length + 1 := by
    rw [List.length_append, List.length_singleton]
  have hzeros : List.replicate (64 - password.length) (0 : UInt8) =
      0 :: List.replicate (64 - (password.length + 1)) 0 := by
    rw [← List.replicate_succ]
    congr 1
    omega
  apply Subtype.ext
  unfold Pbkdf2HmacSha256.paddedKey
  dsimp only
  rw [if_neg (by omega), if_neg (by omega), resize_of_le (by omega), resize_of_le (by omega),
    hextended, hzeros, List.append_assoc, List.singleton_append]

theorem yubicoPasswordKdf_append_zero (hlength : password.length ≤ 63) :
    yubicoPasswordKdf pbkdf2 (password ++ [0]) = yubicoPasswordKdf pbkdf2 password := by
  unfold yubicoPasswordKdf Pbkdf2HmacSha256.pbkdf2Hmac
  rw [paddedKey_append_zero hlength]

/-! ### The first candidate -/

/-- A private scalar of P-256, in 32 bytes. -/
def IsP256Scalar (bytes : ByteString) : Prop :=
  bytes.length = 32 ∧ 0 < fromBeBytes bytes ∧ fromBeBytes bytes < p256Order

instance decidableIsP256Scalar (bytes : ByteString) : Decidable (IsP256Scalar bytes) :=
  inferInstanceAs (Decidable (_ ∧ _ ∧ _))

/-- What the codec of P-256 reads from 32 bytes: the private scalars, which it writes as they were
read. -/
structure ReadsP256Scalars (codec : PrivateKeyCodec) : Prop where
  isSome_fromSlice_iff : ∀ bytes : ByteString, bytes.length = 32 →
    ((codec.fromSlice bytes).isSome ↔ IsP256Scalar bytes)
  toBytes_eq : ∀ {bytes key}, bytes.length = 32 → codec.fromSlice bytes = some key →
    codec.toBytes key = bytes

variable {libraries}

/-- A first candidate that is a private scalar is the key. -/
theorem yubicoPasswordP256Key_of_isP256Scalar
    (hcodec : ReadsP256Scalars (libraries.ec .p256))
    (hscalar : IsP256Scalar (yubicoPasswordKdf pbkdf2 (password ++ [0])).toList) :
    ∃ key, yubicoPasswordP256Key libraries pbkdf2 password = .ok key ∧
      key.serialized = .ok (yubicoPasswordKdf pbkdf2 (password ++ [0])).toList := by
  obtain ⟨secret, hsecret⟩ :=
    Option.isSome_iff_exists.mp ((hcodec.isSome_fromSlice_iff _ hscalar.1).mpr hscalar)
  have hinput : (password ++ [(0 : UInt8)]).modifyLast (fun _ ↦ UInt8.ofNat 0) =
      password ++ [0] := List.modifyLast_concat _ _ _
  have hkey : SoftwareSigningKey.fromSerialized libraries .ecdsaP256Sha256
      (yubicoPasswordKdf pbkdf2 (password ++ [0])).toList = .ok (.ec ⟨.p256, secret⟩) := by
    change (SoftwareEcKey.fromSerialized libraries .p256 _).map SoftwareSigningKey.ec = _
    rw [SoftwareEcKey.fromSerialized, hsecret]
    rfl
  refine ⟨.ec ⟨.p256, secret⟩, ?_, ?_⟩
  · rw [yubicoPasswordP256Key, List.range_succ_eq_map, firstP256Key, hinput, hkey]
  · exact congrArg Except.ok (hcodec.toBytes_eq hscalar.1 hsecret)

/-- The asymmetric key of a password starts from its symmetric one: if that is a private scalar, it is
the private key. -/
def StartsFromSymmetric (libraries : KeyLibraries) (pbkdf2 : Pbkdf2HmacSha256)
    (password : ByteString) : Prop :=
  IsP256Scalar (yubicoPasswordKdf pbkdf2 password).toList →
    ∃ key, yubicoPasswordP256Key libraries pbkdf2 password = .ok key ∧
      key.serialized = .ok (yubicoPasswordKdf pbkdf2 password).toList

/-- The asymmetric key of a password of less than one hash block starts from its symmetric one.

Assumes that the codec of P-256 reads the scalars from one to the order less one
(`ReadsP256Scalars`), and nothing of PBKDF2. -/
theorem startsFromSymmetric (hcodec : ReadsP256Scalars (libraries.ec .p256))
    (hlength : password.length ≤ 63) : StartsFromSymmetric libraries pbkdf2 password := by
  intro hscalar
  rw [← yubicoPasswordKdf_append_zero hlength] at hscalar ⊢
  exact yubicoPasswordP256Key_of_isP256Scalar hcodec hscalar

/-! ### One block -/

/-- Secret keys that are their own encodings: the private scalars. -/
def scalarCodec : PrivateKeyCodec where
  SecretKey := {bytes : ByteString // IsP256Scalar bytes}
  fromSlice bytes := if hscalar : IsP256Scalar bytes then some ⟨bytes, hscalar⟩ else none
  toBytes := Subtype.val
  fromPkcs8Der bytes := if hscalar : IsP256Scalar bytes then some ⟨bytes, hscalar⟩ else none
  toPkcs8Der key := some key.val
  publicKey := Subtype.val
  fromSlice_toBytes key := dif_pos key.property
  exists_toPkcs8Der key := ⟨key.val, rfl, dif_pos key.property⟩

/-- Libraries with the private scalars of P-256. -/
def scalarLibraries : KeyLibraries :=
  { referenceLibraries with ec := fun _ ↦ scalarCodec }

theorem readsP256Scalars_scalarCodec : ReadsP256Scalars scalarCodec := by
  have hread : ∀ {bytes} (hscalar : IsP256Scalar bytes),
      scalarCodec.fromSlice bytes = some ⟨bytes, hscalar⟩ := fun hscalar ↦ dif_pos hscalar
  have hrefused : ∀ {bytes}, ¬ IsP256Scalar bytes → scalarCodec.fromSlice bytes = none :=
    fun hscalar ↦ dif_neg hscalar
  constructor
  · intro bytes _
    by_cases hscalar : IsP256Scalar bytes
    · rw [hread hscalar]
      exact iff_of_true rfl hscalar
    · rw [hrefused hscalar]
      exact iff_of_false Bool.false_ne_true hscalar
  · intro bytes key _ hkey
    by_cases hscalar : IsP256Scalar bytes
    · exact (congrArg Subtype.val (Option.some.inj ((hread hscalar).symm.trans hkey))).symm
    · rw [hrefused hscalar] at hkey
      exact absurd hkey.symm (Option.some_ne_none key)

theorem readsP256Scalars_scalarLibraries : ReadsP256Scalars (scalarLibraries.ec .p256) :=
  readsP256Scalars_scalarCodec

/-- A PBKDF2 that copies the start of the padded key, with a hash of twos. -/
def copyingPbkdf2 : Pbkdf2HmacSha256 where
  sha256 _ := List.Vector.replicate 32 2
  deriveFromBlock block _ _ := ⟨block.toList.take 32, by simp⟩

/-- The password "password". -/
theorem startsFromSymmetric_password :
    StartsFromSymmetric scalarLibraries copyingPbkdf2
      [0x70, 0x61, 0x73, 0x73, 0x77, 0x6f, 0x72, 0x64] :=
  startsFromSymmetric readsP256Scalars_scalarLibraries (by decide)

/-- A password of one hash block: the first candidate is hashed, and the symmetric key is not. -/
theorem not_startsFromSymmetric_block :
    ¬ StartsFromSymmetric scalarLibraries copyingPbkdf2 (List.replicate 64 1) := by
  intro hstarts
  obtain ⟨key, hkey, hserialized⟩ := hstarts (by decide +kernel)
  obtain ⟨key', hkey', hserialized'⟩ := yubicoPasswordP256Key_of_isP256Scalar
    readsP256Scalars_scalarLibraries
    (by decide +kernel : IsP256Scalar
      (yubicoPasswordKdf copyingPbkdf2 (List.replicate 64 1 ++ [0])).toList)
  rw [hkey, Except.ok.injEq] at hkey'
  rw [← hkey', hserialized, Except.ok.injEq] at hserialized'
  exact absurd hserialized' (by decide +kernel)

end SoftwareKeyCore.SecureChannel
