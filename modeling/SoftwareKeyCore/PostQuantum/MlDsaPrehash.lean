import SoftwareKeyCore.Digest
import SoftwareKeyCore.PostQuantum.MlDsaPrivateKey

/-!
# The message encoding of HashML-DSA

`post_quantum.rs`, `MlDsaPrehash`: the identifiers of the hash functions, the hash of a message with
its incremental state, and the encoding of a digest and a context that is signed in place of a message.
The hash functions are third-party code. An incremental state is the bytes that it was updated with.

An encoding has the length of the context in front of it and the identifier, which decides the length
of the digest, after it. `eq_of_encode` is that it can therefore only be taken apart in one way, and
`encode_injective_and_separated` adds what is accepted and that no encoding is one of pure ML-DSA.
-/

set_option autoImplicit false
set_option relaxedAutoImplicit false

namespace SoftwareKeyCore.PostQuantum

open ByteString FallibleResult

/-- The hash functions of the prehash, with the two extendable-output functions, which give as many
bytes as are read. -/
structure PrehashFunctions extends HashFunctions where
  shake128 : ByteString → (length : ℕ) → List.Vector UInt8 length
  shake256 : ByteString → (length : ℕ) → List.Vector UInt8 length

/-! ### Identifiers -/

/-- The identifiers that `MlDsaPrehash::from_id` accepts. -/
def IsPrehashId (id : UInt8) : Prop :=
  (1 ≤ id ∧ id ≤ 4) ∨ (7 ≤ id ∧ id ≤ 12)

instance decidableIsPrehashId (id : UInt8) : Decidable (IsPrehashId id) :=
  inferInstanceAs (Decidable (_ ∨ _))

/-- `MlDsaPrehash`: the last arc of the object identifier of a hash function. -/
structure MlDsaPrehash where
  id : UInt8
  isPrehashId : IsPrehashId id
  deriving DecidableEq

namespace MlDsaPrehash

/-- `MlDsaPrehash::from_id`. -/
def fromId (id : UInt8) : Option MlDsaPrehash :=
  if hid : IsPrehashId id then some ⟨id, hid⟩ else none

/-- `MlDsaPrehash::digest_length`. -/
def digestLength (prehash : MlDsaPrehash) : ℕ :=
  match prehash.id with
  | 4 | 7 => 28
  | 1 | 8 | 11 => 32
  | 2 | 9 => 48
  | _ => 64

end MlDsaPrehash

/-! ### The hash of a message -/

/-- `HashContext` of `digest.rs`: an algorithm and the bytes it was updated with. -/
structure HashContext where
  algorithm : HashAlgorithm
  absorbed : ByteString

namespace HashContext

/-- `HashContext::new`. -/
def new (algorithm : HashAlgorithm) : HashContext :=
  ⟨algorithm, []⟩

/-- `HashContext::update`. -/
def update (context : HashContext) (data : ByteString) : HashContext :=
  { context with absorbed := context.absorbed ++ data }

/-- `HashContext::finalize`. -/
def finalize (hashes : HashFunctions) (context : HashContext) : ByteString :=
  hashes.digest context.algorithm context.absorbed

end HashContext

/-- `MlDsaPrehashState`. -/
inductive MlDsaPrehashState
  | hash (context : HashContext)
  | shake128 (absorbed : ByteString)
  | shake256 (absorbed : ByteString)

/-- `MlDsaPrehashContext`. -/
structure MlDsaPrehashContext where
  hash : MlDsaPrehash
  state : MlDsaPrehashState

namespace MlDsaPrehashContext

/-- `MlDsaPrehashContext::update`. -/
def update (context : MlDsaPrehashContext) (message : ByteString) : MlDsaPrehashContext :=
  match context.state with
  | .hash hash => { context with state := .hash (hash.update message) }
  | .shake128 absorbed => { context with state := .shake128 (absorbed ++ message) }
  | .shake256 absorbed => { context with state := .shake256 (absorbed ++ message) }

/-- `MlDsaPrehashContext::finalize`. -/
def finalize (functions : PrehashFunctions) (context : MlDsaPrehashContext) : ByteString :=
  match context.state with
  | .hash hash => hash.finalize functions.toHashFunctions
  | .shake128 absorbed => (functions.shake128 absorbed context.hash.digestLength).toList
  | .shake256 absorbed => (functions.shake256 absorbed context.hash.digestLength).toList

end MlDsaPrehashContext

namespace MlDsaPrehash

/-- The algorithm of an identifier that is not one of an extendable-output function. -/
def algorithm (id : UInt8) : HashAlgorithm :=
  match id with
  | 1 => .sha256
  | 2 => .sha384
  | 3 => .sha512
  | 4 => .sha224
  | 7 => .sha3_224
  | 8 => .sha3_256
  | 9 => .sha3_384
  | _ => .sha3_512

/-- `MlDsaPrehash::context`. -/
def context (prehash : MlDsaPrehash) : MlDsaPrehashContext :=
  let state := match prehash.id with
    | 11 => .shake128 []
    | 12 => .shake256 []
    | id => .hash (HashContext.new (algorithm id))
  ⟨prehash, state⟩

/-- `MlDsaPrehash::digest`. -/
def digest (functions : PrehashFunctions) (prehash : MlDsaPrehash) (message : ByteString) :
    ByteString :=
  (prehash.context.update message).finalize functions

/-! ### The encoding -/

/-- The object identifier of a hash function, without its last arc. -/
def oidHeader : ByteString :=
  [0x06, 0x09, 0x60, 0x86, 0x48, 0x01, 0x65, 0x03, 0x04, 0x02]

/-- `MlDsaPrehash::encode`. -/
def encode (prehash : MlDsaPrehash) (digest context : ByteString) :
    Except MlDsaError ByteString :=
  if 255 < context.length then .error .invalidContext
  else if digest.length ≠ prehash.digestLength then .error .invalidSignature
  else .ok ([1, UInt8.ofNat context.length] ++ context ++ (oidHeader ++ [prehash.id]) ++ digest)

/-- What pure ML-DSA signs for a message and a context. -/
def pureInput (context message : ByteString) : ByteString :=
  [0, UInt8.ofNat context.length] ++ context ++ message

variable {prehash prehash' : MlDsaPrehash} {digest digest' context context' encoded : ByteString}

theorem fromId_eq_some_iff {id : UInt8} : fromId id = some prehash ↔ prehash.id = id := by
  unfold fromId
  split_ifs with hid
  · rw [Option.some.injEq]
    exact ⟨fun h ↦ h ▸ rfl, fun h ↦ by subst h; rfl⟩
  · refine iff_of_false (by simp) fun h ↦ hid (h ▸ prehash.isPrehashId)

/-- There are ten identifiers. -/
theorem isPrehashId_iff (id : UInt8) :
    IsPrehashId id ↔ id ∈ [1, 2, 3, 4, 7, 8, 9, 10, 11, 12] := by
  revert id
  decide +kernel

/-- The digest of every message has the digest length. -/
theorem length_digest (functions : PrehashFunctions) (prehash : MlDsaPrehash)
    (message : ByteString) : (prehash.digest functions message).length = prehash.digestLength := by
  obtain ⟨id, hid⟩ := prehash
  have hmem := (isPrehashId_iff id).mp hid
  simp only [List.mem_cons, List.not_mem_nil, or_false] at hmem
  rcases hmem with rfl | rfl | rfl | rfl | rfl | rfl | rfl | rfl | rfl | rfl
  case inr.inr.inr.inr.inr.inr.inr.inr.inl => exact (functions.shake128 _ _).toList_length
  case inr.inr.inr.inr.inr.inr.inr.inr.inr => exact (functions.shake256 _ _).toList_length
  all_goals exact functions.length_digest _ _

/-- What an encoding is made of. -/
theorem encode_eq_ok_iff :
    prehash.encode digest context = .ok encoded ↔
      context.length ≤ 255 ∧ digest.length = prehash.digestLength ∧
        [1, UInt8.ofNat context.length] ++ context ++ (oidHeader ++ [prehash.id]) ++ digest =
          encoded := by
  rw [encode, ite_error_eq_ok_iff, ite_error_eq_ok_iff, not_lt, not_not, Except.ok.injEq]

/-- An encoding can only be taken apart in one way. -/
theorem eq_of_encode (hencode : prehash.encode digest context = .ok encoded)
    (hencode' : prehash'.encode digest' context' = .ok encoded) :
    prehash = prehash' ∧ digest = digest' ∧ context = context' := by
  obtain ⟨hcontext, -, hencoded⟩ := encode_eq_ok_iff.mp hencode
  obtain ⟨hcontext', -, hencoded'⟩ := encode_eq_ok_iff.mp hencode'
  have hparts := hencoded.trans hencoded'.symm
  -- The fields are of known length one after the other, from the front.
  simp only [List.append_assoc] at hparts
  obtain ⟨hhead, hparts⟩ := List.append_inj hparts rfl
  have hbyte : UInt8.ofNat context.length = UInt8.ofNat context'.length :=
    (List.cons.inj (List.cons.inj hhead).2).1
  have hlength : context.length = context'.length := by
    have hvalue := congrArg UInt8.toNat hbyte
    rwa [UInt8.toNat_ofNat', UInt8.toNat_ofNat', Nat.mod_eq_of_lt (by omega),
      Nat.mod_eq_of_lt (by omega)] at hvalue
  obtain ⟨hcontexts, hparts⟩ := List.append_inj hparts hlength
  obtain ⟨-, hparts⟩ := List.append_inj hparts rfl
  obtain ⟨hid, hdigest⟩ := List.append_inj hparts rfl
  refine ⟨?_, hdigest, hcontexts⟩
  obtain ⟨id, _⟩ := prehash
  obtain ⟨id', _⟩ := prehash'
  obtain rfl : id = id' := (List.cons.inj hid).1
  rfl

/-- The first byte tells an encoding from an input of pure ML-DSA. -/
theorem encode_ne_pureInput (hencode : prehash.encode digest context = .ok encoded)
    (context' message : ByteString) : encoded ≠ pureInput context' message := by
  obtain ⟨-, -, rfl⟩ := encode_eq_ok_iff.mp hencode
  intro hequal
  have hbyte : (1 : UInt8) = 0 := (List.cons.inj hequal).1
  exact absurd hbyte (by decide)

/-- The encoding of HashML-DSA is injective in the hash function, the digest and the context. It is
made for contexts of up to 255 bytes and digests of the length that every digest of the hash function
has, and it is never an input of pure ML-DSA.

Assumes of the hash functions only the lengths of their digests: the encoding has the digest, not
the message. -/
theorem encode_injective_and_separated (functions : PrehashFunctions) :
    (∀ prehash prehash' digest digest' context context' encoded,
      encode prehash digest context = .ok encoded →
        encode prehash' digest' context' = .ok encoded →
          prehash = prehash' ∧ digest = digest' ∧ context = context') ∧
    (∀ prehash digest context, (∃ encoded, encode prehash digest context = .ok encoded) ↔
      context.length ≤ 255 ∧ digest.length = prehash.digestLength) ∧
    (∀ (prehash : MlDsaPrehash) message,
      (prehash.digest functions message).length = prehash.digestLength) ∧
    ∀ prehash digest context encoded, encode prehash digest context = .ok encoded →
      ∀ context' message, encoded ≠ pureInput context' message := by
  refine ⟨fun _ _ _ _ _ _ _ ↦ eq_of_encode, fun prehash digest context ↦ ?_,
    length_digest functions, fun _ _ _ _ ↦ encode_ne_pureInput⟩
  constructor
  · rintro ⟨encoded, hencode⟩
    obtain ⟨hcontext, hdigest, -⟩ := encode_eq_ok_iff.mp hencode
    exact ⟨hcontext, hdigest⟩
  · rintro ⟨hcontext, hdigest⟩
    exact ⟨_, encode_eq_ok_iff.mpr ⟨hcontext, hdigest, rfl⟩⟩

theorem length_zeroDigest (algorithm : HashAlgorithm) (_message : ByteString) :
    (List.replicate algorithm.outputLength (0 : UInt8)).length = algorithm.outputLength :=
  List.length_replicate

/-- Digests of zeros. -/
def zeroFunctions : PrehashFunctions where
  digest algorithm _ := List.replicate algorithm.outputLength 0
  length_digest := length_zeroDigest
  shake128 _ length := List.Vector.replicate length 0
  shake256 _ length := List.Vector.replicate length 0

/-- The identifier of SHA-256. -/
def sha256Prehash : MlDsaPrehash where
  id := 1
  isPrehashId := by decide

/-- The encoding of a digest of SHA-256 is not the input of pure ML-DSA with the same context and the
same bytes after it. -/
theorem encode_injective_and_separated_sha256 :
    [1, 1, 7] ++ (oidHeader ++ [1]) ++ List.replicate 32 0 ≠
      pureInput [7] (oidHeader ++ [1] ++ List.replicate 32 0) :=
  (encode_injective_and_separated zeroFunctions).2.2.2 sha256Prehash (List.replicate 32 0) [7] _ rfl
    [7] _

end MlDsaPrehash

end SoftwareKeyCore.PostQuantum
