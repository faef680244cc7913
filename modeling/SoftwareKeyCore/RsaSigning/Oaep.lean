import SoftwareKeyCore.Foundation.FallibleResult
import SoftwareKeyCore.Foundation.PanickingResult
import SoftwareKeyCore.Digest

/-!
# RSAES-OAEP encoding and decoding

`rsa_signing.rs`, `rsa_oaep_pad_digest` and `rsa_oaep_unpad_digest`. The label is given by its
digest. The random source of the encoder is `getrandom::fill`: it fills a buffer of the length
it is asked for, or fails. Subtractions of `usize` values panic on underflow.

The decoder scans the data block after the label digest with constant-time selections.
`foldl_scanStep_eq_iff` says what the scan finds: it accepts a block exactly when the block is a run
of zeros, a one, and the plaintext, and then the separator is the position of that one.

The encoder computes its length bound with a saturating subtraction, and it extends or truncates
the label digest to the length of the data block before the separator. For a modulus of at least
`2 * hLen + 2` bytes the two agree with RFC 8017 (`answer_rsaOaepPadDigest_of_fits`), and the
decoder takes the encoding apart (`rsaOaepUnpadDigest_encoded`). For a shorter modulus the
saturated bound is zero, which the empty plaintext meets: the encoder then truncates the label
digest or panics (`answer_rsaOaepPadDigest_of_short`, `answer_rsaOaepPadDigest_of_panic`).
`oaepRoundTrips_iff` is the exact condition under which encoder and decoder agree. For itself the
decoder accepts exactly the encodings of RFC 8017 (`rsaOaepUnpadDigest_eq_ok_iff`).
-/

set_option autoImplicit false
set_option relaxedAutoImplicit false

namespace SoftwareKeyCore

/-- `RsaConstructionError`. -/
inductive RsaConstructionError
  | inputTooLong
  | inputOutOfRange
  | invalidDigestLength
  | invalidKey
  | invalidSignature
  | randomnessUnavailable
  | operationFailed
  deriving DecidableEq, Repr

/-- `getrandom::fill`: the bytes a buffer of a length is filled with, or a failure. -/
abbrev RandomFill := (length : ℕ) → Option (List.Vector UInt8 length)

namespace RsaSigning

open ByteString Digest Panicking

variable (hashes : HashFunctions)

/-- `mgf1` of `rsa_signing.rs`: the mask generation of `digest.rs` with its error mapped. -/
def mgf1 (seed : ByteString) (length : ℕ) (hash : HashAlgorithm) :
    Except RsaConstructionError ByteString :=
  (Digest.mgf1 hashes hash seed length).mapError fun _ ↦ .inputTooLong

/-! ### Decoding -/

/-- The registers of the scan of `rsa_oaep_unpad_digest` for the separator. -/
structure Scan where
  looking : Bool
  separator : ℕ
  valid : Bool
  deriving DecidableEq, Repr

/-- The body of the scan at a byte and its index. -/
def scanStep (scan : Scan) (entry : UInt8 × ℕ) : Scan :=
  let isZero := decide (entry.1 = 0)
  let isOne := decide (entry.1 = 1)
  { looking := scan.looking && !isOne
    separator := if scan.looking && isOne then entry.2 else scan.separator
    valid := scan.valid && !(scan.looking && !isZero && !isOne) }

/-- `rsa_oaep_unpad_digest`. -/
def rsaOaepUnpadDigest (encoded labelDigest : ByteString) (mgfHash : HashAlgorithm) :
    Except RsaConstructionError ByteString :=
  let hashLength := labelDigest.length
  if encoded.length < 2 * hashLength + 2 ∨ hashLength = 0 then .error .operationFailed
  else do
    let maskedSeed := (encoded.drop 1).take hashLength
    let maskedDb := (encoded.drop 1).drop hashLength
    let seedMask ← mgf1 hashes maskedDb hashLength mgfHash
    let seed := xorBytes maskedSeed seedMask
    let dbMask ← mgf1 hashes seed maskedDb.length mgfHash
    let db := xorBytes maskedDb dbMask
    let valid := decide (encoded.head? = some 0) && decide (db.take hashLength = labelDigest)
    let rest := db.drop hashLength
    let scan := rest.zipIdx.foldl scanStep { looking := true, separator := 0, valid := valid }
    if scan.valid && !scan.looking then .ok (rest.drop (scan.separator + 1))
    else .error .operationFailed

/-! ### Encoding -/

/-- `rsa_oaep_pad_digest`. -/
def rsaOaepPadDigest (fill : RandomFill) (input : ByteString) (modulusSize : ℕ)
    (labelDigest : ByteString) (mgfHash : HashAlgorithm) :
    Panicking RsaConstructionError ByteString :=
  let hashLength := labelDigest.length
  -- `saturating_sub` is the truncated subtraction of natural numbers.
  if hashLength = 0 ∨ modulusSize - (2 * hashLength + 2) < input.length then throw .inputTooLong
  else do
    let withoutDigest ← checkedSub modulusSize hashLength
    let withoutInput ← checkedSub withoutDigest input.length
    let separator ← checkedSub withoutInput 2
    let db := resize labelDigest separator 0 ++ [1] ++ input
    match fill hashLength with
    | none => throw .randomnessUnavailable
    | some seed =>
      let dbMask ← ofResult id (mgf1 hashes seed.toList db.length mgfHash)
      let db := xorInPlace db dbMask
      let seedMask ← ofResult id (mgf1 hashes db seed.toList.length mgfHash)
      let seed := xorInPlace seed.toList seedMask
      pure ([0] ++ seed ++ db)

/-! ### The scan -/

/-- Once the separator is found the scan changes nothing. -/
theorem foldl_scanStep_of_not_looking (entries : List (UInt8 × ℕ)) (separator : ℕ)
    (valid : Bool) :
    entries.foldl scanStep { looking := false, separator := separator, valid := valid } =
      { looking := false, separator := separator, valid := valid } := by
  induction entries with
  | nil => rfl
  | cons entry entries ih =>
    rw [List.foldl_cons, show scanStep { looking := false, separator, valid } entry =
      { looking := false, separator, valid } by simp [scanStep]]
    exact ih

/-- A byte that is not a separator ruins the block unless it is zero. -/
theorem scanStep_of_ne_one {byte : UInt8} (hbyte : byte ≠ 1) (index separator : ℕ)
    (valid : Bool) :
    scanStep { looking := true, separator := separator, valid := valid } (byte, index) =
      { looking := true, separator := separator, valid := valid && decide (byte = 0) } := by
  simp [scanStep, hbyte]

/-- A one is the separator. -/
theorem scanStep_one (index separator : ℕ) (valid : Bool) :
    scanStep { looking := true, separator := separator, valid := valid } (1, index) =
      { looking := false, separator := index, valid := valid } := by
  simp [scanStep]

/-- The scan of a block from an index on: it accepts exactly the blocks that are a run of zeros,
a one and the rest, and its separator is the index of the one. -/
theorem foldl_scanStep_eq_iff (block : ByteString) (start separator position : ℕ)
    (valid : Bool) :
    (block.zipIdx start).foldl scanStep
        { looking := true, separator := separator, valid := valid } =
      { looking := false, separator := position, valid := true } ↔
      valid = true ∧ ∃ zeros rest, block = List.replicate zeros 0 ++ 1 :: rest ∧
        position = start + zeros := by
  induction block generalizing start valid with
  | nil => simp
  | cons byte block ih =>
    rw [List.zipIdx_cons, List.foldl_cons]
    by_cases hone : byte = 1
    · subst hone
      rw [scanStep_one, foldl_scanStep_of_not_looking, Scan.mk.injEq]
      constructor
      · rintro ⟨-, rfl, hvalid⟩
        exact ⟨hvalid, 0, block, rfl, rfl⟩
      · rintro ⟨hvalid, zeros, rest, hblock, rfl⟩
        cases zeros with
        | zero => exact ⟨rfl, rfl, hvalid⟩
        | succ zeros =>
          rw [List.replicate_succ, List.cons_append] at hblock
          exact absurd (List.cons.inj hblock).1 (by decide)
    · rw [scanStep_of_ne_one hone, ih, Bool.and_eq_true, decide_eq_true_eq]
      constructor
      · rintro ⟨⟨hvalid, rfl⟩, zeros, rest, rfl, rfl⟩
        refine ⟨hvalid, zeros + 1, rest, ?_, by omega⟩
        rw [List.replicate_succ, List.cons_append]
      · rintro ⟨hvalid, zeros, rest, hblock, rfl⟩
        cases zeros with
        | zero => exact absurd (List.cons.inj hblock).1 hone
        | succ zeros =>
          rw [List.replicate_succ, List.cons_append] at hblock
          obtain ⟨rfl, rfl⟩ := List.cons.inj hblock
          exact ⟨⟨hvalid, rfl⟩, zeros, rest, rfl, by omega⟩

/-! ### What the encoder computes -/

/-- The data block of RFC 8017 for a modulus size: the label digest, zeros, a one and the
plaintext. -/
def dataBlock (labelDigest input : ByteString) (modulusSize : ℕ) : ByteString :=
  labelDigest ++ List.replicate (modulusSize - input.length - 2 * labelDigest.length - 2) 0 ++
    1 :: input

theorem length_dataBlock {labelDigest input : ByteString} {modulusSize : ℕ}
    (hfits : input.length + 2 * labelDigest.length + 2 ≤ modulusSize) :
    (dataBlock labelDigest input modulusSize).length = modulusSize - labelDigest.length - 1 := by
  simp only [dataBlock, List.length_append, List.length_replicate, List.length_cons]
  omega

/-- A mask of at most the limit exists and has the requested length. -/
theorem exists_mgf1 {length : ℕ} {hash : HashAlgorithm} (hlimit : WithinMgf1Limit hash length)
    (seed : ByteString) :
    ∃ mask, mgf1 hashes seed length hash = .ok mask ∧ mask.length = length := by
  have hmask := mgf1_eq_ok hashes hlimit seed
  refine ⟨_, ?_, length_mgf1 hashes hmask⟩
  rw [mgf1, hmask]
  rfl

/-- A seed mask is always within the limit. -/
theorem withinMgf1Limit_of_le {length : ℕ} (hash : HashAlgorithm) (hlength : length ≤ 64) :
    WithinMgf1Limit hash length := by
  have hhash := hash.le_outputLength
  unfold WithinMgf1Limit
  omega

/-- The encodings of RFC 8017 §7.1.1 of a message: a zero byte, the masked seed and the masked
data block, for some seed. -/
def IsOaepEncoding (labelDigest message : ByteString) (mgfHash : HashAlgorithm)
    (encoded : ByteString) : Prop :=
  ∃ seed dbMask seedMask maskedDb : ByteString, seed.length = labelDigest.length ∧
    mgf1 hashes seed (encoded.length - labelDigest.length - 1) mgfHash = .ok dbMask ∧
    maskedDb = xorBytes (dataBlock labelDigest message encoded.length) dbMask ∧
    mgf1 hashes maskedDb labelDigest.length mgfHash = .ok seedMask ∧
    encoded = [0] ++ xorBytes seed seedMask ++ maskedDb

/-- A mask that is answered is within the limit. -/
theorem withinMgf1Limit_of_mgf1_eq_ok {seed mask : ByteString} {length : ℕ} {hash : HashAlgorithm}
    (hmask : mgf1 hashes seed length hash = .ok mask) : WithinMgf1Limit hash length := by
  by_contra hlimit
  rw [mgf1, mgf1_eq_error hashes hlimit] at hmask
  exact absurd hmask (by simp [Except.mapError])

/-- The mask generation of `rsa_signing.rs` answers with a mask of the requested length. -/
theorem length_mgf1_eq {seed mask : ByteString} {length : ℕ} {hash : HashAlgorithm}
    (hmask : mgf1 hashes seed length hash = .ok mask) : mask.length = length := by
  obtain ⟨mask', hmask', hlength⟩ :=
    exists_mgf1 hashes (withinMgf1Limit_of_mgf1_eq_ok hashes hmask) seed
  obtain rfl := Except.ok.inj (hmask'.symm.trans hmask)
  exact hlength

/-- The decoder takes an encoding apart. Assumes: a nonempty label digest and a message that
fits the encoding. -/
theorem rsaOaepUnpadDigest_encoded {labelDigest message encoded : ByteString}
    {mgfHash : HashAlgorithm} (hlabel : labelDigest ≠ [])
    (hfits : message.length + 2 * labelDigest.length + 2 ≤ encoded.length)
    (hencoded : IsOaepEncoding hashes labelDigest message mgfHash encoded) :
    rsaOaepUnpadDigest hashes encoded labelDigest mgfHash = .ok message := by
  obtain ⟨seed, dbMask, seedMask, maskedDb, hseed, hdbMask, hmaskedDb, hseedMask, hsplit⟩ :=
    hencoded
  have hpositive : 0 < labelDigest.length := List.length_pos_iff.mpr hlabel
  have hdbMaskLength := length_mgf1_eq hashes hdbMask
  have hseedMaskLength := length_mgf1_eq hashes hseedMask
  have hdb := length_dataBlock hfits
  have hmaskedDbLength : maskedDb.length = encoded.length - labelDigest.length - 1 := by
    rw [hmaskedDb, length_xorBytes, hdb, hdbMaskLength, min_self]
  have hmaskedSeedLength : (xorBytes seed seedMask).length = labelDigest.length := by
    rw [length_xorBytes, hseed, hseedMaskLength, min_self]
  have hdrop : encoded.drop 1 = xorBytes seed seedMask ++ maskedDb := by
    rw [hsplit, List.append_assoc]
    rfl
  have hhead : encoded.head? = some 0 := by
    rw [hsplit]
    rfl
  have hseedBack : xorBytes (xorBytes seed seedMask) seedMask = seed :=
    xorBytes_cancel_right (by omega)
  have hdbBack : xorBytes maskedDb dbMask = dataBlock labelDigest message encoded.length := by
    rw [hmaskedDb]
    exact xorBytes_cancel_right (by omega)
  have hlabelBack : (dataBlock labelDigest message encoded.length).take labelDigest.length =
      labelDigest := by
    rw [dataBlock, List.append_assoc, List.take_left]
  have hrest : (dataBlock labelDigest message encoded.length).drop labelDigest.length =
      List.replicate (encoded.length - message.length - 2 * labelDigest.length - 2) 0 ++
        1 :: message := by
    rw [dataBlock, List.append_assoc, List.drop_left]
  have hscan := (foldl_scanStep_eq_iff
    ((dataBlock labelDigest message encoded.length).drop labelDigest.length) 0 0 _ true).mpr
      ⟨rfl, _, _, hrest, (Nat.zero_add _).symm⟩
  unfold rsaOaepUnpadDigest
  simp only [hdrop, hhead, List.take_left' hmaskedSeedLength, List.drop_left' hmaskedSeedLength,
    hseedMask, hseedBack, hmaskedDbLength, hdbMask, hdbBack, hlabelBack, decide_true,
    Bool.and_self, hscan, bind, Except.bind]
  rw [if_neg (by omega), if_pos (by rfl), hrest, ← List.drop_drop,
    List.drop_left' List.length_replicate]
  rfl

/-- What the decoder answers is the message of an encoding, which fits the modulus. -/
theorem isOaepEncoding_of_rsaOaepUnpadDigest {labelDigest message encoded : ByteString}
    {mgfHash : HashAlgorithm}
    (haccepted : rsaOaepUnpadDigest hashes encoded labelDigest mgfHash = .ok message) :
    labelDigest ≠ [] ∧ message.length + 2 * labelDigest.length + 2 ≤ encoded.length ∧
      IsOaepEncoding hashes labelDigest message mgfHash encoded := by
  obtain ⟨hshape, hmasks⟩ := FallibleResult.ite_error_eq_ok_iff.mp haccepted
  rw [not_or, not_lt] at hshape
  obtain ⟨seedMask, hseedMask, hmasks⟩ := FallibleResult.bind_eq_ok_iff.mp hmasks
  obtain ⟨dbMask, hdbMask, hscanned⟩ := FallibleResult.bind_eq_ok_iff.mp hmasks
  clear hmasks haccepted
  have hseedMaskLength := length_mgf1_eq hashes hseedMask
  have hdbMaskLength := length_mgf1_eq hashes hdbMask
  obtain ⟨hlabel, first, rest, rfl⟩ : labelDigest ≠ [] ∧ ∃ first rest, encoded = first :: rest := by
    refine ⟨List.length_pos_iff.mp (by omega), ?_⟩
    exact List.exists_cons_of_length_pos (by omega)
  rw [List.length_cons] at hshape
  simp only [List.drop_one, List.tail_cons, List.head?_cons, Option.some.injEq]
    at hscanned hseedMask hdbMask hdbMaskLength
  have hmaskedSeed : (rest.take labelDigest.length).length = labelDigest.length := by
    rw [List.length_take]
    omega
  have hmaskedDb : (rest.drop labelDigest.length).length = rest.length - labelDigest.length :=
    List.length_drop
  generalize hdb : xorBytes (rest.drop labelDigest.length) dbMask = db at hscanned
  have hdbLength : db.length = rest.length - labelDigest.length := by
    rw [← hdb, length_xorBytes, hdbMaskLength, min_self, hmaskedDb]
  generalize hscan : (db.drop labelDigest.length).zipIdx.foldl scanStep _ = scan at hscanned
  obtain ⟨looking, separator, valid⟩ := scan
  split_ifs at hscanned with hvalid
  dsimp only at hvalid hscanned
  rw [Bool.and_eq_true, Bool.not_eq_true'] at hvalid
  obtain ⟨rfl, rfl⟩ := hvalid
  obtain ⟨hchecked, zeros, tail, hblock, hseparator⟩ := (foldl_scanStep_eq_iff _ 0 0 _ _).mp hscan
  rw [Bool.and_eq_true, decide_eq_true_eq, decide_eq_true_eq] at hchecked
  obtain ⟨rfl, hhead⟩ := hchecked
  have hmessage : message = tail := by
    rw [← Except.ok.inj hscanned, hseparator, hblock, zero_add, ← List.drop_drop,
      List.drop_left' List.length_replicate]
    rfl
  subst hmessage
  have hsplit : db = labelDigest ++ List.replicate zeros 0 ++ 1 :: message := by
    rw [← List.take_append_drop labelDigest.length db, hblock, hhead, List.append_assoc]
  have hlengths : db.length = labelDigest.length + zeros + message.length + 1 := by
    rw [hsplit]
    simp only [List.length_append, List.length_replicate, List.length_cons]
    omega
  have hzeros : zeros = (0 :: rest).length - message.length - 2 * labelDigest.length - 2 := by
    rw [List.length_cons]
    omega
  refine ⟨hlabel, by rw [List.length_cons]; omega, xorBytes (rest.take labelDigest.length) seedMask,
    dbMask, seedMask, rest.drop labelDigest.length, ?_, ?_, ?_, hseedMask, ?_⟩
  · rw [length_xorBytes, hmaskedSeed, hseedMaskLength, min_self]
  · have hlength : (0 :: rest).length - labelDigest.length - 1 =
        (rest.drop labelDigest.length).length := by
      rw [List.length_cons, hmaskedDb]
      omega
    rw [hlength]
    exact hdbMask
  · rw [dataBlock, ← hzeros, ← hsplit, ← hdb]
    exact (xorBytes_cancel_right (by omega)).symm
  · rw [xorBytes_cancel_right (by omega), List.append_assoc, List.take_append_drop]
    rfl

/-- The byte string is an encoding of the message by RFC 8017, whose data block the message fits. -/
structure Encodes (labelDigest message : ByteString) (mgfHash : HashAlgorithm)
    (encoded : ByteString) : Prop where
  room : 2 * labelDigest.length + 2 ≤ encoded.length
  fits : message.length ≤ encoded.length - (2 * labelDigest.length + 2)
  encoding : IsOaepEncoding hashes labelDigest message mgfHash encoded

/-- The decoder answers exactly the messages that the byte string encodes, of which there is at
most one.

Assumes that the label digest is not empty, and of the hash functions only the lengths of their
digests. -/
theorem rsaOaepUnpadDigest_eq_ok_iff (hashes : HashFunctions) (encoded labelDigest : ByteString)
    (mgfHash : HashAlgorithm) (hlabel : labelDigest ≠ []) :
    (∀ message, rsaOaepUnpadDigest hashes encoded labelDigest mgfHash = .ok message ↔
      Encodes hashes labelDigest message mgfHash encoded) ∧
    ∀ message message', Encodes hashes labelDigest message mgfHash encoded →
      Encodes hashes labelDigest message' mgfHash encoded → message = message' := by
  have hdecoded : ∀ message, Encodes hashes labelDigest message mgfHash encoded →
      rsaOaepUnpadDigest hashes encoded labelDigest mgfHash = .ok message := by
    intro message hencoded
    have hroom := hencoded.room
    have hfits := hencoded.fits
    exact rsaOaepUnpadDigest_encoded hashes hlabel (by omega) hencoded.encoding
  refine ⟨fun message ↦ ⟨?_, hdecoded message⟩, ?_⟩
  · intro haccepted
    obtain ⟨-, hfits, hencoded⟩ := isOaepEncoding_of_rsaOaepUnpadDigest hashes haccepted
    exact ⟨by omega, by omega, hencoded⟩
  · intro message message' hencoded hencoded'
    have haccepted := hdecoded message hencoded
    rw [hdecoded message' hencoded'] at haccepted
    exact (Except.ok.inj haccepted).symm

/-- Hash functions whose digests are zero. -/
def zeroHashes : HashFunctions where
  digest algorithm _ := List.replicate algorithm.outputLength 0
  length_digest _ _ := List.length_replicate

/-- Zero masks leave an encoding as it is. -/
theorem rsaOaepUnpadDigest_eq_ok_iff_zeroHashes :
    Encodes zeroHashes (List.replicate 32 0) [7] .sha256 (List.replicate 65 0 ++ [1, 7]) :=
  ((rsaOaepUnpadDigest_eq_ok_iff zeroHashes (List.replicate 65 0 ++ [1, 7]) (List.replicate 32 0)
    .sha256 (by decide)).1 [7]).mp (by decide +kernel)

/-- The random source that fills a buffer of the length of `seed` with `seed`. -/
def seedFill {length : ℕ} (seed : List.Vector UInt8 length) : RandomFill := fun requested ↦
  if h : requested = length then some (h ▸ seed) else none

theorem seedFill_self {length : ℕ} (seed : List.Vector UInt8 length) :
    seedFill seed length = some seed := by
  rw [seedFill, dif_pos rfl]

section Encoder

variable {fill : RandomFill} {input labelDigest : ByteString} {modulusSize : ℕ}
  (mgfHash : HashAlgorithm) {seed : List.Vector UInt8 labelDigest.length}

variable (fill) in
/-- A plaintext above the saturated bound is refused. -/
theorem answer_rsaOaepPadDigest_of_long
    (hlong : modulusSize - (2 * labelDigest.length + 2) < input.length) :
    answer (rsaOaepPadDigest hashes fill input modulusSize labelDigest mgfHash) =
      some (.error .inputTooLong) := by
  unfold rsaOaepPadDigest
  rw [if_pos (Or.inr hlong)]
  rfl

/-- A modulus too short for the label digest and the two fixed bytes panics. -/
theorem answer_rsaOaepPadDigest_of_panic (hlabel : labelDigest ≠ [])
    (hshort : modulusSize < labelDigest.length + 2) :
    answer (rsaOaepPadDigest hashes fill [] modulusSize labelDigest mgfHash) = none := by
  have hpositive : 0 < labelDigest.length := List.length_pos_iff.mpr hlabel
  unfold rsaOaepPadDigest
  dsimp only
  rw [if_neg (by simp only [List.length_nil]; omega)]
  by_cases hdigest : labelDigest.length ≤ modulusSize
  · have hinput : ([] : ByteString).length ≤ modulusSize - labelDigest.length := Nat.zero_le _
    have hseparator : modulusSize - labelDigest.length - ([] : ByteString).length < 2 := by
      rw [List.length_nil]
      omega
    rw [answer_bind_of_ok (answer_checkedSub_of_le hdigest),
      answer_bind_of_ok (answer_checkedSub_of_le hinput),
      answer_bind_of_panic (answer_checkedSub_of_lt hseparator)]
  · rw [answer_bind_of_panic (answer_checkedSub_of_lt (not_le.mp hdigest))]

/-- What the encoder computes when no subtraction underflows and the random source answers. -/
theorem answer_rsaOaepPadDigest_of_seed (hlabel : labelDigest ≠ [])
    (hfill : fill labelDigest.length = some seed)
    (hbound : input.length ≤ modulusSize - (2 * labelDigest.length + 2))
    (hroom : labelDigest.length + input.length + 2 ≤ modulusSize) :
    let db := resize labelDigest (modulusSize - labelDigest.length - input.length - 2) 0 ++ [1] ++
      input
    answer (rsaOaepPadDigest hashes fill input modulusSize labelDigest mgfHash) =
      match mgf1 hashes seed.toList db.length mgfHash with
      | .error error => some (.error error)
      | .ok dbMask =>
        match mgf1 hashes (xorInPlace db dbMask) labelDigest.length mgfHash with
        | .error error => some (.error error)
        | .ok seedMask =>
          some (.ok ([0] ++ xorInPlace seed.toList seedMask ++ xorInPlace db dbMask)) := by
  have hpositive : 0 < labelDigest.length := List.length_pos_iff.mpr hlabel
  intro db
  unfold rsaOaepPadDigest
  dsimp only
  rw [if_neg (by omega), answer_bind_of_ok (answer_checkedSub_of_le (by omega)),
    answer_bind_of_ok (answer_checkedSub_of_le (by omega)),
    answer_bind_of_ok (answer_checkedSub_of_le (by omega)), hfill]
  dsimp only
  rw [answer_bind, answer_ofResult]
  cases hdbMask : mgf1 hashes seed.toList db.length mgfHash with
  | error error => rfl
  | ok dbMask =>
    dsimp only [Except.mapError]
    rw [answer_bind, answer_ofResult, List.Vector.toList_length]
    cases hseedMask : mgf1 hashes (xorInPlace db dbMask) labelDigest.length mgfHash with
    | error error => rfl
    | ok seedMask => rfl

/-- Within the limits of RFC 8017 and MGF1 the encoder answers with an encoding of the message
as long as the modulus. -/
theorem answer_rsaOaepPadDigest_of_fits (hlabel : labelDigest ≠ [])
    (hlabelLength : labelDigest.length ≤ 64) (hfill : fill labelDigest.length = some seed)
    (hfits : input.length + 2 * labelDigest.length + 2 ≤ modulusSize)
    (hlimit : WithinMgf1Limit mgfHash (modulusSize - labelDigest.length - 1)) :
    ∃ encoded, answer (rsaOaepPadDigest hashes fill input modulusSize labelDigest mgfHash) =
        some (.ok encoded) ∧
      encoded.length = modulusSize ∧
      IsOaepEncoding hashes labelDigest input mgfHash encoded := by
  have hseed : seed.toList.length = labelDigest.length := seed.toList_length
  have hdb : resize labelDigest (modulusSize - labelDigest.length - input.length - 2) 0 ++ [1] ++
      input = dataBlock labelDigest input modulusSize := by
    have hzeros : modulusSize - labelDigest.length - input.length - 2 - labelDigest.length =
        modulusSize - input.length - 2 * labelDigest.length - 2 := by omega
    rw [resize_of_le (by omega), hzeros, dataBlock, List.append_assoc _ [1] input,
      List.singleton_append]
  have hdbLength := length_dataBlock hfits
  obtain ⟨dbMask, hdbMask, hdbMaskLength⟩ := exists_mgf1 hashes hlimit seed.toList
  have hmasked : xorInPlace (dataBlock labelDigest input modulusSize) dbMask =
      xorBytes (dataBlock labelDigest input modulusSize) dbMask := xorInPlace_eq (by omega)
  obtain ⟨seedMask, hseedMask, hseedMaskLength⟩ := exists_mgf1 hashes
    (withinMgf1Limit_of_le mgfHash hlabelLength)
    (xorBytes (dataBlock labelDigest input modulusSize) dbMask)
  have hanswer := answer_rsaOaepPadDigest_of_seed hashes mgfHash hlabel hfill
    (by omega : input.length ≤ modulusSize - (2 * labelDigest.length + 2)) (by omega)
  dsimp only at hanswer
  rw [hdb, hdbLength, hdbMask] at hanswer
  dsimp only at hanswer
  rw [hmasked, hseedMask] at hanswer
  dsimp only at hanswer
  rw [xorInPlace_eq (by omega)] at hanswer
  have hlength : ([0] ++ xorBytes seed.toList seedMask ++
      xorBytes (dataBlock labelDigest input modulusSize) dbMask).length = modulusSize := by
    simp only [List.length_append, List.length_singleton, length_xorBytes, hseed,
      hseedMaskLength, hdbLength, hdbMaskLength]
    omega
  refine ⟨_, hanswer, hlength, seed.toList, dbMask, seedMask, _, hseed, ?_, ?_, hseedMask, rfl⟩
  · rw [hlength]
    exact hdbMask
  · rw [hlength]

/-- Past the limit of MGF1 the encoder refuses a message that fits the modulus. -/
theorem answer_rsaOaepPadDigest_of_not_withinMgf1Limit (hlabel : labelDigest ≠ [])
    (hfill : fill labelDigest.length = some seed)
    (hfits : input.length + 2 * labelDigest.length + 2 ≤ modulusSize)
    (hlimit : ¬ WithinMgf1Limit mgfHash (modulusSize - labelDigest.length - 1)) :
    answer (rsaOaepPadDigest hashes fill input modulusSize labelDigest mgfHash) =
      some (.error .inputTooLong) := by
  have hdb : (resize labelDigest (modulusSize - labelDigest.length - input.length - 2) 0 ++ [1] ++
      input).length = modulusSize - labelDigest.length - 1 := by
    simp only [List.length_append, length_resize, List.length_singleton]
    omega
  rw [answer_rsaOaepPadDigest_of_seed hashes mgfHash hlabel hfill (by omega) (by omega), hdb, mgf1,
    mgf1_eq_error hashes hlimit]
  rfl

/-- The empty plaintext under a modulus between the two bounds: the encoder truncates the label
digest and answers, and the decoder refuses what it answers. -/
theorem answer_rsaOaepPadDigest_of_short (hlabel : labelDigest ≠ [])
    (hlabelLength : labelDigest.length ≤ 64) (hfill : fill labelDigest.length = some seed)
    (hroom : labelDigest.length + 2 ≤ modulusSize)
    (hshort : modulusSize < 2 * labelDigest.length + 2) :
    ∃ encoded, answer (rsaOaepPadDigest hashes fill [] modulusSize labelDigest mgfHash) =
        some (.ok encoded) ∧
      encoded.length = modulusSize ∧
      rsaOaepUnpadDigest hashes encoded labelDigest mgfHash = .error .operationFailed := by
  have hseed : seed.toList.length = labelDigest.length := seed.toList_length
  generalize hdb : resize labelDigest
    (modulusSize - labelDigest.length - ([] : ByteString).length - 2) 0 ++ [1] ++ [] = db
  have hdbLength : db.length = modulusSize - labelDigest.length - 1 := by
    rw [← hdb]
    simp only [List.length_append, length_resize, List.length_singleton, List.length_nil]
    omega
  obtain ⟨dbMask, hdbMask, hdbMaskLength⟩ := exists_mgf1 hashes
    (withinMgf1Limit_of_le mgfHash (by omega : db.length ≤ 64)) seed.toList
  obtain ⟨seedMask, hseedMask, hseedMaskLength⟩ := exists_mgf1 hashes
    (withinMgf1Limit_of_le mgfHash hlabelLength) (xorInPlace db dbMask)
  have hbound : ([] : ByteString).length ≤ modulusSize - (2 * labelDigest.length + 2) :=
    Nat.zero_le _
  have hroom' : labelDigest.length + ([] : ByteString).length + 2 ≤ modulusSize := hroom
  have hanswer := answer_rsaOaepPadDigest_of_seed hashes mgfHash hlabel hfill hbound hroom'
  dsimp only at hanswer
  rw [hdb, hdbMask] at hanswer
  dsimp only at hanswer
  rw [hseedMask] at hanswer
  dsimp only at hanswer
  have hlength : ([0] ++ xorInPlace seed.toList seedMask ++ xorInPlace db dbMask).length =
      modulusSize := by
    rw [xorInPlace_eq (by omega), xorInPlace_eq (by omega)]
    simp only [List.length_append, List.length_singleton, length_xorBytes, hseed,
      hseedMaskLength, hdbLength, hdbMaskLength]
    omega
  refine ⟨_, hanswer, hlength, ?_⟩
  unfold rsaOaepUnpadDigest
  rw [hlength]
  exact if_pos (Or.inl hshort)

end Encoder

/-! ### Agreement -/

/-- Encoder and decoder agree on a call of the encoder: it refuses exactly the plaintexts above
the bound of RFC 8017 over the integers, it answers the others with an encoding as long as the
modulus that carries the complete label digest, and the decoder opens whatever it answers. -/
structure OaepRoundTrips (fill : RandomFill) (input : ByteString) (modulusSize : ℕ)
    (labelDigest : ByteString) (mgfHash : HashAlgorithm) : Prop where
  refuses_iff : (∃ error, answer (rsaOaepPadDigest hashes fill input modulusSize labelDigest
      mgfHash) = some (.error error)) ↔
    (modulusSize : ℤ) - 2 * labelDigest.length - 2 < input.length
  encodes : (input.length : ℤ) ≤ modulusSize - 2 * labelDigest.length - 2 →
    ∃ encoded, answer (rsaOaepPadDigest hashes fill input modulusSize labelDigest mgfHash) =
        some (.ok encoded) ∧
      encoded.length = modulusSize ∧ IsOaepEncoding hashes labelDigest input mgfHash encoded
  opens : ∀ encoded, answer (rsaOaepPadDigest hashes fill input modulusSize labelDigest mgfHash) =
      some (.ok encoded) →
    rsaOaepUnpadDigest hashes encoded labelDigest mgfHash = .ok input

section Agreement

variable {fill : RandomFill} {input labelDigest : ByteString} {modulusSize : ℕ}
  {mgfHash : HashAlgorithm} {seed : List.Vector UInt8 labelDigest.length}

/-- Agreement on a refused plaintext. -/
theorem oaepRoundTrips_of_long (hsaturated : modulusSize - (2 * labelDigest.length + 2) <
      input.length) (hlong : modulusSize < input.length + 2 * labelDigest.length + 2) :
    OaepRoundTrips hashes fill input modulusSize labelDigest mgfHash := by
  have hanswer := answer_rsaOaepPadDigest_of_long hashes fill mgfHash hsaturated
  refine ⟨⟨fun _ ↦ by omega, fun _ ↦ ⟨_, hanswer⟩⟩, fun hfits ↦ absurd hfits (by omega), ?_⟩
  intro encoded hencoded
  rw [hanswer] at hencoded
  exact absurd hencoded (by simp)

/-- Agreement on a plaintext within the limits. -/
theorem oaepRoundTrips_of_fits (hlabel : labelDigest ≠ []) (hlabelLength : labelDigest.length ≤ 64)
    (hfill : fill labelDigest.length = some seed)
    (hfits : input.length + 2 * labelDigest.length + 2 ≤ modulusSize)
    (hlimit : WithinMgf1Limit mgfHash (modulusSize - labelDigest.length - 1)) :
    OaepRoundTrips hashes fill input modulusSize labelDigest mgfHash := by
  obtain ⟨encoded, hanswer, hlength, hencoding⟩ :=
    answer_rsaOaepPadDigest_of_fits hashes mgfHash hlabel hlabelLength hfill hfits hlimit
  refine ⟨⟨?_, fun hlong ↦ absurd hlong (by omega)⟩, fun _ ↦ ⟨encoded, hanswer, hlength,
    hencoding⟩, ?_⟩
  · rintro ⟨error, herror⟩
    rw [hanswer] at herror
    exact absurd herror (by simp)
  · intro encoded' hencoded'
    rw [hanswer] at hencoded'
    obtain rfl := Except.ok.inj (Option.some.inj hencoded')
    exact rsaOaepUnpadDigest_encoded hashes hlabel (by omega) hencoding

/-- No agreement on the empty plaintext under a modulus below the bound of RFC 8017. -/
theorem not_oaepRoundTrips_of_short (hlabel : labelDigest ≠ [])
    (hlabelLength : labelDigest.length ≤ 64) (hfill : fill labelDigest.length = some seed)
    (hshort : modulusSize < 2 * labelDigest.length + 2) :
    ¬ OaepRoundTrips hashes fill [] modulusSize labelDigest mgfHash := by
  intro hround
  obtain ⟨error, herror⟩ := hround.refuses_iff.mpr (by rw [List.length_nil]; omega)
  by_cases hroom : labelDigest.length + 2 ≤ modulusSize
  · obtain ⟨encoded, hanswer, -⟩ :=
      answer_rsaOaepPadDigest_of_short hashes mgfHash hlabel hlabelLength hfill hroom hshort
    rw [hanswer] at herror
    exact absurd herror (by simp)
  · rw [answer_rsaOaepPadDigest_of_panic hashes mgfHash hlabel (not_le.mp hroom)] at herror
    exact absurd herror (by simp)

/-- No agreement on a plaintext that fits a modulus past the limit of MGF1. -/
theorem not_oaepRoundTrips_of_not_withinMgf1Limit (hlabel : labelDigest ≠ [])
    (hfill : fill labelDigest.length = some seed)
    (hfits : input.length + 2 * labelDigest.length + 2 ≤ modulusSize)
    (hlimit : ¬ WithinMgf1Limit mgfHash (modulusSize - labelDigest.length - 1)) :
    ¬ OaepRoundTrips hashes fill input modulusSize labelDigest mgfHash := by
  intro hround
  have hrefused := hround.refuses_iff.mp ⟨_, answer_rsaOaepPadDigest_of_not_withinMgf1Limit hashes
    mgfHash hlabel hfill hfits hlimit⟩
  omega

/-- Agreement for a label digest of at most 64 bytes and a random source that answers. -/
theorem oaepRoundTrips_iff_of_fill (hlabel : labelDigest ≠ [])
    (hlabelLength : labelDigest.length ≤ 64) (hfill : fill labelDigest.length = some seed) :
    OaepRoundTrips hashes fill input modulusSize labelDigest mgfHash ↔
      (input ≠ [] ∨ 2 * labelDigest.length + 2 ≤ modulusSize) ∧
        (input.length + 2 * labelDigest.length + 2 ≤ modulusSize →
          WithinMgf1Limit mgfHash (modulusSize - labelDigest.length - 1)) := by
  constructor
  · intro hround
    refine ⟨?_, fun hfits ↦ ?_⟩
    · by_contra hcondition
      push Not at hcondition
      obtain ⟨rfl, hshort⟩ := hcondition
      exact not_oaepRoundTrips_of_short hashes hlabel hlabelLength hfill hshort hround
    · by_contra hlimit
      exact not_oaepRoundTrips_of_not_withinMgf1Limit hashes hlabel hfill hfits hlimit hround
  · rintro ⟨hinput, hlimit⟩
    by_cases hfits : input.length + 2 * labelDigest.length + 2 ≤ modulusSize
    · exact oaepRoundTrips_of_fits hashes hlabel hlabelLength hfill hfits (hlimit hfits)
    · refine oaepRoundTrips_of_long hashes ?_ (by omega)
      rcases hinput with hinput | hmodulus
      · have hinputLength := List.length_pos_iff.mpr hinput
        omega
      · omega

end Agreement

/-- Encoder and decoder agree for a label digest of a hash algorithm and every seed exactly when
the saturated bound does no harm and the data block of a plaintext that fits is within the limit
of MGF1.

Assumes of the hash functions only the lengths of their digests, and of the random source that it
fills the seed. -/
theorem oaepRoundTrips_iff (labelHash mgfHash : HashAlgorithm)
    (labelDigest seed : List.Vector UInt8 labelHash.outputLength) (input : ByteString)
    (modulusSize : ℕ) :
    OaepRoundTrips hashes (seedFill seed) input modulusSize labelDigest.toList mgfHash ↔
      (input ≠ [] ∨ 2 * labelHash.outputLength + 2 ≤ modulusSize) ∧
        (input.length + 2 * labelHash.outputLength + 2 ≤ modulusSize →
          modulusSize - labelHash.outputLength - 1 ≤ 2 ^ 32 * mgfHash.outputLength) := by
  have hlength : labelDigest.toList.length = labelHash.outputLength := labelDigest.toList_length
  have hpositive := labelHash.outputLength_pos
  have hlabel : labelDigest.toList ≠ [] := List.length_pos_iff.mp (hlength.symm ▸ hpositive)
  obtain ⟨seed', hfill⟩ : ∃ seed' : List.Vector UInt8 labelDigest.toList.length,
      seedFill seed labelDigest.toList.length = some seed' := by
    rw [hlength]
    exact ⟨seed, seedFill_self seed⟩
  rw [oaepRoundTrips_iff_of_fill hashes hlabel (hlength.trans_le labelHash.outputLength_le) hfill,
    hlength, WithinMgf1Limit]

/-- A 1024-bit modulus with a 64-byte label digest and the empty plaintext: the encoder answers
with 128 bytes that the decoder refuses. -/
theorem not_oaepRoundTrips_empty_sha512 :
    ∃ hashes : HashFunctions, ∃ fill : RandomFill,
      ¬ OaepRoundTrips hashes fill [] 128 (List.replicate 64 0) .sha1 := by
  refine ⟨⟨fun algorithm _ ↦ List.replicate algorithm.outputLength 0, fun algorithm _ ↦
    List.length_replicate⟩, seedFill (List.Vector.replicate 64 0), ?_⟩
  have hfill : seedFill (List.Vector.replicate 64 0) 64 = some (List.Vector.replicate 64 0) :=
    seedFill_self _
  exact not_oaepRoundTrips_of_short _ (by simp) (by simp) hfill (by simp)

end RsaSigning

end SoftwareKeyCore
