import SoftwareKeyCore.Foundation.FuelledComputation
import SoftwareKeyCore.Foundation.RandomTape
import SoftwareKeyCore.RsaValidation.PublicKey
import SoftwareKeyCore.SoftwareSigning.KeyIdentity

/-!
# Generated keys of the curves

`software_signing.rs`: `SoftwareEcKey::generate` and the loops that it draws its secrets with, one for
each curve (`random_p224_secret` and the others). A loop fills a buffer of the width of a scalar until
the curve takes it as a secret, without a bound on the attempts. `IsScalarCodec` is what is documented
of the curves: a buffer is taken when its number is not zero and below the order of the group.

`returns_randomSecret_iff` says where a loop ends on any random source. On a tape of random bytes
`chance_generate_eq` gives the exact chances after every number of attempts: that of a key is the
same for all keys, and what is left is that of a source which ends first. The order of P-521 has 521
bits and the buffer 528, so on this curve a loop rejects most buffers (`lt_rejectionRate_p521`).
-/

set_option autoImplicit false
set_option relaxedAutoImplicit false

namespace SoftwareKeyCore.SoftwareSigning

open ByteString RandomTape RejectionSampling RsaValidation

/-! ### The loops -/

/-- The body that the loops share: a secret of the first buffer that the curve takes. -/
def randomSecret {σ : Type} (source : RandomSource σ) (width : ℕ) (codec : PrivateKeyCodec) :
    (state : σ) → Fuelled (Except SoftwareSigningError codec.SecretKey × σ) :=
  Fuelled.iterate fun state ↦
    match source width state with
    | (none, state) => .inr (.error .randomnessUnavailable, state)
    | (some bytes, state) =>
      match codec.fromSlice bytes.toList with
      | some secret => .inr (.ok secret, state)
      | none => .inl state

section

variable (libraries : KeyLibraries) {σ : Type} (source : RandomSource σ)

/-- `random_p224_secret`. -/
def randomP224Secret := randomSecret source 28 (libraries.ec .p224)

/-- `random_p256_secret`. -/
def randomP256Secret := randomSecret source 32 (libraries.ec .p256)

/-- `random_p384_secret`. -/
def randomP384Secret := randomSecret source 48 (libraries.ec .p384)

/-- `random_p521_secret`. -/
def randomP521Secret := randomSecret source 66 (libraries.ec .p521)

/-- `random_k256_secret`. -/
def randomK256Secret := randomSecret source 32 (libraries.ec .secp256k1)

/-- `random_brainpool_p256_secret`. -/
def randomBrainpoolP256Secret := randomSecret source 32 (libraries.ec .brainpoolP256)

/-- `random_brainpool_p384_secret`. -/
def randomBrainpoolP384Secret := randomSecret source 48 (libraries.ec .brainpoolP384)

/-- `random_brainpool_p512_secret`. -/
def randomBrainpoolP512Secret := randomSecret source 64 (libraries.ec .brainpoolP512)

variable {libraries}

/-- The key of a curve around a drawn secret. -/
def SoftwareEcKey.ofDrawn (curve : EcCurve)
    (drawn : Fuelled (Except SoftwareSigningError (libraries.ec curve).SecretKey × σ)) :
    Fuelled (Except SoftwareSigningError (SoftwareEcKey libraries) × σ) := do
  let (secret, state) ← drawn
  return (secret.map fun secret ↦ { curve := curve, key := secret }, state)

variable (libraries)

/-- `SoftwareEcKey::generate`. -/
def SoftwareEcKey.generate (curve : EcCurve) (state : σ) :
    Fuelled (Except SoftwareSigningError (SoftwareEcKey libraries) × σ) :=
  match curve with
  | .p224 => ofDrawn .p224 (randomP224Secret libraries source state)
  | .p256 => ofDrawn .p256 (randomP256Secret libraries source state)
  | .p384 => ofDrawn .p384 (randomP384Secret libraries source state)
  | .p521 => ofDrawn .p521 (randomP521Secret libraries source state)
  | .secp256k1 => ofDrawn .secp256k1 (randomK256Secret libraries source state)
  | .brainpoolP256 => ofDrawn .brainpoolP256 (randomBrainpoolP256Secret libraries source state)
  | .brainpoolP384 => ofDrawn .brainpoolP384 (randomBrainpoolP384Secret libraries source state)
  | .brainpoolP512 => ofDrawn .brainpoolP512 (randomBrainpoolP512Secret libraries source state)

/-- The width of the buffer that the loop of a curve fills. -/
def EcCurve.scalarWidth : EcCurve → ℕ
  | p224 => 28
  | p256 | secp256k1 | brainpoolP256 => 32
  | p384 | brainpoolP384 => 48
  | p521 => 66
  | brainpoolP512 => 64

theorem SoftwareEcKey.generate_eq (curve : EcCurve) (state : σ) :
    generate libraries source curve state =
      ofDrawn curve (randomSecret source curve.scalarWidth (libraries.ec curve) state) := by
  cases curve <;> rfl

variable {libraries source}

/-- What a generation returns. -/
theorem SoftwareEcKey.returns_generate_iff {curve : EcCurve} {state state' : σ}
    {result : Except SoftwareSigningError (SoftwareEcKey libraries)} :
    (generate libraries source curve state).Returns (result, state') ↔
      ∃ secret, (randomSecret source curve.scalarWidth (libraries.ec curve) state).Returns
        (secret, state') ∧ result = secret.map fun secret ↦ { curve := curve, key := secret } := by
  rw [generate_eq, ofDrawn, Fuelled.returns_bind]
  constructor
  · rintro ⟨⟨secret, next⟩, hsecret, hresult⟩
    obtain ⟨rfl, rfl⟩ := Prod.mk.inj (Fuelled.returns_pure.mp hresult)
    exact ⟨secret, hsecret, rfl⟩
  · rintro ⟨secret, hsecret, rfl⟩
    exact ⟨(secret, state'), hsecret, Fuelled.returns_pure.mpr rfl⟩

end

/-! ### Where a loop ends -/

section

variable {σ : Type} {source : RandomSource σ} {width : ℕ} {codec : PrivateKeyCodec}
  {state next state' : σ} {result : Except SoftwareSigningError codec.SecretKey}

/-- The secret that is taken off a buffer. -/
def takeSecret (codec : PrivateKeyCodec) (width : ℕ) (buffer : List.Vector UInt8 width) :
    Option codec.SecretKey :=
  codec.fromSlice buffer.toList

/-- A source that does not answer ends the loop. -/
theorem returns_randomSecret_of_none (hfill : source width state = (none, next)) :
    (randomSecret source width codec state).Returns (.error .randomnessUnavailable, next) :=
  Fuelled.returns_iterate_done (by simp only [hfill])

/-- A buffer that is taken ends the loop. -/
theorem returns_randomSecret_of_some {buffer : List.Vector UInt8 width} {secret : codec.SecretKey}
    (hfill : source width state = (some buffer, next))
    (htaken : takeSecret codec width buffer = some secret) :
    (randomSecret source width codec state).Returns (.ok secret, next) := by
  unfold takeSecret at htaken
  exact Fuelled.returns_iterate_done (by simp only [hfill, htaken])

/-- After a buffer that is not taken the loop goes on. -/
theorem returns_randomSecret_of_rejected {buffer : List.Vector UInt8 width}
    {outcome : Except SoftwareSigningError codec.SecretKey × σ}
    (hfill : source width state = (some buffer, next))
    (hrejected : takeSecret codec width buffer = none) :
    (randomSecret source width codec state).Returns outcome ↔
      (randomSecret source width codec next).Returns outcome := by
  unfold takeSecret at hrejected
  exact Fuelled.returns_iterate_next (by simp only [hfill, hrejected])

/-- A request after rejected buffers only that is not answered, or answered with a buffer that is
taken. -/
def EndsWith (source : RandomSource σ) (width : ℕ) (codec : PrivateKeyCodec)
    (result : Except SoftwareSigningError codec.SecretKey) (state' state : σ) : Prop :=
  ∃ index, (∀ earlier < index, RejectsAt (source width) (takeSecret codec width) state earlier) ∧
    ((answerAt (source width) state index = none ∧ result = .error .randomnessUnavailable) ∨
      ∃ buffer secret, answerAt (source width) state index = some buffer ∧
        takeSecret codec width buffer = some secret ∧ result = .ok secret) ∧
    state' = stateAfter (source width) state (index + 1)

/-- A loop ends at the first request that is not answered with a rejected buffer, and it goes on for
ever when there is none. -/
theorem returns_randomSecret_iff :
    (randomSecret source width codec state).Returns (result, state') ↔
      EndsWith source width codec result state' state := by
  constructor
  · intro hreturns
    refine Fuelled.Returns.iterate_induction (motive := EndsWith source width codec result state')
      hreturns ?_ ?_
    · intro state hdone
      rcases hfill : source width state with ⟨- | buffer, next⟩
      · simp only [hfill, Sum.inr.injEq, Prod.mk.injEq] at hdone
        obtain ⟨rfl, rfl⟩ := hdone
        refine ⟨0, fun earlier hearlier ↦ absurd hearlier (Nat.not_lt_zero earlier),
          Or.inl ⟨congrArg Prod.fst hfill, rfl⟩, (congrArg Prod.snd hfill).symm⟩
      · cases htaken : codec.fromSlice buffer.toList with
        | none => simp only [hfill, htaken, reduceCtorEq] at hdone
        | some secret =>
          simp only [hfill, htaken, Sum.inr.injEq, Prod.mk.injEq] at hdone
          obtain ⟨rfl, rfl⟩ := hdone
          exact ⟨0, fun earlier hearlier ↦ absurd hearlier (Nat.not_lt_zero earlier),
            Or.inr ⟨buffer, secret, congrArg Prod.fst hfill, htaken, rfl⟩,
            (congrArg Prod.snd hfill).symm⟩
    · rintro state next hnext ⟨index, hrejects, hends, hstate⟩
      rcases hfill : source width state with ⟨- | buffer, after⟩
      · simp only [hfill, reduceCtorEq] at hnext
      · cases htaken : codec.fromSlice buffer.toList with
        | some secret => simp only [hfill, htaken, reduceCtorEq] at hnext
        | none =>
          simp only [hfill, htaken, Sum.inl.injEq] at hnext
          subst hnext
          have hafter : ∀ count, stateAfter (source width) state (count + 1) =
              stateAfter (source width) after count := by
            intro count
            rw [stateAfter, hfill]
          refine ⟨index + 1, rejectsAt_succ hfill htaken hrejects, ?_, by rw [hafter, hstate]⟩
          rwa [answerAt, hafter, ← answerAt]
  · rintro ⟨index, hrejects, hends, rfl⟩
    induction index generalizing state with
    | zero =>
      rcases hends with ⟨hnone, rfl⟩ | ⟨buffer, secret, hbuffer, htaken, rfl⟩
      · exact returns_randomSecret_of_none (Prod.ext hnone rfl)
      · exact returns_randomSecret_of_some (Prod.ext hbuffer rfl) htaken
    | succ index ih =>
      obtain ⟨buffer, hbuffer, hrejected⟩ := hrejects 0 (Nat.succ_pos index)
      refine (returns_randomSecret_of_rejected (Prod.ext hbuffer rfl) hrejected).mpr (ih ?_ hends)
      intro earlier hearlier
      exact hrejects (earlier + 1) (Nat.succ_lt_succ hearlier)

end

/-! ### Buffers that are taken -/

/-- What is documented of the secrets of a curve: their bytes have the width, and a buffer of the
width is taken, as the secret with these bytes, when its number is not zero and below the order. -/
structure IsScalarCodec (codec : PrivateKeyCodec) (width order : ℕ) : Prop where
  length_toBytes : ∀ secret, (codec.toBytes secret).length = width
  isSome_iff : ∀ buffer : List.Vector UInt8 width, (codec.fromSlice buffer.toList).isSome ↔
    1 ≤ fromBeBytes buffer.toList ∧ fromBeBytes buffer.toList < order
  toBytes_eq : ∀ {buffer : List.Vector UInt8 width} {secret : codec.SecretKey},
    codec.fromSlice buffer.toList = some secret → codec.toBytes secret = buffer.toList
  two_le_order : 2 ≤ order
  order_le : order ≤ 256 ^ width

/-- The part of the buffers that a loop rejects. -/
def rejectionRate (width order : ℕ) : ℚ :=
  1 - (order - 1) / 256 ^ width

/-- The buffer of a number. -/
def scalarBuffer (width value : ℕ) : List.Vector UInt8 width :=
  ⟨toBeBytes width value, length_toBeBytes width value⟩

@[simp] theorem toList_scalarBuffer (width value : ℕ) :
    (scalarBuffer width value).toList = toBeBytes width value :=
  rfl

theorem card_byte : Fintype.card UInt8 = 256 :=
  (Fintype.card_congr ⟨UInt8.toFin, UInt8.ofFin, fun _ ↦ rfl, fun _ ↦ rfl⟩).trans
    (Fintype.card_fin 256)

section

variable {codec : PrivateKeyCodec} {width order : ℕ} (hcodec : IsScalarCodec codec width order)
include hcodec

/-- The buffers that are taken are the encodings of the numbers below the order but zero. -/
theorem ncard_isSome_takeSecret :
    {buffer | (takeSecret codec width buffer).isSome}.ncard = order - 1 := by
  have hlt : ∀ value ∈ Finset.Ico 1 order,
      fromBeBytes (scalarBuffer width value).toList = value := by
    intro value hvalue
    rw [toList_scalarBuffer]
    exact fromBeBytes_toBeBytes_of_lt ((Finset.mem_Ico.mp hvalue).2.trans_le hcodec.order_le)
  have hinjective : Set.InjOn (scalarBuffer width) (Finset.Ico 1 order : Finset ℕ) := by
    intro value hvalue value' hvalue' hsame
    rw [← hlt value hvalue, hsame, hlt value' hvalue']
  have himage : {buffer | (takeSecret codec width buffer).isSome} =
      scalarBuffer width '' (Finset.Ico 1 order : Finset ℕ) := by
    ext buffer
    rw [Set.mem_ofPred_eq, takeSecret, hcodec.isSome_iff]
    constructor
    · intro hrange
      refine ⟨fromBeBytes buffer.toList, Finset.mem_coe.mpr (Finset.mem_Ico.mpr hrange), ?_⟩
      apply List.Vector.eq
      rw [toList_scalarBuffer]
      have hbytes := toBeBytes_fromBeBytes buffer.toList
      rwa [buffer.toList_length] at hbytes
    · rintro ⟨value, hvalue, rfl⟩
      rw [hlt value hvalue]
      exact Finset.mem_Ico.mp hvalue
  rw [himage, hinjective.ncard_image, Set.ncard_coe_finset, Nat.card_Ico]

/-- The part of the buffers that no secret is taken off. -/
theorem ncard_rejected_div :
    ({buffer | takeSecret codec width buffer = none}.ncard : ℚ) / 256 ^ width =
      rejectionRate width order := by
  have htotal := Set.ncard_add_ncard_compl {buffer | (takeSecret codec width buffer).isSome}
  have hcompl : {buffer | (takeSecret codec width buffer).isSome}ᶜ =
      {buffer | takeSecret codec width buffer = none} := by
    ext buffer
    simp
  rw [hcompl, ncard_isSome_takeSecret hcodec, Nat.card_eq_fintype_card, card_vector, card_byte]
    at htotal
  have hcast : ((order : ℚ) - 1) + {buffer | takeSecret codec width buffer = none}.ncard =
      256 ^ width := by
    rw [← Nat.cast_one, ← Nat.cast_sub (one_le_two.trans hcodec.two_le_order)]
    exact_mod_cast htotal
  rw [rejectionRate, eq_sub_iff_add_eq, ← add_div, add_comm, hcast,
    div_self (pow_ne_zero width (by norm_num))]

/-- A secret is taken off one buffer. -/
theorem ncard_takeSecret (secret : codec.SecretKey) :
    {buffer | takeSecret codec width buffer = some secret}.ncard = 1 := by
  obtain ⟨encoded, hencoded⟩ : ∃ encoded : List.Vector UInt8 width,
      encoded.toList = codec.toBytes secret := ⟨⟨_, hcodec.length_toBytes secret⟩, rfl⟩
  refine Set.ncard_eq_one.mpr ⟨encoded, ?_⟩
  ext buffer
  rw [Set.mem_ofPred_eq, Set.mem_singleton_iff]
  constructor
  · intro htaken
    exact List.Vector.eq _ _ ((hcodec.toBytes_eq htaken).symm.trans hencoded.symm)
  · rintro rfl
    rw [takeSecret, hencoded]
    exact codec.fromSlice_toBytes secret

omit hcodec in
theorem one_sub_rejectionRate : 1 - rejectionRate width order = (order - 1) / 256 ^ width :=
  sub_sub_cancel 1 _

theorem order_sub_one_ne_zero : (order : ℚ) - 1 ≠ 0 := by
  have horder : (1 : ℚ) < order := by exact_mod_cast hcodec.two_le_order
  exact (sub_pos.mpr horder).ne'

theorem width_pos : 0 < width := by
  rcases Nat.eq_zero_or_pos width with rfl | hwidth
  · have horder := hcodec.two_le_order.trans hcodec.order_le
    omega
  · exact hwidth

end

/-! ### The chances -/

section

variable {codec : PrivateKeyCodec} {width order : ℕ}
  {result : Except SoftwareSigningError codec.SecretKey}

/-- The tapes off which a loop draws a result. -/
def Draws (codec : PrivateKeyCodec) (width : ℕ)
    (result : Except SoftwareSigningError codec.SecretKey) (tape : List UInt8) : Prop :=
  ∃ rest, (randomSecret readTape width codec tape).Returns (result, rest)

open Classical in
/-- What a buffer says of a result: one that is taken decides it. -/
noncomputable def decidesResult (codec : PrivateKeyCodec) (width : ℕ)
    (result : Except SoftwareSigningError codec.SecretKey) (buffer : List.Vector UInt8 width) :
    Option Bool :=
  (takeSecret codec width buffer).map fun secret ↦ decide (Except.ok secret = result)

theorem decidedBy_draws : DecidedBy (decidesResult codec width result) (Draws codec width result) := by
  intro buffer rest
  have hread := readTape_append buffer rest
  unfold decidesResult
  cases htaken : takeSecret codec width buffer with
  | none => exact exists_congr fun after ↦ returns_randomSecret_of_rejected hread htaken
  | some secret =>
    have hreturns := returns_randomSecret_of_some hread htaken
    simp only [Option.map_some, Option.elim_some, decide_eq_true_eq]
    constructor
    · rintro ⟨after, hafter⟩
      exact congrArg Prod.fst (hreturns.unique hafter)
    · rintro rfl
      exact ⟨rest, hreturns⟩

section

variable (hcodec : IsScalarCodec codec width order)
include hcodec

theorem share_decidesResult_none :
    share (decidesResult codec width result) none = rejectionRate width order := by
  have hsets : {buffer | decidesResult codec width result buffer = none} =
      {buffer | takeSecret codec width buffer = none} := by
    ext buffer
    exact Option.map_eq_none_iff
  rw [share, hsets, card_byte, ← ncard_rejected_div hcodec, Nat.cast_ofNat]

theorem share_decidesResult_ok (secret : codec.SecretKey) :
    share (decidesResult codec width (.ok secret)) (some true) = 1 / 256 ^ width := by
  have hsets : {buffer | decidesResult codec width (.ok secret) buffer = some true} =
      {buffer | takeSecret codec width buffer = some secret} := by
    ext buffer
    simp [decidesResult, Option.map_eq_some_iff]
  rw [share, hsets, card_byte, ncard_takeSecret hcodec, Nat.cast_one, Nat.cast_ofNat]

omit hcodec in
theorem share_decidesResult_error (error : SoftwareSigningError) :
    share (decidesResult codec width (.error error)) (some true) = 0 := by
  have hsets : {buffer | decidesResult codec width (.error error) buffer = some true} = ∅ := by
    ext buffer
    simp [decidesResult, Option.map_eq_some_iff]
  rw [share, hsets, Set.ncard_empty, Nat.cast_zero, zero_div]

/-- Without a letter left a loop reports the source. -/
theorem draws_toList_iff (tape : List.Vector UInt8 0) :
    Draws codec width result tape.toList ↔ result = .error .randomnessUnavailable := by
  have hlength : tape.toList.length < width := by
    rw [tape.toList_length]
    exact width_pos hcodec
  have hreturns : (randomSecret readTape width codec tape.toList).Returns
      (.error .randomnessUnavailable, tape.toList) :=
    returns_randomSecret_of_none (readTape_of_lt hlength)
  constructor
  · rintro ⟨rest, hrest⟩
    exact congrArg Prod.fst (hrest.unique hreturns)
  · rintro rfl
    exact ⟨tape.toList, hreturns⟩

/-- The chance that a loop draws a secret within a number of attempts. -/
theorem chance_draws_ok (secret : codec.SecretKey) (attempts : ℕ) :
    chance UInt8 (width * attempts) (Draws codec width (.ok secret)) =
      (1 - rejectionRate width order ^ attempts) / (order - 1) := by
  have hnever : chance UInt8 0 (Draws codec width (.ok secret)) = 0 := by
    refine chance_eq_zero fun tape hdraws ↦ ?_
    cases (draws_toList_iff hcodec tape).mp hdraws
  have hgeometric := mul_neg_geom_sum (rejectionRate width order) attempts
  rw [one_sub_rejectionRate] at hgeometric
  rw [chance_mul_of_decidedBy decidedBy_draws, share_decidesResult_ok hcodec,
    share_decidesResult_none hcodec, hnever, mul_zero, add_zero, ← hgeometric]
  have horder := order_sub_one_ne_zero hcodec
  have hwidth : (256 : ℚ) ^ width ≠ 0 := pow_ne_zero width (by norm_num)
  field_simp

/-- The chance that a loop draws nothing within a number of attempts. -/
theorem chance_draws_error (attempts : ℕ) :
    chance UInt8 (width * attempts) (Draws codec width (.error .randomnessUnavailable)) =
      rejectionRate width order ^ attempts := by
  have halways : chance UInt8 0 (Draws codec width (.error .randomnessUnavailable)) = 1 :=
    chance_eq_one fun tape ↦ (draws_toList_iff hcodec tape).mpr rfl
  rw [chance_mul_of_decidedBy decidedBy_draws, share_decidesResult_error,
    share_decidesResult_none hcodec, halways, zero_mul, zero_add, mul_one]

end

end

section

variable {libraries : KeyLibraries} {curve : EcCurve} {order : ℕ}

/-- The tapes off which a result of a generation is drawn. -/
def Generates (libraries : KeyLibraries) (curve : EcCurve)
    (result : Except SoftwareSigningError (SoftwareEcKey libraries)) (tape : List UInt8) : Prop :=
  ∃ rest, (SoftwareEcKey.generate libraries readTape curve tape).Returns (result, rest)

/-- A generation wraps what is drawn. -/
theorem generates_iff (secret : Except SoftwareSigningError (libraries.ec curve).SecretKey)
    (tape : List UInt8) :
    Generates libraries curve (secret.map fun secret ↦ { curve := curve, key := secret }) tape ↔
      Draws (libraries.ec curve) curve.scalarWidth secret tape := by
  constructor
  · rintro ⟨rest, hreturns⟩
    obtain ⟨drawn, hdrawn, hsame⟩ := SoftwareEcKey.returns_generate_iff.mp hreturns
    have hsecret : secret = drawn := by
      cases secret with
      | ok secret =>
        cases drawn with
        | ok drawn =>
          cases hsame
          rfl
        | error error => cases hsame
      | error error =>
        cases drawn with
        | ok drawn => cases hsame
        | error error' =>
          cases hsame
          rfl
    exact ⟨rest, hsecret ▸ hdrawn⟩
  · rintro ⟨rest, hdrawn⟩
    exact ⟨rest, SoftwareEcKey.returns_generate_iff.mpr ⟨secret, hdrawn, rfl⟩⟩

/-- The keys of a curve are equally likely, however many attempts a random tape has room for, and
the source is reported with the chance that all buffers of the tape are rejected.

Assumes that the codec of the curve reads the numbers from one to the order less one, and no
other (`IsScalarCodec`). -/
theorem chance_generate_eq
    (hcodec : IsScalarCodec (libraries.ec curve) curve.scalarWidth order) (attempts : ℕ) :
    (∀ secret, chance UInt8 (curve.scalarWidth * attempts)
        (Generates libraries curve (.ok { curve := curve, key := secret })) =
          (1 - rejectionRate curve.scalarWidth order ^ attempts) / (order - 1)) ∧
      chance UInt8 (curve.scalarWidth * attempts)
        (Generates libraries curve (.error .randomnessUnavailable)) =
          rejectionRate curve.scalarWidth order ^ attempts := by
  constructor
  · intro secret
    rw [← chance_draws_ok hcodec secret]
    exact congrArg _ (funext fun tape ↦ propext (generates_iff (.ok secret) tape))
  · rw [← chance_draws_error hcodec]
    exact congrArg _ (funext fun tape ↦ propext (generates_iff (.error _) tape))

end

/-! ### Secrets as bytes -/

/-- The encodings of the numbers of a width below an order but zero. -/
def IsScalarOf (width order : ℕ) (bytes : ByteString) : Prop :=
  bytes.length = width ∧ 1 ≤ fromBeBytes bytes ∧ fromBeBytes bytes < order
deriving Decidable

/-- Secret keys that are their own encodings, below an order. -/
def orderCodec (width order : ℕ) : PrivateKeyCodec where
  SecretKey := {bytes : ByteString // IsScalarOf width order bytes}
  fromSlice bytes :=
    if hscalar : IsScalarOf width order bytes then some ⟨bytes, hscalar⟩ else none
  toBytes := Subtype.val
  fromPkcs8Der bytes :=
    if hscalar : IsScalarOf width order bytes then some ⟨bytes, hscalar⟩ else none
  toPkcs8Der key := some key.val
  publicKey := Subtype.val
  fromSlice_toBytes key := dif_pos key.property
  exists_toPkcs8Der key := ⟨key.val, rfl, dif_pos key.property⟩

theorem isScalarCodec_orderCodec {width order : ℕ} (hlower : 2 ≤ order)
    (hupper : order ≤ 256 ^ width) : IsScalarCodec (orderCodec width order) width order where
  length_toBytes secret := secret.property.1
  isSome_iff buffer := by
    have hscalar : IsScalarOf width order buffer.toList ↔
        1 ≤ fromBeBytes buffer.toList ∧ fromBeBytes buffer.toList < order :=
      and_iff_right buffer.toList_length
    rw [← hscalar]
    by_cases hbuffer : IsScalarOf width order buffer.toList
    · simp [orderCodec, hbuffer]
    · simp [orderCodec, hbuffer]
  toBytes_eq {buffer secret} hsecret := by
    by_cases hbuffer : IsScalarOf width order buffer.toList
    · obtain rfl := Option.some.inj ((dif_pos hbuffer).symm.trans hsecret)
      rfl
    · cases (dif_neg hbuffer).symm.trans hsecret
  two_le_order := hlower
  order_le := hupper

/-- The order of the group of P-521. -/
def p521Order : ℕ :=
  2 ^ 521 - 657877501894328237357444332315020117536923257219387276263472201219398408051703

/-- On P-521 more than 127 of 128 buffers are rejected. -/
theorem lt_rejectionRate_p521 : 127 / 128 < rejectionRate 66 p521Order := by
  have horder : p521Order * 128 ≤ 256 ^ 66 := by decide +kernel
  have hcast : (p521Order : ℚ) * 128 ≤ 256 ^ 66 := by exact_mod_cast horder
  have htaken : ((p521Order : ℚ) - 1) / 256 ^ 66 < 1 / 128 := by
    rw [div_lt_div_iff₀ (by positivity) (by norm_num)]
    linarith
  unfold rejectionRate
  linarith

/-- Libraries with the secrets of P-521. -/
def p521Libraries : KeyLibraries :=
  { referenceLibraries with ec := fun _ ↦ orderCodec 66 p521Order }

/-- A tape of 132 bytes has room for two attempts. -/
theorem chance_generate_eq_p521 :
    (∀ secret, chance UInt8 132
        (Generates p521Libraries .p521 (.ok { curve := .p521, key := secret })) =
          (1 - rejectionRate 66 p521Order ^ 2) / (p521Order - 1)) ∧
      chance UInt8 132 (Generates p521Libraries .p521 (.error .randomnessUnavailable)) =
        rejectionRate 66 p521Order ^ 2 := by
  have hlower : 2 ≤ p521Order := by decide +kernel
  have hupper : p521Order ≤ 256 ^ 66 := by decide +kernel
  have hcodec : IsScalarCodec (p521Libraries.ec .p521) EcCurve.p521.scalarWidth p521Order :=
    isScalarCodec_orderCodec hlower hupper
  exact chance_generate_eq hcodec 2

end SoftwareKeyCore.SoftwareSigning
