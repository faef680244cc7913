import SoftwareKeyCore.ArkgP256
import SoftwareKeyCore.Foundation.ExpandMessage

/-!
# Hashing to the scalars of P-256

`arkg.rs`, `hash_to_scalar`. It writes the expansion of a message to 48 bytes out, over three
digests, and reduces the 48 bytes as two halves of 24 bytes, which are below the order each and are
put together in the field.

`reduce48Bytes_eq` is that the halves make up the residue of the number of all 48 bytes, and
`hashToScalar_eq_hashToField` that `hash_to_scalar` is `hash_to_field` of the standard, the number of
the expanded message modulo the order, where the domains of the two derivations are within its limit.
-/

set_option autoImplicit false
set_option relaxedAutoImplicit false

namespace SoftwareKeyCore.ArkgP256

open ByteString ExpandMessage FallibleResult

variable {arkg : ArkgLibrary}

/-! ### The reduction -/

/-- Twenty-four bytes are below the order. -/
theorem fromBeBytes_lt_p256Order {bytes : ByteString} (hlength : bytes.length = 24) :
    fromBeBytes bytes < p256Order := by
  have hvalue := fromBeBytes_lt bytes
  have horder : 256 ^ 24 < p256Order := by decide +kernel
  rw [hlength] at hvalue
  exact hvalue.trans horder

/-- A number below the order is read as its residue. -/
theorem fromRepr_eq_some {bytes : ByteString} (hlength : bytes.length = 32)
    (hvalue : fromBeBytes bytes < p256Order) :
    arkg.fromRepr (⟨bytes, hlength⟩ : List.Vector UInt8 32) =
      some (fromBeBytes bytes : P256Scalar) :=
  (arkg.fromRepr_eq _).trans (if_pos hvalue)

theorem scalarFrom24Bytes_eq {input : ByteString} (hlength : input.length = 24) :
    scalarFrom24Bytes arkg input = .ok (fromBeBytes input : P256Scalar) := by
  have hvalue : fromBeBytes (List.replicate 8 0 ++ input) = fromBeBytes input :=
    fromBeBytes_replicate_zero_append 8 input
  have hpadded : (List.replicate 8 (0 : UInt8) ++ input).length = 32 := by
    rw [List.length_append, List.length_replicate, hlength]
  have horder : fromBeBytes (List.replicate 8 0 ++ input) < p256Order := by
    rw [hvalue]
    exact fromBeBytes_lt_p256Order hlength
  have hscalar : arkg.fromRepr ⟨List.replicate 8 0 ++ input, hpadded⟩ = _ :=
    fromRepr_eq_some hpadded horder
  unfold scalarFrom24Bytes
  rw [dif_pos hlength]
  exact (congrArg (orError _) hscalar).trans (by rw [hvalue]; rfl)

/-- Two halves of 24 bytes make up the residue of all 48 bytes. -/
theorem reduce48Bytes_eq (uniform : List.Vector UInt8 48) :
    reduce48Bytes arkg uniform = .ok (fromBeBytes uniform.toList : P256Scalar) := by
  have hlength : uniform.toList.length = 48 := uniform.toList_length
  have hhigh : (uniform.toList.take 24).length = 24 := by
    rw [List.length_take, hlength]
    rfl
  have hlow : (uniform.toList.drop 24).length = 24 := by
    rw [List.length_drop, hlength]
  have hpower : orError ArkgP256Error.invalidPrivateScalar
      (arkg.fromRepr ⟨List.replicate 7 0 ++ [1] ++ List.replicate 24 0, rfl⟩) =
        .ok ((256 ^ 24 : ℕ) : P256Scalar) := by
    have hvalue : fromBeBytes (List.replicate 7 0 ++ [1] ++ List.replicate 24 0) = 256 ^ 24 := by
      decide +kernel
    have horder : 256 ^ 24 < p256Order := by decide +kernel
    refine (congrArg (orError _) (fromRepr_eq_some rfl (hvalue ▸ horder))).trans ?_
    rw [hvalue]
    rfl
  have hsplit := fromBeBytes_append (uniform.toList.take 24) (uniform.toList.drop 24)
  rw [List.take_append_drop, hlow] at hsplit
  unfold reduce48Bytes
  rw [scalarFrom24Bytes_eq hhigh, ok_bind, scalarFrom24Bytes_eq hlow, ok_bind, hpower, ok_bind,
    hsplit, Nat.cast_add, Nat.cast_mul]

/-! ### The expansion -/

/-- The expansion that `hash_to_scalar` writes out. -/
theorem expandMessageXmd_eq_uniformBytes (message : ByteString) {domain : ByteString}
    (hdomain : domain.length ≤ 255) :
    expandMessageXmd (fun message ↦ (arkg.sha256 message).toList) 64 32 message domain 48 =
      some (uniformBytes arkg message domain).toList := by
  have hhash : ∀ message, (arkg.sha256 message).toList.length = 32 :=
    fun message ↦ (arkg.sha256 message).toList_length
  rw [expandMessageXmd_of_two_blocks hhash (by decide) (by decide) (by decide) hdomain]
  have hbyte : toBeBytes 1 domain.length = [UInt8.ofNat domain.length] := by
    rw [toBeBytes, pow_zero, Nat.div_one, toBeBytes]
  rw [hbyte]
  rfl

/-- `hash_to_scalar` answers with the residue of the expansion. -/
theorem hashToScalar_eq_ok (message : ByteString) {domain : ByteString}
    (hdomain : domain.length ≤ 255) :
    hashToScalar arkg message domain =
      .ok (fromBeBytes (uniformBytes arkg message domain).toList : P256Scalar) := by
  rw [hashToScalar, if_neg (not_lt.mpr hdomain), reduce48Bytes_eq]

/-! ### The domains of the derivations -/

theorem length_kemKeyGenerationLabel : kemKeyGenerationLabel.length ≤ 255 := by decide +kernel

/-- The domain of the blinding scalar is within the limit. -/
theorem length_blindingDomain {context : ByteString} {contexts : ByteString × ByteString}
    (hcontexts : derivationContexts context = .ok contexts) :
    (concatenate [blindingPrfLabel, contexts.2]).length ≤ 255 := by
  have hprf : blindingPrfLabel.length = 20 := by decide +kernel
  have hlabel : deriveKeyBlLabel.length = 19 := by decide +kernel
  unfold derivationContexts at hcontexts
  rw [ite_error_eq_ok_iff, ite_error_eq_ok_iff, Except.ok.injEq] at hcontexts
  obtain ⟨-, hcontext, rfl⟩ := hcontexts
  rw [maxContextLength, not_lt] at hcontext
  simp only [concatenate, List.flatten_cons, List.flatten_nil, List.append_nil,
    List.length_append, List.length_cons, hprf, hlabel]
  omega

theorem derivationContexts_eq_ok {context : ByteString} (hcontext : context.length ≤ 64) :
    ∃ contexts, derivationContexts context = .ok contexts := by
  unfold derivationContexts maxContextLength
  rw [if_neg (by omega), if_neg (by omega)]
  exact ⟨_, rfl⟩

/-- A domain within the limit is no reason to fail. -/
theorem hashToScalar_ne_error (message : ByteString) {domain : ByteString}
    (hdomain : domain.length ≤ 255) (error : ArkgP256Error) :
    hashToScalar arkg message domain ≠ .error error := by
  rw [hashToScalar_eq_ok message hdomain]
  exact fun herror ↦ Except.noConfusion rfl rfl (heq_of_eq herror)

theorem derivationContexts_ne_invalidDomain (context : ByteString) :
    derivationContexts context ≠ .error .invalidDomain := by
  unfold derivationContexts
  split_ifs <;> simp

theorem parseScalar_ne_invalidDomain (bytes : List.Vector UInt8 32) :
    parseScalar arkg bytes ≠ .error .invalidDomain :=
  orError_ne_error (by simp) _

theorem projectiveToUncompressed_ne_invalidDomain (point : arkg.ProjectivePoint) :
    projectiveToUncompressed arkg point ≠ .error .invalidDomain := by
  unfold projectiveToUncompressed
  dsimp only
  split_ifs <;> simp

theorem ticketTag_ne_invalidDomain (sharedPoint : List.Vector UInt8 65)
    (contextKem ephemeralPublicKey : ByteString) :
    ticketTag arkg sharedPoint contextKem ephemeralPublicKey ≠ .error .invalidDomain := by
  refine bind_ne_error (orError_ne_error (by simp) _) fun macKey _ ↦ ?_
  refine bind_ne_error (orError_ne_error (by simp) _) fun mac _ ↦ ?_
  simp

theorem blindingScalar_ne_invalidDomain (sharedPoint : List.Vector UInt8 65) {context : ByteString}
    {contexts : ByteString × ByteString} (hcontexts : derivationContexts context = .ok contexts) :
    blindingScalar arkg sharedPoint contexts.1 contexts.2 ≠ .error .invalidDomain := by
  refine bind_ne_error (orError_ne_error (by simp) _) fun blindingInput _ ↦ ?_
  exact hashToScalar_ne_error _ (length_blindingDomain hcontexts) _

/-- The public side only hashes to a scalar within the limit of the domain. -/
theorem arkgP256DerivePublic_ne_invalidDomain
    (blindingPublicKey kemPublicKey inputKeyingMaterial context : ByteString) :
    arkgP256DerivePublic arkg blindingPublicKey kemPublicKey inputKeyingMaterial context ≠
      .error .invalidDomain := by
  rw [arkgP256DerivePublic_eq]
  by_cases hshort : inputKeyingMaterial.length < minIkmLength
  · rw [if_pos hshort]
    simp
  rw [if_neg hshort]
  refine bind_ne_error (derivationContexts_ne_invalidDomain context) fun contexts hcontexts ↦ ?_
  refine bind_ne_error (orError_ne_error (by simp) _) fun blindingPoint _ ↦ ?_
  refine bind_ne_error (orError_ne_error (by simp) _) fun kemPoint _ ↦ ?_
  refine bind_ne_error (hashToScalar_ne_error _ length_kemKeyGenerationLabel _)
    fun ephemeralScalar _ ↦ ?_
  by_cases hzero : ephemeralScalar = 0
  · rw [if_pos hzero]
    simp
  rw [if_neg hzero]
  refine bind_ne_error (projectiveToUncompressed_ne_invalidDomain _) fun ephemeralPublicKey _ ↦ ?_
  refine bind_ne_error (projectiveToUncompressed_ne_invalidDomain _) fun sharedPoint _ ↦ ?_
  refine bind_ne_error (ticketTag_ne_invalidDomain _ _ _) fun tag _ ↦ ?_
  refine bind_ne_error (blindingScalar_ne_invalidDomain sharedPoint hcontexts) fun tau _ ↦ ?_
  refine bind_ne_error (projectiveToUncompressed_ne_invalidDomain _) fun publicKey _ ↦ ?_
  simp

/-- The private side only hashes to a scalar within the limit of the domain. -/
theorem arkgP256DerivePrivate_ne_invalidDomain
    (blindingPrivateKey kemPrivateKey : List.Vector UInt8 32) (ticket : List.Vector UInt8 81)
    (context : ByteString) :
    arkgP256DerivePrivate arkg blindingPrivateKey kemPrivateKey ticket context ≠
      .error .invalidDomain := by
  rw [arkgP256DerivePrivate_eq]
  refine bind_ne_error (derivationContexts_ne_invalidDomain context) fun contexts hcontexts ↦ ?_
  refine bind_ne_error (parseScalar_ne_invalidDomain _) fun privateScalar _ ↦ ?_
  refine bind_ne_error (parseScalar_ne_invalidDomain _) fun kemScalar _ ↦ ?_
  refine bind_ne_error (orError_ne_error (by simp) _) fun ephemeral _ ↦ ?_
  refine bind_ne_error (projectiveToUncompressed_ne_invalidDomain _) fun sharedPoint _ ↦ ?_
  refine bind_ne_error (ticketTag_ne_invalidDomain _ _ _) fun tag _ ↦ ?_
  split_ifs
  · simp
  refine bind_ne_error (blindingScalar_ne_invalidDomain sharedPoint hcontexts) fun tau _ ↦ ?_
  split_ifs <;> simp

/-- `hash_to_scalar` is `hash_to_field` for the scalars of P-256 with SHA-256 and 48 uniform bytes. For
every message and every domain of at most 255 bytes it answers with the number of the expansion
modulo the order, and it only fails for longer domains; and from a context of at most 64 bytes the two
derivations only hash to scalars with domains that are within this limit.

Assumes of SHA-256 only the length of its digests; the scalars are the numbers modulo the order
of P-256. -/
theorem hashToScalar_eq_hashToField (arkg : ArkgLibrary) :
    (∀ message domain : ByteString, domain.length ≤ 255 → ∃ uniform,
      expandMessageXmd (fun message ↦ (arkg.sha256 message).toList) 64 32 message domain 48 =
          some uniform ∧
        hashToScalar arkg message domain =
          .ok ((fromBeBytes uniform % p256Order : ℕ) : P256Scalar)) ∧
    (∀ message domain : ByteString,
      (∃ error, hashToScalar arkg message domain = .error error) ↔ 255 < domain.length) ∧
    (∀ context : ByteString, context.length ≤ 64 → ∃ contextKem contextBl,
      derivationContexts context = .ok (contextKem, contextBl) ∧
        kemKeyGenerationLabel.length ≤ 255 ∧
        (concatenate [blindingPrfLabel, contextBl]).length ≤ 255) ∧
    (∀ blindingPublicKey kemPublicKey inputKeyingMaterial context,
      arkgP256DerivePublic arkg blindingPublicKey kemPublicKey inputKeyingMaterial context ≠
        .error .invalidDomain) ∧
    ∀ blindingPrivateKey kemPrivateKey ticket context,
      arkgP256DerivePrivate arkg blindingPrivateKey kemPrivateKey ticket context ≠
        .error .invalidDomain := by
  refine ⟨fun message domain hdomain ↦ ?_, fun message domain ↦ ?_, fun context hcontext ↦ ?_,
    arkgP256DerivePublic_ne_invalidDomain, arkgP256DerivePrivate_ne_invalidDomain⟩
  · refine ⟨_, expandMessageXmd_eq_uniformBytes message hdomain, ?_⟩
    rw [hashToScalar_eq_ok message hdomain, ZMod.natCast_mod]
  · constructor
    · rintro ⟨error, herror⟩
      by_contra hdomain
      exact hashToScalar_ne_error message (not_lt.mp hdomain) error herror
    · intro hdomain
      exact ⟨.invalidDomain, if_pos hdomain⟩
  · obtain ⟨⟨contextKem, contextBl⟩, hcontexts⟩ := derivationContexts_eq_ok hcontext
    exact ⟨contextKem, contextBl, hcontexts, length_kemKeyGenerationLabel,
      length_blindingDomain hcontexts⟩

/-- A message under the domain of the ephemeral scalar. -/
theorem hashToScalar_eq_hashToField_sample :
    ∃ uniform,
      expandMessageXmd (fun message ↦ (sampleArkg.sha256 message).toList) 64 32 [1, 2, 3]
          kemKeyGenerationLabel 48 = some uniform ∧
        hashToScalar sampleArkg [1, 2, 3] kemKeyGenerationLabel =
          .ok ((fromBeBytes uniform % p256Order : ℕ) : P256Scalar) :=
  (hashToScalar_eq_hashToField sampleArkg).1 [1, 2, 3] kemKeyGenerationLabel (by decide +kernel)

end SoftwareKeyCore.ArkgP256
