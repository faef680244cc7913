import SoftwareKeyCore.Foundation.ResidueRecombination
import SoftwareKeyCore.RsaSigning.AdmittedKeys

/-!
# The exported numbers of an RSA key

`software_signing.rs`: `rsa_private_components` and `rsa_crt_components`, which token interfaces
take the factors and the precomputed values of a key from. The values are the crate's
(`PrecomputedValues`); `PrecomputedValues.AreOf` is what is documented of them.

A token that has the five numbers alone computes two short powers and recombines them
(`crtOperation`). `exportedComponents_exact` is that it answers every block as the key does,
refusals included, for every key that a run of the constructors of `rsa_keys.rs` flags as
validated, and that the export is imported again as this key only.
-/

set_option autoImplicit false
set_option relaxedAutoImplicit false

namespace SoftwareKeyCore.SoftwareSigning

open ByteString FallibleResult ResidueRecombination RsaKeys RsaPrivateValidation RsaSigning

/-! ### The methods -/

/-- The values that the crate precomputes with a key, `PrivateKeyParts::dp`, `dq` and `qinv`, when
it has. -/
structure PrecomputedValues where
  dp : Option ℕ
  dq : Option ℕ
  qinv : Option ℤ

/-- The private exponent modulo the predecessors of the primes, and an inverse of the second prime
modulo the first. -/
structure PrecomputedValues.AreOf (values : PrecomputedValues) (key : RsaPrivateKey) : Prop where
  dp_eq : ∀ {p q dp : ℕ}, key.primes = [p, q] → values.dp = some dp → dp = key.d % (p - 1)
  dq_eq : ∀ {p q dq : ℕ}, key.primes = [p, q] → values.dq = some dq → dq = key.d % (q - 1)
  qinv_mul : ∀ {p q : ℕ} {qinv : ℤ}, key.primes = [p, q] → values.qinv = some qinv →
    qinv * q ≡ 1 [ZMOD p]

namespace SoftwareSigningKey

variable {libraries : KeyLibraries} (values : PrecomputedValues)

/-- `SoftwareSigningKey::rsa_private_components`. -/
def rsaPrivateComponents (key : SoftwareSigningKey libraries) :
    Except SoftwareSigningError (List.Vector ByteString 6) :=
  match key with
  | .rsa key =>
    match key.key.primes with
    | [p, q] => do
      let dp ← orError .invalidPrivateKey values.dp
      let dq ← orError .invalidPrivateKey values.dq
      let qinv ← orError .invalidPrivateKey (values.qinv.bind Int.toNat?)
      return ⟨[toBytesBe key.key.d, toBytesBe p, toBytesBe q, toBytesBe dp, toBytesBe dq,
        toBytesBe qinv], rfl⟩
    | _ => .error .invalidPrivateKey
  | _ => .error .algorithmMismatch

/-- `SoftwareSigningKey::rsa_crt_components`. -/
def rsaCrtComponents (key : SoftwareSigningKey libraries) :
    Except SoftwareSigningError (List.Vector ByteString 5) :=
  match key with
  | .rsa key =>
    match key.key.primes with
    | [p, q] => do
      let dp ← orError .invalidPrivateKey values.dp
      let dq ← orError .invalidPrivateKey values.dq
      let qinv ← orError .invalidPrivateKey (values.qinv.bind Int.toNat?)
      return ⟨[toBytesBe p, toBytesBe q, toBytesBe dp, toBytesBe dq, toBytesBe qinv], rfl⟩
    | _ => .error .invalidPrivateKey
  | _ => .error .algorithmMismatch

variable {values}

/-- What an export holds. -/
theorem rsaCrtComponents_eq_ok_iff {key : SoftwareSigningKey libraries}
    {components : List.Vector ByteString 5} :
    key.rsaCrtComponents values = .ok components ↔
      ∃ (rsaKey : RsaKey) (p q dp dq qinv : ℕ), key = .rsa rsaKey ∧ rsaKey.key.primes = [p, q] ∧
        values.dp = some dp ∧ values.dq = some dq ∧ values.qinv = some (qinv : ℤ) ∧
        components.toList = [p, q, dp, dq, qinv].map toBytesBe := by
  constructor
  · intro hexported
    cases key with
    | rsa rsaKey =>
      unfold rsaCrtComponents at hexported
      dsimp only at hexported
      rcases hprimes : rsaKey.key.primes with - | ⟨p, - | ⟨q, - | ⟨r, rest⟩⟩⟩ <;>
        rw [hprimes] at hexported
      · cases hexported
      · cases hexported
      · obtain ⟨dp, hdp, hexported⟩ := bind_eq_ok_iff.mp hexported
        obtain ⟨dq, hdq, hexported⟩ := bind_eq_ok_iff.mp hexported
        obtain ⟨qinv, hqinv, hexported⟩ := bind_eq_ok_iff.mp hexported
        obtain ⟨value, hvalue, hnat⟩ := Option.bind_eq_some_iff.mp (orError_eq_ok_iff.mp hqinv)
        obtain rfl := pure_eq_ok_iff.mp hexported
        rw [Int.mem_toNat?.mp hnat] at hvalue
        exact ⟨rsaKey, p, q, dp, dq, qinv, rfl, hprimes, orError_eq_ok_iff.mp hdp,
          orError_eq_ok_iff.mp hdq, hvalue, rfl⟩
      · cases hexported
    | ec key => cases hexported
    | edwards key => cases hexported
    | mlDsa key => cases hexported
  · rintro ⟨rsaKey, p, q, dp, dq, qinv, rfl, hprimes, hdp, hdq, hqinv, hcomponents⟩
    unfold rsaCrtComponents
    simp only [hprimes, hdp, hdq, hqinv, orError_some, ok_bind]
    exact congrArg Except.ok (Subtype.ext hcomponents.symm)

/-- The private components are the private exponent before those of the export. -/
theorem rsaPrivateComponents_of_rsaCrtComponents {rsaKey : RsaKey}
    {components : List.Vector ByteString 5}
    (hexported : (.rsa rsaKey : SoftwareSigningKey libraries).rsaCrtComponents values =
      .ok components) :
    (.rsa rsaKey : SoftwareSigningKey libraries).rsaPrivateComponents values =
      .ok (toBytesBe rsaKey.key.d ::ᵥ components) := by
  obtain ⟨rsaKey', p, q, dp, dq, qinv, hsame, hprimes, hdp, hdq, hqinv, hcomponents⟩ :=
    rsaCrtComponents_eq_ok_iff.mp hexported
  obtain rfl := SoftwareSigningKey.rsa.inj hsame
  unfold rsaPrivateComponents
  simp only [hprimes, hdp, hdq, hqinv, orError_some, ok_bind]
  refine congrArg Except.ok (List.Vector.eq _ _ ?_)
  rw [List.Vector.toList_cons, hcomponents]
  rfl

end SoftwareSigningKey

/-! ### The operation of a token -/

/-- The private operation on a block from the exported numbers, for modulus of a size in bytes: two
powers with the reduced exponents, recombined. -/
def crtOperation (components : List.Vector ByteString 5) (size : ℕ) (encoded : ByteString) :
    Except RsaConstructionError ByteString :=
  let number (index : Fin 5) := fromBeBytes (components.get index)
  if size < encoded.length then .error .inputTooLong
  else if number 0 * number 1 ≤ fromBeBytes encoded then .error .inputOutOfRange
  else .ok (toBeBytes size
    (splitPower (number 0) (number 1) (number 2) (number 3) (number 4) (fromBeBytes encoded)))

section

variable {components : List.Vector ByteString 5} {p q dp dq qinv size : ℕ} {encoded : ByteString}

/-- The token reads the numbers that were exported. -/
theorem crtOperation_of_toList (hcomponents : components.toList = [p, q, dp, dq, qinv].map toBytesBe) :
    (fromBeBytes (components.get 0) = p ∧ fromBeBytes (components.get 1) = q) ∧
      crtOperation components size encoded =
        if size < encoded.length then .error .inputTooLong
        else if p * q ≤ fromBeBytes encoded then .error .inputOutOfRange
        else .ok (toBeBytes size (splitPower p q dp dq qinv (fromBeBytes encoded))) := by
  obtain rfl : components = ⟨[p, q, dp, dq, qinv].map toBytesBe, rfl⟩ := Subtype.ext hcomponents
  have hnumbers : ∀ value, fromBeBytes (toBytesBe value) = value := fromBeBytes_toBytesBe
  refine ⟨⟨hnumbers p, hnumbers q⟩, ?_⟩
  change (if size < encoded.length then _ else
    if fromBeBytes (toBytesBe p) * fromBeBytes (toBytesBe q) ≤ _ then _ else
      Except.ok (toBeBytes size (splitPower (fromBeBytes (toBytesBe p)) (fromBeBytes (toBytesBe q))
        (fromBeBytes (toBytesBe dp)) (fromBeBytes (toBytesBe dq)) (fromBeBytes (toBytesBe qinv))
        (fromBeBytes encoded)))) = _
  simp only [hnumbers]

/-- The private operation of a key whose operations invert each other. -/
theorem privateOperation_eq {rsaDecryptAndCheck : RsaDecryptAndCheck} {rsaEncrypt : RsaEncrypt}
    {key : RsaPrivateKey} (hinvert : OperationsInvert rsaDecryptAndCheck rsaEncrypt key)
    (encoded : ByteString) :
    privateOperation rsaDecryptAndCheck key encoded =
      if key.size < encoded.length then .error .inputTooLong
      else if key.n ≤ fromBeBytes encoded then .error .inputOutOfRange
      else .ok (toBeBytes key.size (fromBeBytes encoded ^ key.d % key.n)) := by
  split_ifs with hlong hlarge
  · exact if_pos hlong
  · exact (if_neg hlong).trans (if_pos hlarge)
  · exact (privateOperation_eq_ok_iff hinvert).mpr
      ⟨⟨not_lt.mp hlong, not_le.mp hlarge⟩, rfl⟩

end

/-- The factors of an admissible key are odd and distinct, and the private exponent is not zero
modulo their predecessors. -/
theorem reducedExponents_ne_zero {key : RsaPrivateKey} {bits p q : ℕ}
    (hadmissible : IsAdmissible key.parts bits) (hfactors : key.primes = [p, q]) (hp : p.Prime)
    (hq : q.Prime) : p ≠ q ∧ key.d % (p - 1) ≠ 0 ∧ key.d % (q - 1) ≠ 0 := by
  obtain ⟨p', q', hprimes, -, hpair, hexponents⟩ := hadmissible
  obtain ⟨rfl, rfl⟩ : p = p' ∧ q = q' := by
    have hsame := hfactors.symm.trans hprimes
    simpa using hsame
  have hone : key.d * key.e ≡ 1 [MOD Nat.lcm (p - 1) (q - 1)] := by
    have hlarge : 1 < Nat.lcm (p - 1) (q - 1) :=
      (Nat.one_le_two_pow.trans_lt hexponents.lower).trans hexponents.lt_lcm
    exact hexponents.mul_mod.trans (Nat.mod_eq_of_lt hlarge).symm
  have hpred : ∀ prime : ℕ, prime.Prime → prime % 2 = 1 → 1 < prime - 1 := by
    intro prime hprime hodd
    have htwo := hprime.two_le
    omega
  refine ⟨?_, ?_, ?_⟩
  · intro hsame
    have hfar := hpair.separated
    rw [hsame, Nat.dist_self] at hfar
    exact Nat.not_lt_zero _ hfar
  · exact mod_ne_zero_of_mul_modEq_one (hone.of_dvd (Nat.dvd_lcm_left _ _))
      (hpred p hp hpair.odd_left)
  · exact mod_ne_zero_of_mul_modEq_one (hone.of_dvd (Nat.dvd_lcm_right _ _))
      (hpred q hq hpair.odd_right)

/-- The numbers that a key exports compute its private exponent's power. -/
theorem splitPower_eq_of_areOf {key : RsaPrivateKey} {bits p q dp dq qinv : ℕ}
    {values : PrecomputedValues} (hvalues : values.AreOf key)
    (hadmissible : IsAdmissible key.parts bits) (hprimes : ∀ prime ∈ key.primes, prime.Prime)
    (hfactors : key.primes = [p, q]) (hdp : values.dp = some dp) (hdq : values.dq = some dq)
    (hqinv : values.qinv = some (qinv : ℤ)) (base : ℕ) :
    splitPower p q dp dq qinv base = base ^ key.d % key.n := by
  rw [hfactors] at hprimes
  have hp : p.Prime := hprimes p (by simp)
  have hq : q.Prime := hprimes q (by simp)
  obtain ⟨hne, hleft, hright⟩ := reducedExponents_ne_zero hadmissible hfactors hp hq
  have hinverse : qinv * q ≡ 1 [MOD p] := by
    have hmul := hvalues.qinv_mul hfactors hqinv
    exact Int.natCast_modEq_iff.mp (by exact_mod_cast hmul)
  have hn : key.n = p * q := by
    rw [← key.prod_primes, hfactors, List.prod_cons, List.prod_singleton]
  rw [hvalues.dp_eq hfactors hdp, hvalues.dq_eq hfactors hdq, hn]
  exact splitPower_eq hp hq hne hleft hright hinverse base

/-- For every key that a run of the constructors flags as validated, with prime factors: a token
with the exported numbers answers every block as the key does, the private components are the
private exponent and these numbers, and every import of the exported factors with the exponent of
the key gives the numbers of the key.

Assumes of the third-party library that its powers are powers for odd moduli and prime factors
(`ComputesPowers`) and that the values it stores beside a key are the reduced exponents and the
coefficient of the factors (`PrecomputedValues.AreOf`). That the factors are prime is a hypothesis,
since the tests that flag a key are probabilistic. No bound on the size of the key beyond that of
the validation is assumed. -/
theorem exportedComponents_exact {libraries : KeyLibraries} {σ : Type} {estimate : ℕ → ℕ}
    {crate : RsaCrate} {rsaDecryptAndCheck : RsaDecryptAndCheck} {rsaEncrypt : RsaEncrypt}
    (hpowers : ComputesPowers rsaDecryptAndCheck rsaEncrypt) {keys : List RsaKey}
    (hreachable : (admission estimate crate σ).Reachable keys) {key : RsaKey} (hkey : key ∈ keys)
    (hvalidated : key.validated = true) (hprimes : ∀ prime ∈ key.key.primes, prime.Prime)
    {values : PrecomputedValues} (hvalues : values.AreOf key.key)
    {components : List.Vector ByteString 5}
    (hexported : (.rsa key : SoftwareSigningKey libraries).rsaCrtComponents values =
      .ok components) :
    (∀ encoded, crtOperation components key.key.size encoded =
      privateOperation rsaDecryptAndCheck key.key encoded) ∧
    (.rsa key : SoftwareSigningKey libraries).rsaPrivateComponents values =
      .ok (toBytesBe key.key.d ::ᵥ components) ∧
    ∀ imported, ImportedFrom estimate crate σ (fromBeBytes (components.get 0))
      (fromBeBytes (components.get 1)) key.key.e imported → imported.key = key.key := by
  obtain ⟨call, hvalidate⟩ := forall_mem_of_reachableBy (FlagIsEarned estimate σ)
    (fun _ _ _ _ ↦ flagIsEarned_of_perform) hreachable key hkey hvalidated
  have hinvert := operationsInvert_of_validate hpowers hvalidate hprimes
  have hadmissible := isAdmissible_of_validate hvalidate
  obtain ⟨rsaKey, p, q, dp, dq, qinv, hsame, hfactors, hdp, hdq, hqinv, hcomponents⟩ :=
    SoftwareSigningKey.rsaCrtComponents_eq_ok_iff.mp hexported
  obtain rfl := SoftwareSigningKey.rsa.inj hsame
  refine ⟨fun encoded ↦ ?_,
    SoftwareSigningKey.rsaPrivateComponents_of_rsaCrtComponents hexported, fun imported himported ↦ ?_⟩
  · have hn : p * q = key.key.n := by
      rw [← key.key.prod_primes, hfactors, List.prod_cons, List.prod_singleton]
    rw [(crtOperation_of_toList hcomponents).2, privateOperation_eq hinvert,
      splitPower_eq_of_areOf hvalues hadmissible hprimes hfactors hdp hdq hqinv, hn]
  · obtain ⟨hp, hq⟩ := (@crtOperation_of_toList _ p q dp dq qinv 0 [] hcomponents).1
    rw [hp, hq] at himported
    obtain ⟨p', q', hcanonical⟩ := ValidationCall.isCanonicalKey_of_validate hvalidate
    have hsame := hfactors.symm.trans hcanonical.primes_eq
    obtain ⟨rfl, rfl⟩ : p = p' ∧ q = q' := by simpa using hsame
    exact himported.isCanonicalKey.unique hcanonical

/-- The power of the private exponent, when the public one undoes it. -/
def checkedPower : RsaDecryptAndCheck := fun key x ↦
  if (x ^ key.d % key.n) ^ key.e % key.n = x then some (x ^ key.d % key.n) else none

/-- The values of `referenceKey`. -/
def referenceValues : PrecomputedValues where
  dp := some 70410033429461801123447460936272464801402451613091332560451421525645093153451
  dq := some 57066804396255442666434398210661944169873293223886658188717051493483228605099
  qinv := some 54299263068483253408760330044074527940064602515180603923737960668082232855633

/-- The numbers that `referenceKey` exports. -/
def referenceComponents : List.Vector ByteString 5 :=
  ⟨[467 * 2 ^ 247 + 1, 757 * 2 ^ 246 + 1,
    70410033429461801123447460936272464801402451613091332560451421525645093153451,
    57066804396255442666434398210661944169873293223886658188717051493483228605099,
    54299263068483253408760330044074527940064602515180603923737960668082232855633].map toBytesBe,
    rfl⟩

/-- The values are those of the key. -/
theorem areOf_referenceValues : referenceValues.AreOf referenceKey.key := by
  have hfactors : ∀ {p q : ℕ}, referenceKey.key.primes = [p, q] →
      467 * 2 ^ 247 + 1 = p ∧ 757 * 2 ^ 246 + 1 = q := fun hprimes ↦
    ⟨(List.cons.inj hprimes).1, (List.cons.inj (List.cons.inj hprimes).2).1⟩
  refine ⟨fun hprimes hdp ↦ ?_, fun hprimes hdq ↦ ?_, fun hprimes hqinv ↦ ?_⟩
  · rw [← (hfactors hprimes).1, ← Option.some.inj hdp]
    decide +kernel
  · rw [← (hfactors hprimes).2, ← Option.some.inj hdq]
    decide +kernel
  · rw [← (hfactors hprimes).1, ← (hfactors hprimes).2, ← Option.some.inj hqinv]
    decide +kernel

/-- The export of a key that is imported by its factors. -/
theorem exportedComponents_exact_referenceKey :
    crtOperation referenceComponents 64 [5] =
        privateOperation checkedPower referenceKey.key [5] ∧
      (.rsa referenceKey : SoftwareSigningKey referenceLibraries).rsaPrivateComponents
          referenceValues = .ok (toBytesBe prothKey.d ::ᵥ referenceComponents) := by
  have himport : (admission (fun _ ↦ 14) referenceCrate Unit).step []
      (.importPrimes (467 * 2 ^ 247 + 1) (757 * 2 ^ 246 + 1) 3 referenceCall) =
        some [referenceKey] := by decide +kernel
  have hexact := @exportedComponents_exact referenceLibraries Unit (fun _ ↦ 14) referenceCrate
    checkedPower (fun key x ↦ some (x ^ key.e % key.n))
    ⟨fun _ _ _ _ hchecked ↦ if_pos hchecked, fun _ _ _ _ ↦ rfl⟩ [referenceKey]
    (.next (.start rfl) trivial himport) referenceKey List.mem_cons_self rfl
    prime_of_mem_prothKey_primes referenceValues areOf_referenceValues referenceComponents
    (by decide +kernel)
  have hblock := hexact.1 [5]
  have hsize : referenceKey.key.size = 64 := by decide +kernel
  rw [hsize] at hblock
  exact ⟨hblock, hexact.2.1⟩

end SoftwareKeyCore.SoftwareSigning
