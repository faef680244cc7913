import SoftwareKeyCore.Foundation.TransitionSystem
import SoftwareKeyCore.RsaKeys.PublicKey
import SoftwareKeyCore.RsaValidation.PrivateKey
import SoftwareKeyCore.SoftwareSigning.KeyIdentity

/-!
# Admission of private RSA keys

`rsa_keys.rs`: all constructors of `RsaKey`, over the validation of `rsa_private_validation.rs`.
The third-party crate has the operations of `RsaLibrary` and three more (`RsaCrate`); a call of the
validation draws on the operating system's random source in some state (`ValidationCall`). The
keys of a program are the states of a transition system whose events are calls of the constructors
(`admission`).

`mem_or_validates_of_perform` is what one call does: a key that it returns flagged as validated was
there, or the validation that the call made returned `Ok` on it. `hasPassed_of_run` carries it over
runs: one of the calls of the run has admitted each flagged key (`HasPassed`). `ImportedFrom` says
that a key was imported from two factors and an exponent, in one of the forms that carry them;
`ImportedFrom.isCanonicalKey` says that the key is the one of these numbers, whatever private
exponent came with them.
-/

set_option autoImplicit false
set_option relaxedAutoImplicit false

namespace SoftwareKeyCore.RsaKeys

open ByteString FallibleResult RsaPrivateValidation RsaPublicKey RsaValidation TransitionSystem

/-- The numbers of a key that the validation reads. -/
def RsaPrivateKey.parts (key : RsaPrivateKey) : PrivateKeyParts :=
  ⟨key.n, key.e, key.d, key.primes⟩

/-! ### The implementation -/

/-- The crate: the operations of the library and those of the other constructors. A key of two
primes has them in their order, and a key of components has their exponent and their primes, when
there are any. -/
structure RsaCrate where
  library : RsaLibrary
  fromPkcs1Der : ByteString → Option RsaPrivateKey
  fromComponents : (n e d : ℕ) → (primes : List ℕ) → Option RsaPrivateKey
  publicKeyChecks : PublicKeyChecks
  fromPq_primes : ∀ {p q e key}, library.fromPq p q e = some key → key.primes = [p, q]
  fromComponents_eq : ∀ {n e d primes key}, fromComponents n e d primes = some key →
    key.e = e ∧ (primes ≠ [] → key.primes = primes)

/-- What one call of the validation draws on: the operating system's random source in a state,
and the outcomes of the blinded decryption. -/
structure ValidationCall (σ : Type) where
  osRng : RandomSource σ
  state : σ
  rsaDecryptAndCheck : PrivateKeyParts → ℕ → Option ℕ

section

variable {σ : Type} (estimate : ℕ → ℕ)

/-- The result of `validate_rsa_private_key` on a call; it never panics. -/
def ValidationCall.validate (call : ValidationCall σ) (key : RsaPrivateKey) (bits : ℕ) :
    Except RsaPrivateValidationError Unit :=
  ((Panicking.answer (validateRsaPrivateKey estimate call.rsaDecryptAndCheck call.osRng key.parts
    bits call.state)).get (Option.isSome_iff_ne_none.mpr
      (safe_validateWithRng call.state).answer_ne_none)).map fun _ ↦ ()

/-- The library with the validation on a call. -/
def RsaCrate.onCall (crate : RsaCrate) (call : ValidationCall σ) : RsaLibrary :=
  { crate.library with validateRsaPrivateKey := call.validate estimate }

/-! ### The constructors -/

/-- `RsaKey::generate_with_rng`, for an outcome of `RsaPrivateKey::new`. -/
def generateWithRng (rsa : RsaLibrary) (generated : Option RsaPrivateKey) (bits : ℕ) :
    Except RsaPrivateValidationError RsaKey := do
  let _ ← orError .invalidPrivateKey (validationStrength estimate bits)
  let generated ← orError .randomnessUnavailable generated
  finishImport estimate rsa generated

/-- `RsaKey::restore_primes`. -/
def restorePrimes (rsa : RsaLibrary) (p q e : ℕ) : Except RsaPrivateValidationError RsaKey :=
  if maxRsaBits / 2 < Nat.size p ∨ maxRsaBits / 2 < Nat.size q then .error .invalidPrivateKey
  else do
    let key ← orError .invalidPrivateKey (rsa.fromPq p q e)
    return { key := key, validated := false }

/-- `RsaKey::import_primes`. -/
def importPrimes (rsa : RsaLibrary) (p q exponent : ℕ) :
    Except RsaPrivateValidationError RsaKey := do
  let restored ← restorePrimes rsa p q exponent
  admitNormalized rsa restored.key

/-- `RsaKey::import_components`. -/
def importComponents (crate : RsaCrate) (rsa : RsaLibrary) (n e d : ℕ) (primes : List ℕ) :
    Except RsaPrivateValidationError RsaKey := do
  let _ ← orError .invalidPrivateKey (validationStrength estimate (Nat.size n))
  if 256 < Nat.size e ∨ Nat.size n < Nat.size d ∨ primes.length = 1 ∨ 2 < primes.length ∨
      primes.any (fun p ↦ decide (Nat.size n < Nat.size p)) then .error .invalidPrivateKey
  else do
    let _ ← orError .invalidPrivateKey (newWithMaxSize crate.publicKeyChecks n e maxRsaBits)
    let key ← orError .invalidPrivateKey (crate.fromComponents n e d primes)
    finishImport estimate rsa key

/-- `RsaKey::restore_pkcs1`. -/
def restorePkcs1 (crate : RsaCrate) (encoded : ByteString) :
    Except RsaPrivateValidationError RsaKey := do
  let key ← orError .invalidPrivateKey (crate.fromPkcs1Der encoded)
  return { key := key, validated := false }

/-- `RsaKey::clone`. -/
def RsaKey.clone (key : RsaKey) : RsaKey :=
  { key := key.key, validated := key.validated }

/-- `RsaKey::validate_for_import`. -/
def RsaKey.validateForImport (rsa : RsaLibrary) (key : RsaKey) :
    Except RsaPrivateValidationError RsaKey :=
  if key.validated then .ok key.clone else finishImport estimate rsa key.key

/-! ### Runs of constructors -/

/-- A call of a constructor; a key that is there already is called by its position. -/
inductive Operation (σ : Type)
  | generateWithRng (generated : Option RsaPrivateKey) (bits : ℕ) (call : ValidationCall σ)
  | importPrimes (p q exponent : ℕ) (call : ValidationCall σ)
  | importComponents (n e d : ℕ) (primes : List ℕ) (call : ValidationCall σ)
  | importPkcs8 (encoded : ByteString) (call : ValidationCall σ)
  | validateForImport (position : ℕ) (call : ValidationCall σ)
  | restorePrimes (p q e : ℕ)
  | restorePkcs8 (encoded : ByteString)
  | restorePkcs1 (encoded : ByteString)
  | clone (position : ℕ)

/-- What the validation of the call draws on, for a constructor that validates. -/
def Operation.validationCall : Operation σ → Option (ValidationCall σ)
  | .generateWithRng _ _ call | .importPrimes _ _ _ call | .importComponents _ _ _ _ call
  | .importPkcs8 _ call | .validateForImport _ call => some call
  | .restorePrimes _ _ _ | .restorePkcs8 _ | .restorePkcs1 _ | .clone _ => none

/-- The restorations and the clones. -/
def Operation.IsTrusted : Operation σ → Prop
  | .restorePrimes _ _ _ | .restorePkcs8 _ | .restorePkcs1 _ | .clone _ => True
  | _ => False

/-- The result of a call, when the key it is a call of is there. -/
def perform (crate : RsaCrate) (keys : List RsaKey) :
    Operation σ → Option (Except RsaPrivateValidationError RsaKey)
  | .generateWithRng generated bits call =>
    some (generateWithRng estimate (crate.onCall estimate call) generated bits)
  | .importPrimes p q exponent call =>
    some (importPrimes (crate.onCall estimate call) p q exponent)
  | .importComponents n e d primes call =>
    some (importComponents estimate crate (crate.onCall estimate call) n e d primes)
  | .importPkcs8 encoded call =>
    some (importPkcs8 estimate (crate.onCall estimate call) encoded)
  | .validateForImport position call =>
    keys[position]?.map (RsaKey.validateForImport estimate (crate.onCall estimate call))
  | .restorePrimes p q e => some (restorePrimes crate.library p q e)
  | .restorePkcs8 encoded => some (restorePkcs8 crate.library encoded)
  | .restorePkcs1 encoded => some (restorePkcs1 crate encoded)
  | .clone position => keys[position]?.map fun key ↦ .ok key.clone

/-- The keys after a call. -/
def keysAfter (keys : List RsaKey) : Except RsaPrivateValidationError RsaKey → List RsaKey
  | .ok key => keys ++ [key]
  | .error _ => keys

/-- A program that starts without keys and calls the constructors. -/
def admission (crate : RsaCrate) (σ : Type) : TransitionSystem (List RsaKey) (Operation σ) where
  Initial keys := keys = []
  step keys operation := (perform estimate crate keys operation).map (keysAfter keys)

end

/-! ### What a constructor establishes -/

/-- A key of two factors and an exponent whose private exponent is the canonical inverse of the
exponent modulo the least common multiple of the predecessors of the factors. -/
structure IsCanonicalKey (p q e : ℕ) (key : RsaPrivateKey) : Prop where
  primes_eq : key.primes = [p, q]
  n_eq : key.n = p * q
  e_eq : key.e = e
  d_lt : key.d < Nat.lcm (p - 1) (q - 1)
  mul_mod : key.d * e % Nat.lcm (p - 1) (q - 1) = 1

/-- Two canonical keys of the same numbers are the same. -/
theorem IsCanonicalKey.unique {p q e : ℕ} {key key' : RsaPrivateKey}
    (hkey : IsCanonicalKey p q e key) (hkey' : IsCanonicalKey p q e key') : key = key' := by
  have hcoprime : (Nat.lcm (p - 1) (q - 1)).Coprime e := by
    have hone : Nat.gcd (key.d * e % Nat.lcm (p - 1) (q - 1)) (Nat.lcm (p - 1) (q - 1)) = 1 := by
      rw [hkey.mul_mod, Nat.gcd_one_left]
    rw [← Nat.gcd_rec, ← Nat.Coprime] at hone
    exact (hone.coprime_mul_left_right)
  have hd : key.d = key'.d := by
    have hproduct : key.d * e ≡ key'.d * e [MOD Nat.lcm (p - 1) (q - 1)] := by
      rw [Nat.ModEq, hkey.mul_mod, hkey'.mul_mod]
    have hcancel := Nat.ModEq.cancel_right_of_coprime hcoprime hproduct
    exact hcancel.eq_of_lt_of_lt hkey.d_lt hkey'.d_lt
  obtain ⟨n, e₁, d, primes, hprod⟩ := key
  obtain ⟨n', e₂, d', primes', hprod'⟩ := key'
  have hn := hkey.n_eq.trans hkey'.n_eq.symm
  have he := hkey.e_eq.trans hkey'.e_eq.symm
  have hprimes := hkey.primes_eq.trans hkey'.primes_eq.symm
  dsimp only at hn he hd hprimes
  subst hn he hd hprimes
  rfl

section

variable {σ : Type} {estimate : ℕ → ℕ} {crate : RsaCrate} {call : ValidationCall σ}

/-- A key that passes the validation is the canonical key of its factors and its exponent. -/
theorem ValidationCall.isCanonicalKey_of_validate {key : RsaPrivateKey} {bits : ℕ}
    (hvalidate : call.validate estimate key bits = .ok ()) :
    ∃ p q, IsCanonicalKey p q key.e key := by
  obtain ⟨result, hresult, -⟩ := map_eq_ok_iff.mp hvalidate
  have hanswer : Panicking.answer (validateRsaPrivateKey estimate call.rsaDecryptAndCheck call.osRng
      key.parts bits call.state) = some (.ok result) := by
    rw [← hresult, Option.some_get]
  obtain ⟨p, q, hprimes, -, hfactors, hexponents⟩ :=
    (safe_validateWithRng call.state).of_answer_eq_ok hanswer
  exact ⟨p, q, hprimes, hfactors.mul_eq.symm, rfl, hexponents.lt_lcm, hexponents.mul_mod⟩

/-- An admitted key is flagged, and it has passed the validation. -/
theorem admitNormalized_eq_ok_iff {rsa : RsaLibrary} {key : RsaPrivateKey} {admitted : RsaKey} :
    admitNormalized rsa key = .ok admitted ↔
      rsa.validateRsaPrivateKey key key.bits = .ok () ∧ admitted = ⟨key, true⟩ := by
  unfold admitNormalized
  rw [bind_eq_ok_iff]
  constructor
  · rintro ⟨⟨⟩, hvalidate, hadmitted⟩
    exact ⟨hvalidate, (pure_eq_ok_iff.mp hadmitted).symm⟩
  · rintro ⟨hvalidate, rfl⟩
    exact ⟨(), hvalidate, rfl⟩

/-- An import makes the key of the two factors and the exponent anew and admits it. -/
theorem finishImport_eq_ok_admit {rsa : RsaLibrary} {key : RsaPrivateKey} {imported : RsaKey}
    (himported : finishImport estimate rsa key = .ok imported) :
    ∃ p q normalized, key.primes = [p, q] ∧ rsa.fromPq p q key.e = some normalized ∧
      admitNormalized rsa normalized = .ok imported := by
  obtain ⟨-, -, himported⟩ := bind_eq_ok_iff.mp himported
  split at himported
  · rename_i p q hprimes
    obtain ⟨normalized, hnormalized, himported⟩ := bind_eq_ok_iff.mp himported
    obtain ⟨⟨⟩, -, himported⟩ := bind_eq_ok_iff.mp himported
    exact ⟨p, q, normalized, hprimes, orError_eq_ok_iff.mp hnormalized, himported⟩
  · cases himported

theorem restorePrimes_eq_ok {rsa : RsaLibrary} {p q e : ℕ} {restored : RsaKey}
    (hrestored : restorePrimes rsa p q e = .ok restored) :
    rsa.fromPq p q e = some restored.key ∧ restored.validated = false := by
  obtain ⟨-, hrestored⟩ := ite_error_eq_ok_iff.mp hrestored
  obtain ⟨key, hkey, hrestored⟩ := bind_eq_ok_iff.mp hrestored
  obtain rfl := pure_eq_ok_iff.mp hrestored
  exact ⟨orError_eq_ok_iff.mp hkey, rfl⟩

theorem importPrimes_eq_ok {rsa : RsaLibrary} {p q e : ℕ} {imported : RsaKey}
    (himported : importPrimes rsa p q e = .ok imported) :
    ∃ normalized, rsa.fromPq p q e = some normalized ∧
      admitNormalized rsa normalized = .ok imported := by
  obtain ⟨restored, hrestored, himported⟩ := bind_eq_ok_iff.mp himported
  exact ⟨restored.key, (restorePrimes_eq_ok hrestored).1, himported⟩

theorem importComponents_eq_ok {rsa : RsaLibrary} {n e d : ℕ} {primes : List ℕ}
    {imported : RsaKey}
    (himported : importComponents estimate crate rsa n e d primes = .ok imported) :
    ∃ key, crate.fromComponents n e d primes = some key ∧
      finishImport estimate rsa key = .ok imported := by
  obtain ⟨-, -, himported⟩ := bind_eq_ok_iff.mp himported
  obtain ⟨-, himported⟩ := ite_error_eq_ok_iff.mp himported
  obtain ⟨-, -, himported⟩ := bind_eq_ok_iff.mp himported
  obtain ⟨key, hkey, himported⟩ := bind_eq_ok_iff.mp himported
  exact ⟨key, orError_eq_ok_iff.mp hkey, himported⟩

theorem restorePkcs1_eq_ok {encoded : ByteString} {restored : RsaKey}
    (hrestored : restorePkcs1 crate encoded = .ok restored) : restored.validated = false := by
  obtain ⟨key, -, hrestored⟩ := bind_eq_ok_iff.mp hrestored
  exact (congrArg RsaKey.validated (pure_eq_ok_iff.mp hrestored)).symm

/-! ### Runs -/

theorem validates_of_admitNormalized {key : RsaPrivateKey} {admitted : RsaKey}
    (hadmitted : admitNormalized (crate.onCall estimate call) key = .ok admitted) :
    call.validate estimate admitted.key admitted.key.bits = .ok () := by
  obtain ⟨hvalidate, rfl⟩ := admitNormalized_eq_ok_iff.mp hadmitted
  exact hvalidate

theorem validates_of_finishImport {key : RsaPrivateKey} {imported : RsaKey}
    (himported : finishImport estimate (crate.onCall estimate call) key = .ok imported) :
    call.validate estimate imported.key imported.key.bits = .ok () := by
  obtain ⟨-, -, normalized, -, -, hadmitted⟩ := finishImport_eq_ok_admit himported
  exact validates_of_admitNormalized hadmitted

/-- A key that a call returns flagged was there, or the validation of the call returned `Ok` on
it. -/
theorem mem_or_validates_of_perform {keys : List RsaKey} {operation : Operation σ} {key : RsaKey}
    (hkey : perform estimate crate keys operation = some (.ok key))
    (hvalidated : key.validated = true) :
    key ∈ keys ∨ ∃ call, operation.validationCall = some call ∧
      call.validate estimate key.key key.key.bits = .ok () := by
  have hunflagged : key.validated = false → False := by
    rw [hvalidated]
    exact fun habsurd ↦ nomatch habsurd
  cases operation with
  | generateWithRng generated bits call =>
    obtain ⟨-, -, hkey⟩ := bind_eq_ok_iff.mp (Option.some.inj hkey)
    obtain ⟨generated, -, hkey⟩ := bind_eq_ok_iff.mp hkey
    exact Or.inr ⟨call, rfl, validates_of_finishImport hkey⟩
  | importPrimes p q exponent call =>
    obtain ⟨normalized, -, hadmitted⟩ := importPrimes_eq_ok (Option.some.inj hkey)
    exact Or.inr ⟨call, rfl, validates_of_admitNormalized hadmitted⟩
  | importComponents n e d primes call =>
    obtain ⟨decoded, -, himported⟩ := importComponents_eq_ok (Option.some.inj hkey)
    exact Or.inr ⟨call, rfl, validates_of_finishImport himported⟩
  | importPkcs8 encoded call =>
    obtain ⟨decoded, -, himported⟩ := importPkcs8_eq_ok_iff.mp (Option.some.inj hkey)
    exact Or.inr ⟨call, rfl, validates_of_finishImport himported⟩
  | validateForImport position call =>
    obtain ⟨existing, hexisting, hkey⟩ := Option.map_eq_some_iff.mp hkey
    unfold RsaKey.validateForImport at hkey
    split_ifs at hkey with hflag
    · obtain rfl := Except.ok.inj hkey
      exact Or.inl (List.mem_of_getElem? hexisting)
    · exact Or.inr ⟨call, rfl, validates_of_finishImport hkey⟩
  | restorePrimes p q e =>
    exact (hunflagged (restorePrimes_eq_ok (Option.some.inj hkey)).2).elim
  | restorePkcs8 encoded =>
    exact (hunflagged (restorePkcs8_eq_ok_iff.mp (Option.some.inj hkey)).2).elim
  | restorePkcs1 encoded =>
    exact (hunflagged (restorePkcs1_eq_ok (Option.some.inj hkey))).elim
  | clone position =>
    obtain ⟨existing, hexisting, hkey⟩ := Option.map_eq_some_iff.mp hkey
    obtain rfl := Except.ok.inj hkey
    exact Or.inl (List.mem_of_getElem? hexisting)

/-- One of the calls of a run returned the key, and the validation that this call made returned `Ok`
on it. -/
def HasPassed (estimate : ℕ → ℕ) (crate : RsaCrate) (start : List RsaKey)
    (operations : List (Operation σ)) (key : RsaKey) : Prop :=
  ∃ earlier operation later keys call, operations = earlier ++ operation :: later ∧
    (admission estimate crate σ).run start earlier = some keys ∧
    perform estimate crate keys operation = some (.ok key) ∧
    operation.validationCall = some call ∧ call.validate estimate key.key key.key.bits = .ok ()

/-- The flagged keys after a run were there before, or a call of the run has admitted them. -/
theorem hasPassed_of_run {start keys : List RsaKey} {operations : List (Operation σ)}
    (hrun : (admission estimate crate σ).run start operations = some keys) {key : RsaKey}
    (hkey : key ∈ keys) (hvalidated : key.validated = true) :
    key ∈ start ∨ HasPassed estimate crate start operations key := by
  induction operations generalizing start with
  | nil =>
    obtain rfl := Option.some.inj hrun
    exact Or.inl hkey
  | cons operation operations ih =>
    obtain ⟨middle, hstep, hrest⟩ := run_cons.mp hrun
    rcases ih hrest with hmiddle | ⟨earlier, admitting, later, before, call, rfl, hearlier, hpassed⟩
    · obtain ⟨outcome, houtcome, rfl⟩ := Option.map_eq_some_iff.mp hstep
      cases outcome with
      | error error => exact Or.inl hmiddle
      | ok new =>
        rcases List.mem_append.mp hmiddle with hbefore | hnew
        · exact Or.inl hbefore
        · obtain rfl := List.mem_singleton.mp hnew
          rcases mem_or_validates_of_perform houtcome hvalidated with
            hbefore | ⟨call, hcall, hvalidates⟩
          · exact Or.inl hbefore
          · exact Or.inr ⟨[], operation, operations, start, call, rfl, rfl, houtcome, hcall,
              hvalidates⟩
    · exact Or.inr ⟨operation :: earlier, admitting, later, before, call, rfl,
        run_cons.mpr ⟨middle, hstep, hearlier⟩, hpassed⟩

/-- A key flagged as validated is one on which the validation returns `Ok`. -/
def FlagIsEarned (estimate : ℕ → ℕ) (σ : Type) (key : RsaKey) : Prop :=
  key.validated = true →
    ∃ call : ValidationCall σ, call.validate estimate key.key key.key.bits = .ok ()

/-- The result of a call has earned its flag when the keys that are there have. -/
theorem flagIsEarned_of_perform {keys : List RsaKey} {operation : Operation σ} {key : RsaKey}
    (hkeys : ∀ key ∈ keys, FlagIsEarned estimate σ key)
    (hkey : perform estimate crate keys operation = some (.ok key)) :
    FlagIsEarned estimate σ key := by
  intro hvalidated
  rcases mem_or_validates_of_perform hkey hvalidated with hbefore | ⟨call, -, hvalidates⟩
  · exact hkeys key hbefore hvalidated
  · exact ⟨call, hvalidates⟩

/-- A restoration or a clone of an unflagged key is not flagged. -/
theorem validated_eq_false_of_perform {keys : List RsaKey} {operation : Operation σ}
    {key : RsaKey} (htrusted : operation.IsTrusted)
    (hkeys : ∀ key ∈ keys, key.validated = false)
    (hkey : perform estimate crate keys operation = some (.ok key)) : key.validated = false := by
  cases operation with
  | generateWithRng | importPrimes | importComponents | importPkcs8 | validateForImport =>
    exact htrusted.elim
  | restorePrimes p q e => exact (restorePrimes_eq_ok (Option.some.inj hkey)).2
  | restorePkcs8 encoded => exact (restorePkcs8_eq_ok_iff.mp (Option.some.inj hkey)).2
  | restorePkcs1 encoded => exact restorePkcs1_eq_ok (Option.some.inj hkey)
  | clone position =>
    obtain ⟨existing, hexisting, hkey⟩ := Option.map_eq_some_iff.mp hkey
    obtain rfl := Except.ok.inj hkey
    exact hkeys existing (List.mem_of_getElem? hexisting)

/-- What a call keeps of its result and of the keys that are there holds of all keys of a run. -/
theorem forall_mem_of_reachableBy {allowed : List RsaKey → Operation σ → Prop}
    (property : RsaKey → Prop)
    (hperform : ∀ keys operation key, allowed keys operation → (∀ key ∈ keys, property key) →
      perform estimate crate keys operation = some (.ok key) → property key)
    {keys : List RsaKey} (hreachable : (admission estimate crate σ).ReachableBy allowed keys) :
    ∀ key ∈ keys, property key := by
  refine hreachable.invariant (fun keys ↦ ∀ key ∈ keys, property key) ?_ ?_
  · rintro keys rfl key hkey
    exact absurd hkey List.not_mem_nil
  · intro keys operation keys' _ hallowed hkeys hstep
    obtain ⟨outcome, houtcome, rfl⟩ := Option.map_eq_some_iff.mp hstep
    cases outcome with
    | error error => exact hkeys
    | ok key =>
      intro existing hexisting
      rcases List.mem_append.mp hexisting with hbefore | hnew
      · exact hkeys existing hbefore
      · rw [List.mem_singleton.mp hnew]
        exact hperform keys operation key hallowed hkeys houtcome

/-! ### What an import depends on -/

/-- An import of two factors and an exponent, in one of the forms that carry them: by themselves,
as components with their factors or with the factors the crate recovers, and in an encoding. -/
inductive ImportedFrom (estimate : ℕ → ℕ) (crate : RsaCrate) (σ : Type) (p q e : ℕ) :
    RsaKey → Prop
  | primes {call : ValidationCall σ} {key : RsaKey}
      (hkey : importPrimes (crate.onCall estimate call) p q e = .ok key) :
      ImportedFrom estimate crate σ p q e key
  | components {call : ValidationCall σ} {n d : ℕ} {key : RsaKey}
      (hkey : importComponents estimate crate (crate.onCall estimate call) n e d [p, q] = .ok key) :
      ImportedFrom estimate crate σ p q e key
  | recovered {call : ValidationCall σ} {n d : ℕ} {decoded : RsaPrivateKey} {key : RsaKey}
      (hdecoded : crate.fromComponents n e d [] = some decoded) (hprimes : decoded.primes = [p, q])
      (hkey : importComponents estimate crate (crate.onCall estimate call) n e d [] = .ok key) :
      ImportedFrom estimate crate σ p q e key
  | pkcs8 {call : ValidationCall σ} {encoded : ByteString} {decoded : RsaPrivateKey} {key : RsaKey}
      (hdecoded : crate.library.fromPkcs8Der encoded = some decoded)
      (hprimes : decoded.primes = [p, q]) (hexponent : decoded.e = e)
      (hkey : importPkcs8 estimate (crate.onCall estimate call) encoded = .ok key) :
      ImportedFrom estimate crate σ p q e key

/-- Admitting the key of two factors and an exponent gives their canonical key. -/
theorem isCanonicalKey_of_admitNormalized {p q e : ℕ} {normalized : RsaPrivateKey} {key : RsaKey}
    (hnormalized : crate.library.fromPq p q e = some normalized)
    (hadmitted : admitNormalized (crate.onCall estimate call) normalized = .ok key) :
    IsCanonicalKey p q e key.key := by
  obtain ⟨hvalidate, rfl⟩ := admitNormalized_eq_ok_iff.mp hadmitted
  obtain ⟨p', q', hcanonical⟩ := ValidationCall.isCanonicalKey_of_validate hvalidate
  have hprimes := crate.fromPq_primes hnormalized
  have hexponent := (crate.library.fromPq_eq hnormalized).2
  rw [hcanonical.primes_eq, List.cons.injEq, List.cons.injEq] at hprimes
  obtain ⟨rfl, rfl, -⟩ := hprimes
  rwa [hexponent] at hcanonical

theorem isCanonicalKey_of_finishImport {p q : ℕ} {decoded : RsaPrivateKey} {key : RsaKey}
    (hprimes : decoded.primes = [p, q])
    (himported : finishImport estimate (crate.onCall estimate call) decoded = .ok key) :
    IsCanonicalKey p q decoded.e key.key := by
  obtain ⟨p', q', normalized, hprimes', hnormalized, hadmitted⟩ :=
    finishImport_eq_ok_admit himported
  rw [hprimes, List.cons.injEq, List.cons.injEq] at hprimes'
  obtain ⟨rfl, rfl, -⟩ := hprimes'
  exact isCanonicalKey_of_admitNormalized hnormalized hadmitted

/-- An import gives the canonical key of the factors and the exponent. -/
theorem ImportedFrom.isCanonicalKey {p q e : ℕ} {key : RsaKey}
    (himported : ImportedFrom estimate crate σ p q e key) : IsCanonicalKey p q e key.key := by
  cases himported with
  | primes hkey =>
    obtain ⟨normalized, hnormalized, hadmitted⟩ := importPrimes_eq_ok hkey
    exact isCanonicalKey_of_admitNormalized hnormalized hadmitted
  | components hkey =>
    obtain ⟨decoded, hdecoded, hfinished⟩ := importComponents_eq_ok hkey
    obtain ⟨hexponent, hprimes⟩ := crate.fromComponents_eq hdecoded
    rw [← hexponent]
    exact isCanonicalKey_of_finishImport (hprimes (List.cons_ne_nil _ _)) hfinished
  | recovered hdecoded hprimes hkey =>
    obtain ⟨decoded', hdecoded', hfinished⟩ := importComponents_eq_ok hkey
    obtain rfl := Option.some.inj (hdecoded.symm.trans hdecoded')
    rw [← (crate.fromComponents_eq hdecoded).1]
    exact isCanonicalKey_of_finishImport hprimes hfinished
  | pkcs8 hdecoded hprimes hexponent hkey =>
    obtain ⟨decoded', hdecoded', hfinished⟩ := importPkcs8_eq_ok_iff.mp hkey
    obtain rfl := Option.some.inj (hdecoded.symm.trans hdecoded')
    rw [← hexponent]
    exact isCanonicalKey_of_finishImport hprimes hfinished

end

/-- The admission invariant, for every crate and every run: a key flagged as validated was returned
by a call of the run whose own validation returned `Ok` on it, and is the canonical key of its
numbers; restorations and clones alone flag no key; and an import depends on the factors and the
exponent only. -/
theorem admission_invariant (estimate : ℕ → ℕ) (crate : RsaCrate) (σ : Type) :
    (∀ (operations : List (Operation σ)) keys,
      (admission estimate crate σ).run [] operations = some keys →
        ∀ key ∈ keys, key.validated = true →
          HasPassed estimate crate [] operations key ∧
            ∃ p q, IsCanonicalKey p q key.key.e key.key) ∧
    (∀ keys, (admission estimate crate σ).ReachableBy (fun _ operation ↦ operation.IsTrusted) keys →
      ∀ key ∈ keys, key.validated = false) ∧
    ∀ p q e key key', ImportedFrom estimate crate σ p q e key →
      ImportedFrom estimate crate σ p q e key' →
        IsCanonicalKey p q e key.key ∧ key.key = key'.key := by
  refine ⟨?_, ?_, ?_⟩
  · intro operations keys hrun key hkey hvalidated
    have hpassed := (hasPassed_of_run hrun hkey hvalidated).resolve_left List.not_mem_nil
    obtain ⟨-, -, -, -, call, -, -, -, -, hvalidates⟩ := id hpassed
    exact ⟨hpassed, ValidationCall.isCanonicalKey_of_validate hvalidates⟩
  · intro keys hreachable
    exact forall_mem_of_reachableBy (fun key ↦ key.validated = false)
      (fun _ _ _ ↦ validated_eq_false_of_perform) hreachable
  · intro p q e key key' hkey hkey'
    exact ⟨hkey.isCanonicalKey, hkey.isCanonicalKey.unique hkey'.isCanonicalKey⟩

/-! ### A crate that satisfies the laws -/

/-- The inverse of a number modulo another: the multiple plus one that the number divides. -/
def inverseModulo (number modulus : ℕ) : Option ℕ :=
  ((List.range number).find? fun multiple ↦ (multiple * modulus + 1) % number = 0).map
    fun multiple ↦ (multiple * modulus + 1) / number

/-- Keys by their codes, made of two factors with the inverse of the exponent modulo the least
common multiple of the predecessors of the factors. -/
def referenceCrate : RsaCrate where
  library :=
    { SoftwareSigning.referenceRsa with
      fromPq := fun p q e ↦ (inverseModulo e (Nat.lcm (p - 1) (q - 1))).map
        (.ofFactors p q e ·)
      fromPq_eq := by
        intro p q e key hkey
        obtain ⟨d, -, rfl⟩ := Option.map_eq_some_iff.mp hkey
        exact ⟨rfl, rfl⟩ }
  fromPkcs1Der := SoftwareSigning.decodeBytes RsaPrivateKey
  fromComponents n e d primes :=
    if hprimes : primes.prod = n then some ⟨n, e, d, primes, hprimes⟩ else none
  publicKeyChecks n e := decide (2 ≤ e ∧ n % 2 = 1)
  fromPq_primes hkey := by
    obtain ⟨d, -, rfl⟩ := Option.map_eq_some_iff.mp hkey
    rfl
  fromComponents_eq := by
    intro n e d primes key hkey
    split_ifs at hkey
    obtain rfl := Option.some.inj hkey
    exact ⟨rfl, fun _ ↦ rfl⟩

/-- A call whose bases are all two. -/
def referenceCall : ValidationCall Unit where
  osRng := twoSource
  state := ()
  rsaDecryptAndCheck key ciphertext := some (ModularPower.modpow ciphertext key.d key.n)

/-- The key of `prothKey`. -/
def referenceKey : RsaKey where
  key := ⟨prothKey.n, prothKey.e, prothKey.d, prothKey.primes, by decide +kernel⟩
  validated := true

/-- The key is imported by its factors and as components with a larger private exponent, and it is
restored. -/
theorem admission_invariant_referenceKey :
    (HasPassed (fun _ ↦ 14) referenceCrate []
        [.importPrimes (467 * 2 ^ 247 + 1) (757 * 2 ^ 246 + 1) 3 referenceCall] referenceKey ∧
      ∃ p q, IsCanonicalKey p q referenceKey.key.e referenceKey.key) ∧
    (⟨referenceKey.key, false⟩ : RsaKey).validated = false ∧
    IsCanonicalKey (467 * 2 ^ 247 + 1) (757 * 2 ^ 246 + 1) 3 referenceKey.key ∧
      referenceKey.key = referenceKey.key := by
  have hprimes : importPrimes (referenceCrate.onCall (fun _ ↦ 14) referenceCall)
      (467 * 2 ^ 247 + 1) (757 * 2 ^ 246 + 1) 3 = .ok referenceKey := by decide +kernel
  have hcomponents : importComponents (fun _ ↦ 14) referenceCrate
      (referenceCrate.onCall (fun _ ↦ 14) referenceCall) prothKey.n 3
      (prothKey.d + Nat.lcm (467 * 2 ^ 247) (757 * 2 ^ 246))
      [467 * 2 ^ 247 + 1, 757 * 2 ^ 246 + 1] = .ok referenceKey := by decide +kernel
  have himport : (admission (fun _ ↦ 14) referenceCrate Unit).step []
      (.importPrimes (467 * 2 ^ 247 + 1) (757 * 2 ^ 246 + 1) 3 referenceCall) =
        some [referenceKey] :=
    congrArg (fun outcome ↦ some (keysAfter [] outcome)) hprimes
  have hrestore : (admission (fun _ ↦ 14) referenceCrate Unit).step []
      (.restorePrimes (467 * 2 ^ 247 + 1) (757 * 2 ^ 246 + 1) 3) =
        some [⟨referenceKey.key, false⟩] := by decide +kernel
  refine ⟨?_, ?_, ?_⟩
  · exact (admission_invariant (fun _ ↦ 14) referenceCrate Unit).1 _ [referenceKey]
      (run_cons.mpr ⟨_, himport, rfl⟩) referenceKey List.mem_cons_self rfl
  · refine (admission_invariant (fun _ ↦ 14) referenceCrate Unit).2.1 [⟨referenceKey.key, false⟩]
      (.next (.start rfl) ?_ hrestore) _ List.mem_cons_self
    exact trivial
  · exact (admission_invariant (fun _ ↦ 14) referenceCrate Unit).2.2 _ _ 3 referenceKey referenceKey
      (.primes hprimes) (.components hcomponents)

end SoftwareKeyCore.RsaKeys
