import SoftwareKeyCore.Brainpool512.PublicArithmetic
import SoftwareKeyCore.Foundation.FallibleResult

/-!
# The verifier

`verify_prehash` of `brainpool512.rs`, for the curve parameters it contains and for any others.
`IsEcdsaSignature` is what a signature is, in terms of the group of the curve.
`verifyPrehash_eq_ok_iff` says that the verifier accepts exactly the signatures. The modular
inverse is the big-integer library's; the verifier relies on `LawfulModInverse`.
-/

set_option autoImplicit false
set_option relaxedAutoImplicit false

namespace SoftwareKeyCore.Brainpool512

open ByteString FallibleResult JacobianTriple

/-- `BrainpoolP512VerifyError`. -/
inductive BrainpoolP512VerifyError
  | brainpoolP512VerifyError
  deriving DecidableEq, Repr

/-- A curve `y ^ 2 = x ^ 3 + a * x + b` modulo `p`, the order `n` of its group, and a generator. -/
structure CurveParameters where
  p : ℕ
  a : ℕ
  b : ℕ
  n : ℕ
  generatorX : ℕ
  generatorY : ℕ
  deriving DecidableEq, Repr

/-- The constants of `verify_prehash`. -/
def brainpoolP512r1 : CurveParameters where
  p := 0xaadd9db8dbe9c48b3fd4e6ae33c9fc07cb308db3b3c9d20ed6639cca703308717d4d9b009bc66842aecda12ae6a380e62881ff2f2d82c68528aa6056583a48f3
  a := 0x7830a3318b603b89e2327145ac234cc594cbdd8d3df91610a83441caea9863bc2ded5d5aa8253aa10a2ef1c98b9ac8b57f1117a72bf2c7b9e7c1ac4d77fc94ca
  b := 0x3df91610a83441caea9863bc2ded5d5aa8253aa10a2ef1c98b9ac8b57f1117a72bf2c7b9e7c1ac4d77fc94cadc083e67984050b75ebae5dd2809bd638016f723
  n := 0xaadd9db8dbe9c48b3fd4e6ae33c9fc07cb308db3b3c9d20ed6639cca70330870553e5c414ca92619418661197fac10471db1d381085ddaddb58796829ca90069
  generatorX := 0x81aee4bdd82ed9645a21322e9c4c6a9385ed9f70b5d916c1b43b62eef4d0098eff3b1f78e2d0d48d50d1687b93b97d5f7c6d5047406a5e688b352209bcb9f822
  generatorY := 0x7dde385d566332ecc0eabfa9cf7822fdf209f70024a57b1aa000c55b881f8111b2dcde494a5f485e5bca4bd88a2763aed1ca2b2fa8f0540678cd1e0f3ad80892

/-- `COORDINATE_LENGTH`. -/
def coordinateLength : ℕ := 64

/-- `BigInt::to_biguint`. -/
def toBiguint : ℤ → Option ℕ
  | .ofNat value => some value
  | .negSucc _ => none

variable (modInverse : ℕ → ℕ → Option ℤ)

/-- `ModInverse::mod_inverse` and the conversion to an unsigned integer. -/
def modInverseUnsigned (value modulus : ℕ) : Except BrainpoolP512VerifyError ℕ :=
  orError .brainpoolP512VerifyError ((modInverse value modulus).bind toBiguint)

/-- `verify_prehash` after the checks of its arguments. -/
def verifyEquation (curve : CurveParameters) (publicPoint : PublicPoint) (digest : ByteString)
    (r s : ℕ) : Except BrainpoolP512VerifyError Unit := do
  let generator : PublicPoint := ⟨curve.generatorX, curve.generatorY, 1⟩
  let z := fromBeBytes digest
  let z := if Nat.size curve.n < digest.length * 8 then
    z >>> (digest.length * 8 - Nat.size curve.n) else z
  let w ← modInverseUnsigned modInverse s curve.n
  let point := multiplySum (z * w % curve.n) generator (r * w % curve.n) publicPoint
    curve.p curve.a
  if point.z = 0 then .error .brainpoolP512VerifyError
  else do
    let inverse ← modInverseUnsigned modInverse point.z curve.p
    let x := point.x * inverse * inverse % curve.p
    if x % curve.n = r then .ok () else .error .brainpoolP512VerifyError

/-- `verify_prehash`. -/
def verifyPrehash (curve : CurveParameters) (publicKey digest signature : ByteString) :
    Except BrainpoolP512VerifyError Unit :=
  if publicKey.length ≠ 1 + 2 * coordinateLength ∨ publicKey.head? ≠ some 0x04 ∨
      signature.length ≠ 2 * coordinateLength then
    .error .brainpoolP512VerifyError
  else
    let publicPoint : PublicPoint :=
      ⟨fromBeBytes (slice publicKey 1 64), fromBeBytes (publicKey.drop 65), 1⟩
    if curve.p ≤ publicPoint.x ∨ curve.p ≤ publicPoint.y then
      .error .brainpoolP512VerifyError
    else
      let lhs := publicPoint.y * publicPoint.y % curve.p
      let rhs := (publicPoint.x * publicPoint.x * publicPoint.x + curve.a * publicPoint.x +
        curve.b) % curve.p
      if lhs ≠ rhs then .error .brainpoolP512VerifyError
      else
        let r := fromBeBytes (signature.take coordinateLength)
        let s := fromBeBytes (signature.drop coordinateLength)
        if r = 0 ∨ curve.n ≤ r ∨ s = 0 ∨ curve.n ≤ s then .error .brainpoolP512VerifyError
        else verifyEquation modInverse curve publicPoint digest r s

/-! ### Signatures -/

/-- Curve parameters with the facts that the verifier rests on. -/
structure PrimeCurve extends CurveParameters where
  p_prime : p.Prime
  n_prime : n.Prime
  two_lt_p : 2 < p
  discriminant_ne_zero : (4 * a ^ 3 + 27 * b ^ 2) % p ≠ 0
  generatorX_lt : generatorX < p
  generatorY_lt : generatorY < p
  generator_equation : generatorY ^ 2 % p = (generatorX ^ 3 + a * generatorX + b) % p

namespace PrimeCurve

variable (curve : PrimeCurve)

instance : Fact curve.p.Prime := ⟨curve.p_prime⟩

instance : Fact curve.n.Prime := ⟨curve.n_prime⟩

/-- The group of the curve. -/
abbrev Point := (shortCurve (curve.a : ZMod curve.p) (curve.b : ZMod curve.p)).Point

theorem two_ne_zero : (2 : ZMod curve.p) ≠ 0 := by
  have htwo : ((2 : ℕ) : ZMod curve.p) ≠ 0 := by
    rw [Ne, cast_eq_zero_iff curve.two_lt_p]
    exact OfNat.ofNat_ne_zero 2
  exact_mod_cast htwo

/-- The equation of the curve, on residues. -/
theorem nonsingular_iff (x y : ℕ) :
    (shortCurve (curve.a : ZMod curve.p) (curve.b : ZMod curve.p)).Nonsingular x y ↔
      y ^ 2 % curve.p = (x ^ 3 + curve.a * x + curve.b) % curve.p := by
  have hequation : y ^ 2 % curve.p = (x ^ 3 + curve.a * x + curve.b) % curve.p ↔
      (y : ZMod curve.p) ^ 2 = (x : ZMod curve.p) ^ 3 + curve.a * x + curve.b := by
    rw [← Nat.ModEq, ← ZMod.natCast_eq_natCast_iff]
    push_cast
    rfl
  rw [hequation]
  constructor
  · exact fun hpoint ↦ (equation_shortCurve_iff _ _).mp hpoint.1
  · refine nonsingular_shortCurve curve.two_ne_zero ?_
    have hdiscriminant : ((4 * curve.a ^ 3 + 27 * curve.b ^ 2 : ℕ) : ZMod curve.p) ≠ 0 := by
      rw [Ne, ZMod.natCast_eq_zero_iff]
      exact fun hdvd ↦ curve.discriminant_ne_zero (Nat.mod_eq_zero_of_dvd hdvd)
    exact_mod_cast hdiscriminant

/-- The generator. -/
def generator : curve.Point :=
  .some (curve.generatorX : ZMod curve.p) (curve.generatorY : ZMod curve.p)
    ((curve.nonsingular_iff _ _).mpr curve.generator_equation)

end PrimeCurve

/-- The number of the leftmost bits of a digest, of all its bits when it is shorter. -/
def leftmostBits (count : ℕ) (digest : ByteString) : ℕ :=
  fromBeBytes digest / 2 ^ (digest.length * 8 - count)

/-- The leftmost bits of whole bytes are the bits of the leftmost bytes. -/
theorem leftmostBits_eq_take (count : ℕ) (digest : ByteString) :
    leftmostBits (count * 8) digest = fromBeBytes (digest.take count) := by
  have hpower : 2 ^ (digest.length * 8 - count * 8) = 256 ^ (digest.drop count).length := by
    rw [List.length_drop, ← Nat.sub_mul, Nat.mul_comm, pow_mul]
    norm_num
  have hdigest := fromBeBytes_append (digest.take count) (digest.drop count)
  rw [List.take_append_drop] at hdigest
  rw [leftmostBits, hpower, hdigest, Nat.mul_comm,
    Nat.mul_add_div (by positivity : 0 < 256 ^ (digest.drop count).length),
    Nat.div_eq_of_lt (fromBeBytes_lt _), add_zero]

/-- The byte strings are a public key, a digest and a signature of it: the point
`[z / s] G + [r / s] Q` is affine, and the residue of its first coordinate is `r`. -/
def IsEcdsaSignature (curve : PrimeCurve) (publicKey digest signature : ByteString) : Prop :=
  ∃ xBytes yBytes rBytes sBytes : ByteString,
    xBytes.length = coordinateLength ∧ yBytes.length = coordinateLength ∧
    rBytes.length = coordinateLength ∧ sBytes.length = coordinateLength ∧
    publicKey = 0x04 :: (xBytes ++ yBytes) ∧ signature = rBytes ++ sBytes ∧
    fromBeBytes xBytes < curve.p ∧ fromBeBytes yBytes < curve.p ∧
    (1 ≤ fromBeBytes rBytes ∧ fromBeBytes rBytes < curve.n) ∧
    (1 ≤ fromBeBytes sBytes ∧ fromBeBytes sBytes < curve.n) ∧
    ∃ hpublic : (shortCurve (curve.a : ZMod curve.p) (curve.b : ZMod curve.p)).Nonsingular
        (fromBeBytes xBytes) (fromBeBytes yBytes),
      ∃ x y hxy,
        ((leftmostBits (Nat.size curve.n) digest : ZMod curve.n) *
            (fromBeBytes sBytes : ZMod curve.n)⁻¹).val • curve.generator +
          ((fromBeBytes rBytes : ZMod curve.n) * (fromBeBytes sBytes : ZMod curve.n)⁻¹).val •
            (.some _ _ hpublic : curve.Point) = .some x y hxy ∧
        x.val % curve.n = fromBeBytes rBytes

/-- The inverse of a residue that has one is a residue. -/
structure LawfulModInverse : Prop where
  inverse : ∀ value modulus : ℕ, 1 < modulus → value.Coprime modulus →
    ∃ inverse : ℕ, modInverse value modulus = some (inverse : ℤ) ∧ inverse < modulus ∧
      value * inverse % modulus = 1

/-! ### Verification -/

/-- The digest is truncated to its leftmost bits. -/
theorem truncate_eq_leftmostBits (count : ℕ) (digest : ByteString) :
    (if count < digest.length * 8 then fromBeBytes digest >>> (digest.length * 8 - count)
      else fromBeBytes digest) = leftmostBits count digest := by
  unfold leftmostBits
  split_ifs with hcount
  · rw [Nat.shiftRight_eq_div_pow]
  · rw [Nat.sub_eq_zero_of_le (not_lt.mp hcount), pow_zero, Nat.div_one]

/-- The remainder of a product of representatives represents the product. -/
theorem mul_mod_eq_val {modulus value factor : ℕ} [NeZero modulus] {residue : ZMod modulus}
    (hfactor : (factor : ZMod modulus) = residue) :
    value * factor % modulus = ((value : ZMod modulus) * residue).val := by
  rw [← hfactor, ← Nat.cast_mul, ZMod.val_natCast]

/-- The first coordinate of a finite point, from the inverse of its `z`. -/
theorem x_mul_inverse_mod {p : ℕ} [Fact p.Prime] {a : ℕ} {b : ZMod p} {triple : PublicPoint}
    {x y : ZMod p} {hxy : (shortCurve (a : ZMod p) b).Nonsingular x y}
    (hpoint : IsPoint triple (.some x y hxy)) {inverse : ℕ}
    (hinverse : (inverse : ZMod p) = (triple.z : ZMod p)⁻¹) :
    triple.x * inverse * inverse % p = x.val := by
  obtain ⟨hz, hx, -⟩ := hpoint.represents
  have hx : (triple.x : ZMod p) = x * (triple.z : ZMod p) ^ 2 := hx
  have hz : (triple.z : ZMod p) ≠ 0 := hz
  have hcast : ((triple.x * inverse * inverse : ℕ) : ZMod p) = x := by
    push_cast
    rw [hx, hinverse]
    field_simp
  rw [← hcast, ZMod.val_natCast]

variable {modInverse} (hmodInverse : LawfulModInverse modInverse)
include hmodInverse

/-- The inverse modulo a prime is the inverse in the field. -/
theorem modInverseUnsigned_eq_ok {value modulus : ℕ} [Fact modulus.Prime]
    (hvalue : (value : ZMod modulus) ≠ 0) :
    ∃ inverse : ℕ, modInverseUnsigned modInverse value modulus = .ok inverse ∧
      (inverse : ZMod modulus) = (value : ZMod modulus)⁻¹ := by
  have hprime := (Fact.out : modulus.Prime)
  have hcoprime : value.Coprime modulus := by
    rw [Nat.coprime_comm, hprime.coprime_iff_not_dvd, ← ZMod.natCast_eq_zero_iff]
    exact hvalue
  obtain ⟨inverse, hresult, -, hinverse⟩ :=
    hmodInverse.inverse value modulus hprime.one_lt hcoprime
  refine ⟨inverse, ?_, ?_⟩
  · rw [modInverseUnsigned, orError_eq_ok_iff, hresult]
    rfl
  · have hproduct : (value : ZMod modulus) * inverse = 1 := by
      have hcast : ((value * inverse % modulus : ℕ) : ZMod modulus) = 1 := by
        rw [hinverse, Nat.cast_one]
      rw [ZMod.natCast_mod, Nat.cast_mul] at hcast
      exact hcast
    exact eq_inv_of_mul_eq_one_right hproduct

/-- After the checks of its arguments the verifier decides the equation of the signature. -/
theorem verifyEquation_eq_ok_iff (curve : PrimeCurve) {x y r s : ℕ} (digest : ByteString)
    (hx : x < curve.p) (hy : y < curve.p) (hs : 1 ≤ s ∧ s < curve.n)
    (hpublic : (shortCurve (curve.a : ZMod curve.p) (curve.b : ZMod curve.p)).Nonsingular x y) :
    verifyEquation modInverse curve.toCurveParameters ⟨x, y, 1⟩ digest r s = .ok () ↔
      ∃ x' y' hxy',
        ((leftmostBits (Nat.size curve.n) digest : ZMod curve.n) *
            (s : ZMod curve.n)⁻¹).val • curve.generator +
          ((r : ZMod curve.n) * (s : ZMod curve.n)⁻¹).val •
            (.some _ _ hpublic : curve.Point) = .some x' y' hxy' ∧
        x'.val % curve.n = r := by
  have hsne : (s : ZMod curve.n) ≠ 0 := by
    rw [Ne, cast_eq_zero_iff hs.2]
    omega
  obtain ⟨w, hw, hwinv⟩ := modInverseUnsigned_eq_ok hmodInverse hsne
  have hgenerator : IsPoint ⟨curve.generatorX, curve.generatorY, 1⟩ curve.generator :=
    isPoint_affine curve.generatorX_lt curve.generatorY_lt _
  have hpoint := isPoint_multiplySum curve.two_ne_zero hgenerator (isPoint_affine hx hy hpublic)
    (leftmostBits (Nat.size curve.n) digest * w % curve.n) (r * w % curve.n)
  unfold verifyEquation
  dsimp only
  rw [truncate_eq_leftmostBits, hw, ← mul_mod_eq_val hwinv, ← mul_mod_eq_val hwinv]
  simp only [bind, Except.bind]
  generalize (leftmostBits (Nat.size curve.n) digest * w % curve.n) • curve.generator +
    (r * w % curve.n) • (.some _ _ hpublic : curve.Point) = sum at hpoint ⊢
  generalize multiplySum (leftmostBits (Nat.size curve.n) digest * w % curve.n)
    ⟨curve.generatorX, curve.generatorY, 1⟩ (r * w % curve.n) ⟨x, y, 1⟩ curve.p curve.a = point
      at hpoint ⊢
  cases sum with
  | zero =>
    rw [if_pos (hpoint.z_eq_zero_iff.mpr rfl)]
    constructor
    · intro habsurd
      cases habsurd
    · rintro ⟨x', y', hxy', habsurd, -⟩
      cases habsurd
  | some x' y' hxy' =>
    have hzne : ¬ point.z = 0 := by
      rw [hpoint.z_eq_zero_iff]
      exact WeierstrassCurve.Affine.Point.some_ne_zero hxy'
    obtain ⟨inverse, hinverse, hzinv⟩ :=
      modInverseUnsigned_eq_ok hmodInverse hpoint.represents.1
    rw [if_neg hzne, hinverse]
    dsimp only
    rw [x_mul_inverse_mod hpoint hzinv, ite_ok_eq_ok_iff]
    constructor
    · exact fun hr ↦ ⟨x', y', hxy', rfl, hr⟩
    · rintro ⟨x'', y'', hxy'', hsame, hr⟩
      obtain ⟨rfl, rfl⟩ := WeierstrassCurve.Affine.Point.some.inj hsame
      exact hr

omit hmodInverse in
/-- The public key is checked to be uncompressed and cut in its halves. -/
theorem publicKey_format_iff (publicKey : ByteString) :
    publicKey.length = 1 + 2 * coordinateLength ∧ publicKey.head? = some 0x04 ↔
      ∃ xBytes yBytes : ByteString, xBytes.length = coordinateLength ∧
        yBytes.length = coordinateLength ∧ publicKey = 0x04 :: (xBytes ++ yBytes) := by
  constructor
  · rintro ⟨hlength, hhead⟩
    cases publicKey with
    | nil => cases hhead
    | cons byte bytes =>
      obtain rfl := Option.some.inj hhead
      rw [List.length_cons] at hlength
      refine ⟨bytes.take coordinateLength, bytes.drop coordinateLength, ?_, ?_, ?_⟩
      · rw [List.length_take]
        omega
      · rw [List.length_drop]
        omega
      · rw [List.take_append_drop]
  · rintro ⟨xBytes, yBytes, hx, hy, rfl⟩
    refine ⟨?_, rfl⟩
    rw [List.length_cons, List.length_append, hx, hy]
    rfl

omit hmodInverse in
theorem signature_format_iff (signature : ByteString) :
    signature.length = 2 * coordinateLength ↔
      ∃ rBytes sBytes : ByteString, rBytes.length = coordinateLength ∧
        sBytes.length = coordinateLength ∧ signature = rBytes ++ sBytes := by
  constructor
  · intro hlength
    refine ⟨signature.take coordinateLength, signature.drop coordinateLength, ?_, ?_, ?_⟩
    · rw [List.length_take]
      omega
    · rw [List.length_drop]
      omega
    · rw [List.take_append_drop]
  · rintro ⟨rBytes, sBytes, hr, hs, rfl⟩
    rw [List.length_append, hr, hs, two_mul]

omit hmodInverse in
theorem slice_publicKey {xBytes yBytes : ByteString} (hx : xBytes.length = coordinateLength) :
    slice (0x04 :: (xBytes ++ yBytes)) 1 64 = xBytes := by
  rw [slice, List.drop_succ_cons, List.drop_zero]
  exact List.take_left' hx

omit hmodInverse in
theorem drop_publicKey {xBytes yBytes : ByteString} (hx : xBytes.length = coordinateLength) :
    (0x04 :: (xBytes ++ yBytes)).drop 65 = yBytes := by
  rw [List.drop_succ_cons]
  exact List.drop_left' hx

omit hmodInverse in
/-- The checks of the arguments. -/
theorem verifyPrehash_eq_ok_iff_verifyEquation (curve : PrimeCurve)
    (publicKey digest signature : ByteString) :
    verifyPrehash modInverse curve.toCurveParameters publicKey digest signature = .ok () ↔
      ∃ xBytes yBytes rBytes sBytes : ByteString,
        xBytes.length = coordinateLength ∧ yBytes.length = coordinateLength ∧
        rBytes.length = coordinateLength ∧ sBytes.length = coordinateLength ∧
        publicKey = 0x04 :: (xBytes ++ yBytes) ∧ signature = rBytes ++ sBytes ∧
        fromBeBytes xBytes < curve.p ∧ fromBeBytes yBytes < curve.p ∧
        (1 ≤ fromBeBytes rBytes ∧ fromBeBytes rBytes < curve.n) ∧
        (1 ≤ fromBeBytes sBytes ∧ fromBeBytes sBytes < curve.n) ∧
        (shortCurve (curve.a : ZMod curve.p) (curve.b : ZMod curve.p)).Nonsingular
          (fromBeBytes xBytes) (fromBeBytes yBytes) ∧
        verifyEquation modInverse curve.toCurveParameters
          ⟨fromBeBytes xBytes, fromBeBytes yBytes, 1⟩ digest (fromBeBytes rBytes)
          (fromBeBytes sBytes) = .ok () := by
  have hcurve : ∀ x y : ℕ,
      (shortCurve (curve.a : ZMod curve.p) (curve.b : ZMod curve.p)).Nonsingular x y ↔
        y * y % curve.p = (x * x * x + curve.a * x + curve.b) % curve.p := by
    intro x y
    rw [curve.nonsingular_iff, sq, pow_succ, sq]
  unfold verifyPrehash
  dsimp only
  rw [ite_error_eq_ok_iff, ite_error_eq_ok_iff, ite_error_eq_ok_iff, ite_error_eq_ok_iff]
  push Not
  constructor
  · rintro ⟨⟨hlength, hhead, hsignature⟩, ⟨hx, hy⟩, hequation, ⟨hr, hrn, hs, hsn⟩, hverify⟩
    obtain ⟨xBytes, yBytes, hxl, hyl, rfl⟩ := (publicKey_format_iff publicKey).mp ⟨hlength, hhead⟩
    obtain ⟨rBytes, sBytes, hrl, hsl, rfl⟩ := (signature_format_iff signature).mp hsignature
    rw [slice_publicKey hxl] at hx hequation hverify
    rw [drop_publicKey hxl] at hy hequation hverify
    rw [List.take_left' hrl] at hr hrn hverify
    rw [List.drop_left' hrl] at hs hsn hverify
    exact ⟨xBytes, yBytes, rBytes, sBytes, hxl, hyl, hrl, hsl, rfl, rfl, hx, hy,
      ⟨Nat.one_le_iff_ne_zero.mpr hr, hrn⟩, ⟨Nat.one_le_iff_ne_zero.mpr hs, hsn⟩,
      (hcurve _ _).mpr hequation, hverify⟩
  · rintro ⟨xBytes, yBytes, rBytes, sBytes, hxl, hyl, hrl, hsl, rfl, rfl, hx, hy, ⟨hr, hrn⟩,
      ⟨hs, hsn⟩, hpublic, hverify⟩
    obtain ⟨hlength, hhead⟩ :=
      (publicKey_format_iff (0x04 :: (xBytes ++ yBytes))).mpr ⟨xBytes, yBytes, hxl, hyl, rfl⟩
    have hsignature := (signature_format_iff (rBytes ++ sBytes)).mpr
      ⟨rBytes, sBytes, hrl, hsl, rfl⟩
    rw [slice_publicKey hxl, drop_publicKey hxl, List.take_left' hrl, List.drop_left' hrl]
    exact ⟨⟨hlength, hhead, hsignature⟩, ⟨hx, hy⟩, (hcurve _ _).mp hpublic,
      ⟨Nat.one_le_iff_ne_zero.mp hr, hrn, Nat.one_le_iff_ne_zero.mp hs, hsn⟩, hverify⟩

/-- The verifier accepts exactly the signatures, on every curve and for every lawful inverse.

Assumes that the modulus and the order are prime, that the curve is not singular and that the
generator is on it (`PrimeCurve`), and that the third-party inverse inverts what is coprime to
its modulus (`LawfulModInverse`). -/
theorem verifyPrehash_eq_ok_iff (curve : PrimeCurve) (publicKey digest signature : ByteString) :
    verifyPrehash modInverse curve.toCurveParameters publicKey digest signature = .ok () ↔
      IsEcdsaSignature curve publicKey digest signature := by
  rw [verifyPrehash_eq_ok_iff_verifyEquation]
  unfold IsEcdsaSignature
  constructor
  · rintro ⟨xBytes, yBytes, rBytes, sBytes, hxl, hyl, hrl, hsl, hkey, hsignature, hx, hy, hr, hs,
      hpublic, hverify⟩
    exact ⟨xBytes, yBytes, rBytes, sBytes, hxl, hyl, hrl, hsl, hkey, hsignature, hx, hy, hr, hs,
      hpublic, (verifyEquation_eq_ok_iff hmodInverse curve digest hx hy hs hpublic).mp hverify⟩
  · rintro ⟨xBytes, yBytes, rBytes, sBytes, hxl, hyl, hrl, hsl, hkey, hsignature, hx, hy, hr, hs,
      hpublic, hequation⟩
    exact ⟨xBytes, yBytes, rBytes, sBytes, hxl, hyl, hrl, hsl, hkey, hsignature, hx, hy, hr, hs,
      hpublic, (verifyEquation_eq_ok_iff hmodInverse curve digest hx hy hs hpublic).mpr hequation⟩

omit hmodInverse in
/-- The constants of the source are the parameters of a curve, over any proof that both moduli
are prime. -/
def brainpoolCurve (hp : brainpoolP512r1.p.Prime) (hn : brainpoolP512r1.n.Prime) : PrimeCurve where
  toCurveParameters := brainpoolP512r1
  p_prime := hp
  n_prime := hn
  two_lt_p := by decide +kernel
  discriminant_ne_zero := by decide +kernel
  generatorX_lt := by decide +kernel
  generatorY_lt := by decide +kernel
  generator_equation := by decide +kernel

omit hmodInverse in
/-- On this curve the leftmost bits of a digest are its first 64 bytes. -/
theorem leftmostBits_brainpoolP512r1 (digest : ByteString) :
    leftmostBits (Nat.size brainpoolP512r1.n) digest = fromBeBytes (digest.take 64) := by
  have hsize : Nat.size brainpoolP512r1.n = 64 * 8 := by
    apply le_antisymm
    · rw [Nat.size_le]
      decide +kernel
    · rw [← Nat.lt_iff_add_one_le, Nat.lt_size]
      decide +kernel
  rw [hsize, leftmostBits_eq_take]

omit hmodInverse in
/-- The first inverse that a search finds. -/
def searchInverse (value modulus : ℕ) : Option ℤ :=
  ((List.range modulus).find? fun inverse ↦ value * inverse % modulus == 1).map Int.ofNat

omit hmodInverse in
theorem lawfulModInverse_searchInverse : LawfulModInverse searchInverse where
  inverse value modulus hmodulus hcoprime := by
    obtain ⟨inverse, hlt, hinverse⟩ := Nat.exists_mul_mod_eq_one_of_coprime hcoprime hmodulus
    have hsome : ((List.range modulus).find? fun inverse ↦
        value * inverse % modulus == 1).isSome := by
      rw [List.find?_isSome]
      exact ⟨inverse, List.mem_range.mpr hlt, beq_iff_eq.mpr hinverse⟩
    obtain ⟨found, hfound⟩ := Option.isSome_iff_exists.mp hsome
    have hequation : (value * found % modulus == 1) = true := by
      simpa using List.find?_some hfound
    refine ⟨found, ?_, ?_, ?_⟩
    · rw [searchInverse, hfound]
      rfl
    · exact List.mem_range.mp (List.mem_of_find?_eq_some hfound)
    · exact beq_iff_eq.mp hequation

omit hmodInverse in
/-- The curve `y ^ 2 = x ^ 3 + 2 * x + 2` modulo 17, of order 19. -/
def smallCurve : PrimeCurve where
  p := 17
  a := 2
  b := 2
  n := 19
  generatorX := 5
  generatorY := 1
  p_prime := by norm_num
  n_prime := by norm_num
  two_lt_p := by decide
  discriminant_ne_zero := by decide
  generatorX_lt := by decide
  generatorY_lt := by decide
  generator_equation := by decide

omit hmodInverse in
/-- A signature on the small curve: of the digest `0x30`, under the public key `(0, 6)`. -/
theorem isEcdsaSignature_smallCurve :
    IsEcdsaSignature smallCurve (0x04 :: (toBeBytes 64 0 ++ toBeBytes 64 6)) [0x30]
      (toBeBytes 64 7 ++ toBeBytes 64 4) :=
  (verifyPrehash_eq_ok_iff lawfulModInverse_searchInverse smallCurve _ _ _).mp
    (by decide +kernel)

end SoftwareKeyCore.Brainpool512
