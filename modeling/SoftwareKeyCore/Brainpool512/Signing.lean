import SoftwareKeyCore.Brainpool512.Verify
import SoftwareKeyCore.Foundation.EcdsaEquation

/-!
# The signatures of a private scalar

`verify_prehash` of `brainpool512.rs` against the signer: under the public key of a private scalar
the verifier accepts exactly the signatures that the scalar makes with some nonce
(`IsSignedWith`), and each of them with one nonce only. The implementation does not normalize `s`,
and the verifier accepts a signature with `n - s` as well. Assumes that the order kills the
generator, which `order_nsmul_generator_iff` decides by the verifier's own arithmetic
(`order_brainpoolP512r1` for the constants of the source).
-/

set_option autoImplicit false
set_option relaxedAutoImplicit false

namespace SoftwareKeyCore.Brainpool512

open ByteString EcdsaEquation FallibleResult JacobianTriple

/-! ### The order of the generator -/

/-- The order kills the generator when the arithmetic of the verifier says so. -/
theorem order_nsmul_generator_iff (curve : PrimeCurve) :
    curve.n • curve.generator = 0 ↔
      (multiplySum curve.n ⟨curve.generatorX, curve.generatorY, 1⟩ 0
        ⟨curve.generatorX, curve.generatorY, 1⟩ curve.p curve.a).z = 0 := by
  have hgenerator : IsPoint ⟨curve.generatorX, curve.generatorY, 1⟩ curve.generator :=
    isPoint_affine curve.generatorX_lt curve.generatorY_lt _
  have hpoint := isPoint_multiplySum curve.two_ne_zero hgenerator hgenerator curve.n 0
  rw [zero_nsmul, add_zero] at hpoint
  exact hpoint.z_eq_zero_iff.symm

/-- The order of the source kills the generator of the source. -/
theorem order_brainpoolP512r1 (hp : brainpoolP512r1.p.Prime) (hn : brainpoolP512r1.n.Prime) :
    (brainpoolCurve hp hn).n • (brainpoolCurve hp hn).generator = 0 := by
  rw [order_nsmul_generator_iff]
  change (multiplySum brainpoolP512r1.n
    ⟨brainpoolP512r1.generatorX, brainpoolP512r1.generatorY, 1⟩ 0
    ⟨brainpoolP512r1.generatorX, brainpoolP512r1.generatorY, 1⟩ brainpoolP512r1.p
    brainpoolP512r1.a).z = 0
  decide +kernel

/-! ### The signer -/

/-- The byte string is the uncompressed public key of the private scalar. -/
def IsPublicKeyOf (curve : PrimeCurve) (secret : ℕ) (publicKey : ByteString) : Prop :=
  ∃ x y hxy, secret • curve.generator = .some x y hxy ∧
    publicKey = 0x04 :: (toBeBytes coordinateLength x.val ++ toBeBytes coordinateLength y.val)

/-- The private scalar makes the signature of the digest with the nonce. -/
structure IsSignedWith (curve : PrimeCurve) (secret nonce : ℕ) (digest : ByteString) (r s : ℕ) :
    Prop where
  nonce_lt : nonce < curve.n
  residue : ∃ x y hxy, nonce • curve.generator = .some x y hxy ∧ x.val % curve.n = r
  mul_nonce : s * nonce % curve.n =
    (leftmostBits (Nat.size curve.n) digest + r * secret) % curve.n

/-- The residue of the first coordinate of a finite point. -/
def pointResidue (curve : PrimeCurve) : curve.Point → Option (ZMod curve.n)
  | .zero => none
  | .some x _ _ => some (x.val : ZMod curve.n)

section

variable {curve : PrimeCurve}

theorem pointResidue_eq_some_iff {point : curve.Point} {r : ℕ} (hr : r < curve.n) :
    pointResidue curve point = some (r : ZMod curve.n) ↔
      ∃ x y hxy, point = .some x y hxy ∧ x.val % curve.n = r := by
  have hresidue : ∀ x : ZMod curve.p, ((x.val : ℕ) : ZMod curve.n) = r ↔ x.val % curve.n = r := by
    intro x
    rw [ZMod.natCast_eq_natCast_iff, Nat.ModEq, Nat.mod_eq_of_lt hr]
  cases point with
  | zero =>
    refine iff_of_false (fun habsurd ↦ nomatch habsurd) ?_
    rintro ⟨x, y, hxy, habsurd, -⟩
    cases habsurd
  | some x y hxy =>
    rw [pointResidue, Option.some.injEq, hresidue]
    constructor
    · exact fun hr ↦ ⟨x, y, hxy, rfl, hr⟩
    · rintro ⟨x', y', hxy', hsame, hr⟩
      obtain ⟨rfl, rfl⟩ := WeierstrassCurve.Affine.Point.some.inj hsame
      exact hr

/-- Opposite points have the same first coordinate. -/
theorem pointResidue_neg (point : curve.Point) :
    pointResidue curve (-point) = pointResidue curve point := by
  cases point with
  | zero => rfl
  | some x y hxy => rfl

/-- The signer over residues and over numbers. -/
theorem isMadeWith_iff_isSignedWith {secret r s : ℕ} (hr : r < curve.n) (digest : ByteString)
    (nonce : ZMod curve.n) :
    IsMadeWith (pointResidue curve) curve.generator (secret : ZMod curve.n) nonce
        (leftmostBits (Nat.size curve.n) digest) r s ↔
      IsSignedWith curve secret nonce.val digest r s := by
  have hequation : (s : ZMod curve.n) * nonce =
      (leftmostBits (Nat.size curve.n) digest : ZMod curve.n) + r * secret ↔
        s * nonce.val % curve.n =
          (leftmostBits (Nat.size curve.n) digest + r * secret) % curve.n := by
    rw [← Nat.ModEq, ← ZMod.natCast_eq_natCast_iff]
    push_cast
    rw [ZMod.natCast_val, ZMod.cast_id]
  constructor
  · rintro ⟨hresidue, hnonce⟩
    exact ⟨ZMod.val_lt nonce, (pointResidue_eq_some_iff hr).mp hresidue, hequation.mp hnonce⟩
  · rintro ⟨-, hresidue, hnonce⟩
    exact ⟨(pointResidue_eq_some_iff hr).mpr hresidue, hequation.mpr hnonce⟩

/-- One nonce as a residue is one nonce as a number. -/
theorem existsUnique_isMadeWith_iff {secret r s : ℕ} (hr : r < curve.n) (digest : ByteString) :
    (∃! nonce : ZMod curve.n, IsMadeWith (pointResidue curve) curve.generator
        (secret : ZMod curve.n) nonce (leftmostBits (Nat.size curve.n) digest) r s) ↔
      ∃! nonce, IsSignedWith curve secret nonce digest r s := by
  simp only [isMadeWith_iff_isSignedWith hr]
  constructor
  · rintro ⟨nonce, hsigned, hunique⟩
    refine ⟨nonce.val, hsigned, fun other hother ↦ ?_⟩
    have hval : (other : ZMod curve.n).val = other := ZMod.val_cast_of_lt hother.nonce_lt
    have hother' : IsSignedWith curve secret (other : ZMod curve.n).val digest r s := by
      rw [hval]
      exact hother
    rw [← hunique other hother', hval]
  · rintro ⟨nonce, hsigned, hunique⟩
    have hval : (nonce : ZMod curve.n).val = nonce := ZMod.val_cast_of_lt hsigned.nonce_lt
    have hsigned' : IsSignedWith curve secret (nonce : ZMod curve.n).val digest r s := by
      rw [hval]
      exact hsigned
    refine ⟨nonce, hsigned', fun other hother ↦ ?_⟩
    rw [← hunique _ hother, ZMod.natCast_val, ZMod.cast_id]

end

/-! ### The verifier against the signer -/

section

variable {modInverse : ℕ → ℕ → Option ℤ} (hmodInverse : LawfulModInverse modInverse)
  {curve : PrimeCurve} (hp : curve.p < 256 ^ coordinateLength)
include hmodInverse hp

/-- The verifier decides the equation of the signature under a public key that is a point. -/
theorem verifyPrehash_eq_ok_iff_accepts {x y : ZMod curve.p} (hxy) {r s : ℕ}
    (hr : r < 256 ^ coordinateLength) (hs : s < 256 ^ coordinateLength) (digest : ByteString) :
    verifyPrehash modInverse curve.toCurveParameters
        (0x04 :: (toBeBytes coordinateLength x.val ++ toBeBytes coordinateLength y.val)) digest
        (toBeBytes coordinateLength r ++ toBeBytes coordinateLength s) = .ok () ↔
      (1 ≤ r ∧ r < curve.n) ∧ (1 ≤ s ∧ s < curve.n) ∧
        Accepts (pointResidue curve) curve.generator (.some x y hxy)
          (leftmostBits (Nat.size curve.n) digest) r s := by
  have hx := ZMod.val_lt x
  have hy := ZMod.val_lt y
  have hxBytes : fromBeBytes (toBeBytes coordinateLength x.val) = x.val :=
    fromBeBytes_toBeBytes_of_lt (hx.trans hp)
  have hyBytes : fromBeBytes (toBeBytes coordinateLength y.val) = y.val :=
    fromBeBytes_toBeBytes_of_lt (hy.trans hp)
  have hrBytes : fromBeBytes (toBeBytes coordinateLength r) = r := fromBeBytes_toBeBytes_of_lt hr
  have hsBytes : fromBeBytes (toBeBytes coordinateLength s) = s := fromBeBytes_toBeBytes_of_lt hs
  have hxCast : ((x.val : ℕ) : ZMod curve.p) = x := by rw [ZMod.natCast_val, ZMod.cast_id]
  have hyCast : ((y.val : ℕ) : ZMod curve.p) = y := by rw [ZMod.natCast_val, ZMod.cast_id]
  have hpublic : (shortCurve (curve.a : ZMod curve.p) (curve.b : ZMod curve.p)).Nonsingular
      (x.val : ℕ) (y.val : ℕ) := by
    rw [hxCast, hyCast]
    exact hxy
  have hpoint : (.some _ _ hpublic : curve.Point) = .some x y hxy :=
    WeierstrassCurve.Affine.Point.some.injEq .. |>.mpr ⟨hxCast, hyCast⟩
  have hverify : ∀ (hrange : r < curve.n) (hsrange : 1 ≤ s ∧ s < curve.n),
      verifyEquation modInverse curve.toCurveParameters ⟨x.val, y.val, 1⟩ digest r s = .ok () ↔
        Accepts (pointResidue curve) curve.generator (.some x y hxy)
          (leftmostBits (Nat.size curve.n) digest) r s := by
    intro hrange hsrange
    rw [verifyEquation_eq_ok_iff hmodInverse curve digest hx hy hsrange hpublic, hpoint]
    exact (pointResidue_eq_some_iff hrange).symm
  rw [verifyPrehash_eq_ok_iff_verifyEquation]
  constructor
  · rintro ⟨xBytes, yBytes, rBytes, sBytes, hxl, hyl, hrl, hsl, hkey, hsignature, -, -, hrange,
      hsrange, -, haccepted⟩
    obtain ⟨rfl, rfl⟩ := List.append_inj (List.cons.inj hkey).2
      ((length_toBeBytes _ _).trans hxl.symm)
    obtain ⟨rfl, rfl⟩ := List.append_inj hsignature ((length_toBeBytes _ _).trans hrl.symm)
    rw [hrBytes] at hrange haccepted
    rw [hsBytes] at hsrange haccepted
    rw [hxBytes, hyBytes] at haccepted
    exact ⟨hrange, hsrange, (hverify hrange.2 hsrange).mp haccepted⟩
  · rintro ⟨hrange, hsrange, haccepted⟩
    refine ⟨_, _, _, _, length_toBeBytes _ x.val, length_toBeBytes _ y.val, length_toBeBytes _ r,
      length_toBeBytes _ s, rfl, rfl, ?_⟩
    rw [hxBytes, hyBytes, hrBytes, hsBytes]
    exact ⟨hx, hy, hrange, hsrange, hpublic, (hverify hrange.2 hsrange).mpr haccepted⟩

/-- Under the public key of a private scalar the verifier accepts what the scalar signs with some
nonce, and with one only. -/
theorem verifyPrehash_eq_ok_iff_isSignedWith (hn : curve.n < 256 ^ coordinateLength)
    (horder : curve.n • curve.generator = 0) {secret : ℕ} {publicKey : ByteString}
    (hkey : IsPublicKeyOf curve secret publicKey) (digest signature : ByteString) :
    verifyPrehash modInverse curve.toCurveParameters publicKey digest signature = .ok () ↔
      ∃ r s, signature = toBeBytes coordinateLength r ++ toBeBytes coordinateLength s ∧
        (1 ≤ r ∧ r < curve.n) ∧ (1 ≤ s ∧ s < curve.n) ∧
        ∃! nonce, IsSignedWith curve secret nonce digest r s := by
  obtain ⟨x, y, hxy, hsecret, rfl⟩ := hkey
  have haccepts : ∀ r s : ℕ, r < curve.n → (1 ≤ s ∧ s < curve.n) →
      (Accepts (pointResidue curve) curve.generator (.some x y hxy)
          (leftmostBits (Nat.size curve.n) digest) r s ↔
        ∃! nonce, IsSignedWith curve secret nonce digest r s) := by
    intro r s hr hs
    have hsne : (s : ZMod curve.n) ≠ 0 := by
      rw [Ne, cast_eq_zero_iff hs.2]
      omega
    rw [← hsecret, ← val_natCast_nsmul horder secret, accepts_iff_existsUnique_nonce horder hsne,
      existsUnique_isMadeWith_iff hr]
  constructor
  · intro haccepted
    obtain ⟨-, -, rBytes, sBytes, -, -, hrl, hsl, -, rfl, -⟩ :=
      (verifyPrehash_eq_ok_iff_verifyEquation curve _ digest signature).mp haccepted
    have hr : toBeBytes coordinateLength (fromBeBytes rBytes) = rBytes := by
      rw [← hrl, toBeBytes_fromBeBytes]
    have hs : toBeBytes coordinateLength (fromBeBytes sBytes) = sBytes := by
      rw [← hsl, toBeBytes_fromBeBytes]
    have hrlt : fromBeBytes rBytes < 256 ^ coordinateLength := hrl ▸ fromBeBytes_lt rBytes
    have hslt : fromBeBytes sBytes < 256 ^ coordinateLength := hsl ▸ fromBeBytes_lt sBytes
    rw [← hr, ← hs, verifyPrehash_eq_ok_iff_accepts hmodInverse hp hxy hrlt hslt]
      at haccepted
    obtain ⟨hrange, hsrange, haccepted⟩ := haccepted
    exact ⟨_, _, by rw [hr, hs], hrange, hsrange,
      (haccepts _ _ hrange.2 hsrange).mp haccepted⟩
  · rintro ⟨r, s, rfl, hrange, hsrange, hsigned⟩
    exact (verifyPrehash_eq_ok_iff_accepts hmodInverse hp hxy (hrange.2.trans hn)
      (hsrange.2.trans hn) digest).mpr
        ⟨hrange, hsrange, (haccepts r s hrange.2 hsrange).mpr hsigned⟩

/-- The verifier accepts a signature with `n - s` as it does with `s`. -/
theorem verifyPrehash_eq_ok_iff_opposite (hn : curve.n < 256 ^ coordinateLength)
    (horder : curve.n • curve.generator = 0) {secret : ℕ} {publicKey : ByteString}
    (hkey : IsPublicKeyOf curve secret publicKey) (digest : ByteString) {r s : ℕ}
    (hr : r < 256 ^ coordinateLength) (hs : s ≤ curve.n) :
    verifyPrehash modInverse curve.toCurveParameters publicKey digest
        (toBeBytes coordinateLength r ++ toBeBytes coordinateLength (curve.n - s)) = .ok () ↔
      verifyPrehash modInverse curve.toCurveParameters publicKey digest
        (toBeBytes coordinateLength r ++ toBeBytes coordinateLength s) = .ok () := by
  obtain ⟨x, y, hxy, hsecret, rfl⟩ := hkey
  have hpublic : curve.n • (.some x y hxy : curve.Point) = 0 := by
    rw [← hsecret, ← mul_nsmul, mul_comm, mul_nsmul, horder, nsmul_zero]
  have hopposite : ((curve.n - s : ℕ) : ZMod curve.n) = -s := by
    rw [Nat.cast_sub hs, ZMod.natCast_self, zero_sub]
  rw [verifyPrehash_eq_ok_iff_accepts hmodInverse hp hxy hr
      (((Nat.sub_le _ _).trans_lt hn)), verifyPrehash_eq_ok_iff_accepts hmodInverse hp hxy
      hr (hs.trans_lt hn), hopposite, accepts_neg_iff horder pointResidue_neg hpublic]
  have hrange : 1 ≤ curve.n - s ∧ curve.n - s < curve.n ↔ 1 ≤ s ∧ s < curve.n := by
    have hpositive := curve.n_prime.pos
    omega
  rw [hrange]

end

/-- On every curve whose order kills the generator, for every private scalar: under its public key
the verifier accepts exactly the signatures that the scalar makes with a nonce, each of them with
one, and with `n - s` in the place of `s` whenever with `s`.

Assumes that the modulus and the order fit in a coordinate, as those of the curve of the source
do, and a lawful inverse (`LawfulModInverse`). -/
theorem verifyPrehash_accepts_signer {modInverse : ℕ → ℕ → Option ℤ}
    (hmodInverse : LawfulModInverse modInverse) {curve : PrimeCurve}
    (hp : curve.p < 256 ^ coordinateLength) (hn : curve.n < 256 ^ coordinateLength)
    (horder : curve.n • curve.generator = 0) {secret : ℕ} {publicKey : ByteString}
    (hkey : IsPublicKeyOf curve secret publicKey) (digest : ByteString) :
    (∀ signature,
      verifyPrehash modInverse curve.toCurveParameters publicKey digest signature = .ok () ↔
        ∃ r s, signature = toBeBytes coordinateLength r ++ toBeBytes coordinateLength s ∧
          (1 ≤ r ∧ r < curve.n) ∧ (1 ≤ s ∧ s < curve.n) ∧
          ∃! nonce, IsSignedWith curve secret nonce digest r s) ∧
    ∀ r s, r < 256 ^ coordinateLength → s ≤ curve.n →
      (verifyPrehash modInverse curve.toCurveParameters publicKey digest
          (toBeBytes coordinateLength r ++ toBeBytes coordinateLength (curve.n - s)) = .ok () ↔
        verifyPrehash modInverse curve.toCurveParameters publicKey digest
          (toBeBytes coordinateLength r ++ toBeBytes coordinateLength s) = .ok ()) :=
  ⟨verifyPrehash_eq_ok_iff_isSignedWith hmodInverse hp hn horder hkey digest,
    fun _ _ hr hs ↦ verifyPrehash_eq_ok_iff_opposite hmodInverse hp hn horder hkey digest hr hs⟩

/-- On the small curve the public key of the scalar 1 is the generator, and `(10, 18)` is a signature
of it. -/
theorem verifyPrehash_accepts_signer_smallCurve :
    ∃ r s, toBeBytes 64 10 ++ toBeBytes 64 18 =
        toBeBytes coordinateLength r ++ toBeBytes coordinateLength s ∧
      (1 ≤ r ∧ r < smallCurve.n) ∧ (1 ≤ s ∧ s < smallCurve.n) ∧
      ∃! nonce, IsSignedWith smallCurve 1 nonce [0x30] r s := by
  have horder : smallCurve.n • smallCurve.generator = 0 :=
    (order_nsmul_generator_iff smallCurve).mpr (by decide +kernel)
  have hkey : IsPublicKeyOf smallCurve 1 (0x04 :: (toBeBytes 64 5 ++ toBeBytes 64 1)) :=
    ⟨5, 1, _, one_nsmul smallCurve.generator, rfl⟩
  exact ((verifyPrehash_accepts_signer lawfulModInverse_searchInverse (by decide) (by decide) horder
    hkey [0x30]).1 _).mp (by decide +kernel)

end SoftwareKeyCore.Brainpool512
