import SoftwareKeyCore.Brainpool512.PublicArithmetic

/-!
# The group law of public points

The arithmetic of `brainpool512.rs` on the points of a curve that is not singular, whatever the
curve and the triples that stand for its points. `doubleWith`, `addWith` and `multiplySumWith` are
`double`, `add` and `multiply_sum` with the subtraction as a parameter: with `mod_sub` itself they
are the functions of the source, and with a subtraction that fails on a number that is not below
the modulus (`guardedSub`) they never fail.

`implementsGroup` collects what the arithmetic does: which triples stand for a point, that
`double`, `add` and `multiply_sum` are the group law, and that the subtractions are exact.
-/

set_option autoImplicit false
set_option relaxedAutoImplicit false

namespace SoftwareKeyCore.Brainpool512

open BitFolds ByteString JacobianTriple

/-! ### The subtraction as a parameter -/

section

variable {m : Type → Type} [Monad m] (sub : (left right modulus : ℕ) → m ℕ)

/-- `double`, subtracting with `sub`. -/
def doubleWith (point : PublicPoint) (p a : ℕ) : m PublicPoint :=
  if point.z = 0 ∨ point.y = 0 then pure ⟨0, 1, 0⟩
  else do
    let xx := point.x * point.x % p
    let yy := point.y * point.y % p
    let yyyy := yy * yy % p
    let zz := point.z * point.z % p
    let xPlusYy := (point.x + yy) % p
    let s ← sub (xPlusYy * xPlusYy % p) xx p
    let s ← sub s yyyy p
    let s := s * 2 % p
    let m := (xx * 3 + a * zz * zz) % p
    let x ← sub (m * m % p) (s * 2 % p) p
    let difference ← sub s x p
    let y := m * difference % p
    let y ← sub y (yyyy * 8 % p) p
    let z := point.y * point.z * 2 % p
    pure ⟨x, y, z⟩

/-- `add`, subtracting with `sub`. -/
def addWith (left right : PublicPoint) (p a : ℕ) : m PublicPoint :=
  if left.z = 0 then pure right
  else if right.z = 0 then pure left
  else
    let z1z1 := left.z * left.z % p
    let z2z2 := right.z * right.z % p
    let u1 := left.x * z2z2 % p
    let u2 := right.x * z1z1 % p
    let s1 := left.y * right.z * z2z2 % p
    let s2 := right.y * left.z * z1z1 % p
    if u1 = u2 then if s1 = s2 then doubleWith sub left p a else pure ⟨0, 1, 0⟩
    else do
      let h ← sub u2 u1 p
      let twoH := h * 2 % p
      let i := twoH * twoH % p
      let j := h * i % p
      let difference ← sub s2 s1 p
      let r := difference * 2 % p
      let v := u1 * i % p
      let x ← sub (r * r % p) j p
      let x ← sub x (v * 2 % p) p
      let difference ← sub v x p
      let y := r * difference % p
      let y ← sub y (s1 * j * 2 % p) p
      let zSum := (left.z + right.z) % p
      let z ← sub (zSum * zSum % p) z1z1 p
      let z ← sub z z2z2 p
      let z := z * h % p
      pure ⟨x, y, z⟩

/-- `multiply_sum`, subtracting with `sub`. -/
def multiplySumWith (leftScalar : ℕ) (left : PublicPoint) (rightScalar : ℕ) (right : PublicPoint)
    (p a : ℕ) : m PublicPoint := do
  let leftBytes := toBytesBe leftScalar
  let rightBytes := toBytesBe rightScalar
  let length := max leftBytes.length rightBytes.length
  let combined ← addWith sub left right p a
  foldBytes
    (fun result leftBit rightBit ↦ do
      let result ← result
      let result ← doubleWith sub result p a
      match leftBit, rightBit with
      | false, false => pure result
      | true, false => addWith sub result left p a
      | false, true => addWith sub result right p a
      | true, true => addWith sub result combined p a)
    length (byteAt leftBytes length) (byteAt rightBytes length) (pure ⟨0, 1, 0⟩)

end

/-- Subtracting with `mod_sub` is the source's `double`. -/
theorem doubleWith_modSub (point : PublicPoint) (p a : ℕ) :
    doubleWith (m := Id) modSub point p a = double point p a :=
  rfl

/-- Subtracting with `mod_sub` is the source's `add`. -/
theorem addWith_modSub (left right : PublicPoint) (p a : ℕ) :
    addWith (m := Id) modSub left right p a = add left right p a :=
  rfl

/-- Subtracting with `mod_sub` is the source's `multiply_sum`. -/
theorem multiplySumWith_modSub (leftScalar : ℕ) (left : PublicPoint) (rightScalar : ℕ)
    (right : PublicPoint) (p a : ℕ) :
    multiplySumWith (m := Id) modSub leftScalar left rightScalar right p a =
      multiplySum leftScalar left rightScalar right p a :=
  rfl

/-- `mod_sub` of numbers below the modulus, and a failure on others. -/
def guardedSub (left right modulus : ℕ) : Option ℕ :=
  if left < modulus ∧ right < modulus then some (modSub left right modulus) else none

theorem guardedSub_eq_some {left right modulus : ℕ} (hleft : left < modulus)
    (hright : right < modulus) :
    guardedSub left right modulus = some (modSub left right modulus) :=
  if_pos ⟨hleft, hright⟩

/-- Below the modulus `mod_sub` is the residue of the difference. -/
theorem intCast_modSub {left right modulus : ℕ} (hleft : left < modulus)
    (hright : right < modulus) :
    (modSub left right modulus : ℤ) = ((left : ℤ) - right) % modulus := by
  unfold modSub
  split_ifs with hle
  · rw [Nat.mod_eq_of_lt (by omega), Int.emod_eq_of_lt (by omega) (by omega)]
    omega
  · rw [Nat.mod_eq_of_lt (by omega), ← Int.add_emod_right, Int.emod_eq_of_lt (by omega) (by omega)]
    omega

/-! ### No subtraction leaves the residues -/

section

variable {p : ℕ}

/-- `double` subtracts numbers below the modulus only. -/
theorem doubleWith_guardedSub (hp : 0 < p) (point : PublicPoint) (a : ℕ) :
    doubleWith guardedSub point p a = some (double point p a) := by
  have hmod : ∀ value, value % p < p := fun value ↦ Nat.mod_lt _ hp
  unfold doubleWith double
  by_cases hinfinity : point.z = 0 ∨ point.y = 0
  · rw [if_pos hinfinity, if_pos hinfinity]
    rfl
  · rw [if_neg hinfinity, if_neg hinfinity]
    simp only [guardedSub_eq_some, modSub_lt, hmod, Option.bind_eq_bind, Option.bind_some]
    rfl

/-- `add` subtracts numbers below the modulus only. -/
theorem addWith_guardedSub (hp : 0 < p) (left right : PublicPoint) (a : ℕ) :
    addWith guardedSub left right p a = some (add left right p a) := by
  have hmod : ∀ value, value % p < p := fun value ↦ Nat.mod_lt _ hp
  have hsub : ∀ first second, modSub (first % p) (second % p) p < p :=
    fun first second ↦ modSub_lt (hmod first) (hmod second)
  have hsubSub : ∀ first second third,
      modSub (modSub (first % p) (second % p) p) (third % p) p < p :=
    fun first second third ↦ modSub_lt (hsub first second) (hmod third)
  unfold addWith add
  dsimp only
  split_ifs
  · rfl
  · rfl
  · exact doubleWith_guardedSub hp left a
  · rfl
  · simp only [guardedSub_eq_some, hmod, hsub, hsubSub, Option.bind_eq_bind, Option.bind_some]
    rfl

/-- `multiply_sum` subtracts numbers below the modulus only. -/
theorem multiplySumWith_guardedSub (hp : 0 < p) (leftScalar : ℕ) (left : PublicPoint)
    (rightScalar : ℕ) (right : PublicPoint) (a : ℕ) :
    multiplySumWith guardedSub leftScalar left rightScalar right p a =
      some (multiplySum leftScalar left rightScalar right p a) := by
  unfold multiplySumWith multiplySum
  dsimp only
  rw [addWith_guardedSub hp, Option.bind_eq_bind, Option.bind_some]
  refine foldBytes_rel_foldBytes _ (R := fun guarded result ↦ guarded = some result) ?_ _ _ _ ?_
  · rintro _ result leftBit rightBit rfl
    rw [Option.bind_some, doubleWith_guardedSub hp, Option.bind_some]
    cases leftBit with
    | false =>
      cases rightBit with
      | false => rfl
      | true => exact addWith_guardedSub hp _ right a
    | true =>
      cases rightBit with
      | false => exact addWith_guardedSub hp _ left a
      | true => exact addWith_guardedSub hp _ _ a
  · rfl

end

/-! ### The group law -/

/-- The arithmetic modulo a prime implements the group of a curve `y ^ 2 = x ^ 3 + a * x + b`. -/
structure ImplementsGroup (p : ℕ) [Fact p.Prime] (a : ℕ) (b : ZMod p) : Prop where
  existsUnique_point : ∀ triple : PublicPoint, IsReduced p triple →
    ((∃! point : (shortCurve (a : ZMod p) b).Point, IsPoint triple point) ↔
      triple.z = 0 ∨ (triple.y : ZMod p) ^ 2 =
        (triple.x : ZMod p) ^ 3 + a * triple.x * (triple.z : ZMod p) ^ 4 +
          b * (triple.z : ZMod p) ^ 6)
  double : ∀ (triple : PublicPoint) (point : (shortCurve (a : ZMod p) b).Point),
    IsPoint triple point → IsPoint (double triple p a) (2 • point)
  add : ∀ (left right : PublicPoint) (point point' : (shortCurve (a : ZMod p) b).Point),
    IsPoint left point → IsPoint right point' → IsPoint (add left right p a) (point + point')
  multiplySum : ∀ (left right : PublicPoint) (point point' : (shortCurve (a : ZMod p) b).Point),
    IsPoint left point → IsPoint right point' → ∀ leftScalar rightScalar : ℕ,
      IsPoint (multiplySum leftScalar left rightScalar right p a)
        (leftScalar • point + rightScalar • point')
  subtracts_modSub : ∀ (leftScalar : ℕ) (left : PublicPoint) (rightScalar : ℕ)
    (right : PublicPoint),
      doubleWith (m := Id) modSub left p a = Brainpool512.double left p a ∧
      addWith (m := Id) modSub left right p a = Brainpool512.add left right p a ∧
      multiplySumWith (m := Id) modSub leftScalar left rightScalar right p a =
        Brainpool512.multiplySum leftScalar left rightScalar right p a
  subtracts_residues : ∀ (leftScalar : ℕ) (left : PublicPoint) (rightScalar : ℕ)
    (right : PublicPoint),
      doubleWith guardedSub left p a = some (Brainpool512.double left p a) ∧
      addWith guardedSub left right p a = some (Brainpool512.add left right p a) ∧
      multiplySumWith guardedSub leftScalar left rightScalar right p a =
        some (Brainpool512.multiplySum leftScalar left rightScalar right p a)
  modSub_exact : ∀ left < p, ∀ right < p, modSub left right p < p ∧
    (modSub left right p : ℤ) = ((left : ℤ) - right) % p

theorem two_ne_zero_of_lt {p : ℕ} (hthree : 3 < p) : (2 : ZMod p) ≠ 0 := by
  have hcast : ((2 : ℕ) : ZMod p) = 0 ↔ 2 = 0 := cast_eq_zero_iff (by omega)
  intro htwo
  exact absurd (hcast.mp htwo) two_ne_zero

/-- The arithmetic implements the group of every curve that is not singular, modulo a prime above
three. -/
theorem implementsGroup {p : ℕ} [Fact p.Prime] (hthree : 3 < p) {a : ℕ} {b : ZMod p}
    (hdiscriminant : 4 * (a : ZMod p) ^ 3 + 27 * b ^ 2 ≠ 0) : ImplementsGroup p a b := by
  have htwo := two_ne_zero_of_lt hthree
  have hp : 0 < p := by omega
  refine
    { existsUnique_point := fun triple hreduced ↦ ?_
      double := fun triple point hpoint ↦ ?_
      add := fun left right point point' hleft hright ↦ hleft.add htwo hright
      multiplySum := fun left right point point' ↦ isPoint_multiplySum htwo
      subtracts_modSub := fun leftScalar left rightScalar right ↦
        ⟨doubleWith_modSub left p a, addWith_modSub left right p a,
          multiplySumWith_modSub leftScalar left rightScalar right p a⟩
      subtracts_residues := fun leftScalar left rightScalar right ↦
        ⟨doubleWith_guardedSub hp left a, addWith_guardedSub hp left right a,
          multiplySumWith_guardedSub hp leftScalar left rightScalar right a⟩
      modSub_exact := fun left hleft right hright ↦
        ⟨modSub_lt hleft hright, intCast_modSub hleft hright⟩ }
  · have hunique := existsUnique_represents_iff htwo hdiscriminant (toField p triple)
    rw [show (toField p triple).z = 0 ↔ triple.z = 0 from cast_eq_zero_iff hreduced.z_lt]
      at hunique
    refine Iff.trans (existsUnique_congr fun point ↦ ?_) hunique
    exact ⟨fun hpoint ↦ hpoint.represents, fun hrepresents ↦ ⟨hreduced, hrepresents⟩⟩
  · rw [two_nsmul]
    exact hpoint.double htwo

instance fact_prime_seven : Fact (Nat.Prime 7) :=
  ⟨by norm_num⟩

/-- Modulo seven, the curve `y ^ 2 = x ^ 3 + x + 1` and the triple `(0, 1, 2)` of its point
`(0, 1)`. -/
theorem implementsGroup_seven :
    ImplementsGroup 7 1 1 ∧
      ∃! point : (shortCurve ((1 : ℕ) : ZMod 7) 1).Point, IsPoint ⟨0, 1, 2⟩ point := by
  have himplements : ImplementsGroup 7 1 1 := implementsGroup (by decide) (by decide)
  refine ⟨himplements, (himplements.existsUnique_point ⟨0, 1, 2⟩ ⟨?_, ?_, ?_⟩).mpr (Or.inr ?_)⟩
  all_goals decide

end SoftwareKeyCore.Brainpool512
