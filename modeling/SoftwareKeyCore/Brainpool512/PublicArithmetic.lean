import SoftwareKeyCore.Foundation.BitFolds
import SoftwareKeyCore.Foundation.JacobianCoordinates

/-!
# Arithmetic on public points

The curve arithmetic of the verifier in `brainpool512.rs`: big-integer formulas in Jacobian
coordinates, modulo a prime. Modulo the prime they are the formulas over the field
(`toField_double`, `toField_add`), so that a reduced triple stands for a point of the curve
throughout: `IsPoint` is kept by `double` and `add`, and `isPoint_multiplySum` says that
`multiply_sum` computes a sum of two multiples, for scalars of any lengths.
-/

set_option autoImplicit false
set_option relaxedAutoImplicit false

namespace SoftwareKeyCore.Brainpool512

open BitFolds ByteString JacobianTriple

/-- `PublicPoint`. -/
@[ext] structure PublicPoint where
  x : ℕ
  y : ℕ
  z : ℕ
  deriving DecidableEq, Repr

/-- `mod_sub`. -/
def modSub (left right modulus : ℕ) : ℕ :=
  if right ≤ left then (left - right) % modulus else modulus - (right - left) % modulus

/-- `double`. -/
def double (point : PublicPoint) (p a : ℕ) : PublicPoint :=
  if point.z = 0 ∨ point.y = 0 then ⟨0, 1, 0⟩
  else
    let xx := point.x * point.x % p
    let yy := point.y * point.y % p
    let yyyy := yy * yy % p
    let zz := point.z * point.z % p
    let xPlusYy := (point.x + yy) % p
    let s := modSub (xPlusYy * xPlusYy % p) xx p
    let s := modSub s yyyy p
    let s := s * 2 % p
    let m := (xx * 3 + a * zz * zz) % p
    let x := modSub (m * m % p) (s * 2 % p) p
    let y := m * modSub s x p % p
    let y := modSub y (yyyy * 8 % p) p
    let z := point.y * point.z * 2 % p
    ⟨x, y, z⟩

/-- `add`. -/
def add (left right : PublicPoint) (p a : ℕ) : PublicPoint :=
  if left.z = 0 then right
  else if right.z = 0 then left
  else
    let z1z1 := left.z * left.z % p
    let z2z2 := right.z * right.z % p
    let u1 := left.x * z2z2 % p
    let u2 := right.x * z1z1 % p
    let s1 := left.y * right.z * z2z2 % p
    let s2 := right.y * left.z * z1z1 % p
    if u1 = u2 then if s1 = s2 then double left p a else ⟨0, 1, 0⟩
    else
      let h := modSub u2 u1 p
      let twoH := h * 2 % p
      let i := twoH * twoH % p
      let j := h * i % p
      let r := modSub s2 s1 p * 2 % p
      let v := u1 * i % p
      let x := modSub (r * r % p) j p
      let x := modSub x (v * 2 % p) p
      let y := r * modSub v x p % p
      let y := modSub y (s1 * j * 2 % p) p
      let zSum := (left.z + right.z) % p
      let z := modSub (zSum * zSum % p) z1z1 p
      let z := modSub z z2z2 p
      let z := z * h % p
      ⟨x, y, z⟩

/-- The byte of a scalar at an index of the common length. -/
def byteAt (bytes : ByteString) (length index : ℕ) : UInt8 :=
  let offset := length - bytes.length
  if index < offset then 0 else bytes.getD (index - offset) 0

/-- `multiply_sum`. -/
def multiplySum (leftScalar : ℕ) (left : PublicPoint) (rightScalar : ℕ) (right : PublicPoint)
    (p a : ℕ) : PublicPoint :=
  let leftBytes := toBytesBe leftScalar
  let rightBytes := toBytesBe rightScalar
  let length := max leftBytes.length rightBytes.length
  let combined := add left right p a
  foldBytes
    (fun result leftBit rightBit ↦
      let result := double result p a
      match leftBit, rightBit with
      | false, false => result
      | true, false => add result left p a
      | false, true => add result right p a
      | true, true => add result combined p a)
    length (byteAt leftBytes length) (byteAt rightBytes length) ⟨0, 1, 0⟩

/-- The bytes of a scalar, extended by leading zeros to the common length. -/
theorem map_byteAt {bytes : ByteString} {length : ℕ} (hlength : bytes.length ≤ length) :
    (List.range length).map (byteAt bytes length) =
      List.replicate (length - bytes.length) 0 ++ bytes := by
  apply List.ext_getElem
  · rw [List.length_map, List.length_range, List.length_append, List.length_replicate]
    omega
  · intro index hleft hright
    rw [List.getElem_map, List.getElem_range, List.getElem_append, byteAt]
    simp only [List.length_replicate]
    split_ifs with hindex
    · rw [List.getElem_replicate]
    · rw [List.getD_eq_getElem?_getD, List.getElem?_eq_getElem, Option.getD_some]

/-- The bytes read for a scalar encode it. -/
theorem fromBeBytes_byteAt {scalar length : ℕ} (hlength : (toBytesBe scalar).length ≤ length) :
    fromBeBytes ((List.range length).map (byteAt (toBytesBe scalar) length)) = scalar := by
  rw [map_byteAt hlength, fromBeBytes_replicate_zero_append, fromBeBytes_toBytesBe]

/-! ### Residues -/

/-- All coordinates are reduced. -/
structure IsReduced (p : ℕ) (point : PublicPoint) : Prop where
  x_lt : point.x < p
  y_lt : point.y < p
  z_lt : point.z < p

/-- Below the modulus `mod_sub` is exact and reduced. -/
theorem modSub_lt {left right modulus : ℕ} (hleft : left < modulus) (hright : right < modulus) :
    modSub left right modulus < modulus := by
  unfold modSub
  split_ifs with hle
  · exact Nat.mod_lt _ (by omega)
  · rw [Nat.mod_eq_of_lt (by omega)]
    omega

theorem cast_modSub {left right modulus : ℕ} (hmodulus : 0 < modulus) :
    (modSub left right modulus : ZMod modulus) = left - right := by
  unfold modSub
  split_ifs with hle
  · rw [ZMod.natCast_mod, Nat.cast_sub hle]
  · have hmod : (right - left) % modulus ≤ modulus := (Nat.mod_lt _ hmodulus).le
    rw [Nat.cast_sub hmod, ZMod.natCast_mod, Nat.cast_sub (not_le.mp hle).le, ZMod.natCast_self]
    ring

theorem cast_eq_cast_iff {left right modulus : ℕ} (hleft : left < modulus)
    (hright : right < modulus) : (left : ZMod modulus) = right ↔ left = right := by
  rw [ZMod.natCast_eq_natCast_iff]
  constructor
  · intro hmod
    exact Nat.ModEq.eq_of_lt_of_lt hmod hleft hright
  · rintro rfl
    rfl

theorem cast_eq_zero_iff {value modulus : ℕ} (hvalue : value < modulus) :
    (value : ZMod modulus) = 0 ↔ value = 0 := by
  have hcast := cast_eq_cast_iff hvalue (Nat.zero_lt_of_lt hvalue)
  rw [Nat.cast_zero] at hcast
  exact hcast

/-- The coordinates modulo the prime. -/
def toField (p : ℕ) (point : PublicPoint) : JacobianTriple (ZMod p) :=
  ⟨point.x, point.y, point.z⟩

section Prime

variable {p : ℕ} [Fact p.Prime]

theorem toField_infinity : toField p ⟨0, 1, 0⟩ = infinity := by
  ext <;> simp [toField, infinity]

theorem isReduced_infinity : IsReduced p ⟨0, 1, 0⟩ :=
  ⟨(Fact.out : p.Prime).pos, (Fact.out : p.Prime).one_lt, (Fact.out : p.Prime).pos⟩

/-- `double` keeps coordinates reduced. -/
theorem isReduced_double (a : ℕ) (point : PublicPoint) : IsReduced p (double point p a) := by
  have hmod : ∀ value, value % p < p := fun value ↦ Nat.mod_lt _ (Fact.out : p.Prime).pos
  unfold double
  split_ifs
  · exact isReduced_infinity
  · exact ⟨modSub_lt (hmod _) (hmod _), modSub_lt (hmod _) (hmod _), hmod _⟩

/-- `double` is the formula over the field. -/
theorem toField_double (a : ℕ) {point : PublicPoint} (hpoint : IsReduced p point) :
    toField p (double point p a) = (toField p point).double (a : ZMod p) := by
  have hpos := (Fact.out : p.Prime).pos
  unfold double JacobianTriple.double
  have hz : (toField p point).z = 0 ↔ point.z = 0 := cast_eq_zero_iff hpoint.z_lt
  have hy : (toField p point).y = 0 ↔ point.y = 0 := cast_eq_zero_iff hpoint.y_lt
  simp only [hz, hy]
  split_ifs
  · exact toField_infinity
  · ext
    · simp only [toField, cast_modSub hpos, ZMod.natCast_mod, Nat.cast_mul, Nat.cast_add,
        Nat.cast_ofNat]
      ring
    · simp only [toField, cast_modSub hpos, ZMod.natCast_mod, Nat.cast_mul, Nat.cast_add,
        Nat.cast_ofNat]
      ring
    · simp only [toField, ZMod.natCast_mod, Nat.cast_mul, Nat.cast_ofNat]
      ring

/-- `add` keeps coordinates reduced. -/
theorem isReduced_add (a : ℕ) {left right : PublicPoint} (hleft : IsReduced p left)
    (hright : IsReduced p right) : IsReduced p (add left right p a) := by
  have hmod : ∀ value, value % p < p := fun value ↦ Nat.mod_lt _ (Fact.out : p.Prime).pos
  unfold add
  dsimp only
  split_ifs
  · exact hright
  · exact hleft
  · exact isReduced_double a left
  · exact isReduced_infinity
  · refine ⟨modSub_lt (modSub_lt (hmod _) (hmod _)) (hmod _), modSub_lt (hmod _) (hmod _), hmod _⟩

/-- `add` is the formula over the field. -/
theorem toField_add (a : ℕ) {left right : PublicPoint} (hleft : IsReduced p left)
    (hright : IsReduced p right) :
    toField p (add left right p a) = (toField p left).add (a : ZMod p) (toField p right) := by
  have hpos := (Fact.out : p.Prime).pos
  have hmod : ∀ value, value % p < p := fun value ↦ Nat.mod_lt _ hpos
  have hzleft : (toField p left).z = 0 ↔ left.z = 0 := cast_eq_zero_iff hleft.z_lt
  have hzright : (toField p right).z = 0 ↔ right.z = 0 := cast_eq_zero_iff hright.z_lt
  have hu : (toField p left).x * (toField p right).z ^ 2 =
      (toField p right).x * (toField p left).z ^ 2 ↔
        left.x * (right.z * right.z % p) % p = right.x * (left.z * left.z % p) % p := by
    rw [← cast_eq_cast_iff (hmod _) (hmod _)]
    simp only [toField, ZMod.natCast_mod, Nat.cast_mul, sq]
  have hs : (toField p left).y * (toField p right).z * (toField p right).z ^ 2 =
      (toField p right).y * (toField p left).z * (toField p left).z ^ 2 ↔
        left.y * right.z * (right.z * right.z % p) % p =
          right.y * left.z * (left.z * left.z % p) % p := by
    rw [← cast_eq_cast_iff (hmod _) (hmod _)]
    simp only [toField, ZMod.natCast_mod, Nat.cast_mul, sq]
  unfold add JacobianTriple.add
  dsimp only
  simp only [hzleft, hzright, hu, hs]
  split_ifs
  · rfl
  · rfl
  · exact toField_double a hleft
  · exact toField_infinity
  · ext
    · simp only [toField, cast_modSub hpos, ZMod.natCast_mod, Nat.cast_mul, Nat.cast_add,
        Nat.cast_ofNat]
      ring
    · simp only [toField, cast_modSub hpos, ZMod.natCast_mod, Nat.cast_mul, Nat.cast_add,
        Nat.cast_ofNat]
      ring
    · simp only [toField, cast_modSub hpos, ZMod.natCast_mod, Nat.cast_mul, Nat.cast_add,
        Nat.cast_ofNat]
      ring

/-! ### Points of the curve -/

/-- The reduced triple stands for the point of the curve. -/
structure IsPoint {a : ℕ} {b : ZMod p} (triple : PublicPoint)
    (point : (shortCurve (a : ZMod p) b).Point) : Prop where
  reduced : IsReduced p triple
  represents : (toField p triple).Represents point

variable {a : ℕ} {b : ZMod p}

theorem isPoint_infinity : IsPoint ⟨0, 1, 0⟩ (0 : (shortCurve (a : ZMod p) b).Point) := by
  refine ⟨isReduced_infinity, ?_⟩
  rw [toField_infinity]
  exact represents_zero_iff.mpr rfl

/-- An affine point of the curve, with `z = 1`. -/
theorem isPoint_affine {x y : ℕ} (hx : x < p) (hy : y < p)
    (hpoint : (shortCurve (a : ZMod p) b).Nonsingular x y) :
    IsPoint ⟨x, y, 1⟩ (.some (x : ZMod p) (y : ZMod p) hpoint) := by
  refine ⟨⟨hx, hy, (Fact.out : p.Prime).one_lt⟩, ?_, ?_, ?_⟩
  · simp [toField]
  · simp [toField]
  · simp [toField]

/-- The triples for the point at infinity are those with `z = 0`. -/
theorem IsPoint.z_eq_zero_iff {triple : PublicPoint}
    {point : (shortCurve (a : ZMod p) b).Point} (hpoint : IsPoint triple point) :
    triple.z = 0 ↔ point = 0 := by
  rw [← hpoint.represents.z_eq_zero_iff]
  exact (cast_eq_zero_iff hpoint.reduced.z_lt).symm

variable (htwo : (2 : ZMod p) ≠ 0)
include htwo

theorem IsPoint.double {triple : PublicPoint} {point : (shortCurve (a : ZMod p) b).Point}
    (hpoint : IsPoint triple point) : IsPoint (double triple p a) (point + point) := by
  refine ⟨isReduced_double a triple, ?_⟩
  rw [toField_double a hpoint.reduced]
  exact represents_double htwo hpoint.represents

theorem IsPoint.add {left right : PublicPoint} {point point' : (shortCurve (a : ZMod p) b).Point}
    (hleft : IsPoint left point) (hright : IsPoint right point') :
    IsPoint (add left right p a) (point + point') := by
  refine ⟨isReduced_add a hleft.reduced hright.reduced, ?_⟩
  rw [toField_add a hleft.reduced hright.reduced]
  exact represents_add htwo hleft.represents hright.represents

/-- `multiply_sum` is the sum of two multiples. -/
theorem isPoint_multiplySum {left right : PublicPoint}
    {point point' : (shortCurve (a : ZMod p) b).Point} (hleft : IsPoint left point)
    (hright : IsPoint right point') (leftScalar rightScalar : ℕ) :
    IsPoint (multiplySum leftScalar left rightScalar right p a)
      (leftScalar • point + rightScalar • point') := by
  have hcombined := hleft.add htwo hright
  have hstep : ∀ (result : PublicPoint) (m n : ℕ) (leftBit rightBit : Bool),
      IsPoint result (m • point + n • point') →
        IsPoint
          (match leftBit, rightBit with
            | false, false => Brainpool512.double result p a
            | true, false => Brainpool512.add (Brainpool512.double result p a) left p a
            | false, true => Brainpool512.add (Brainpool512.double result p a) right p a
            | true, true => Brainpool512.add (Brainpool512.double result p a)
              (Brainpool512.add left right p a) p a)
          ((2 * m + leftBit.toNat) • point + (2 * n + rightBit.toNat) • point') := by
    intro result m n leftBit rightBit hresult
    have hdouble := hresult.double htwo
    have hvalue : (2 * m + leftBit.toNat) • point + (2 * n + rightBit.toNat) • point' =
        m • point + n • point' + (m • point + n • point') +
          (leftBit.toNat • point + rightBit.toNat • point') := by
      rw [add_nsmul, add_nsmul, mul_nsmul', mul_nsmul', two_nsmul, two_nsmul]
      abel
    rw [hvalue]
    cases leftBit with
    | false =>
      cases rightBit with
      | false => simpa using hdouble
      | true => simpa using hdouble.add htwo hright
    | true =>
      cases rightBit with
      | false => simpa using hdouble.add htwo hleft
      | true => simpa using hdouble.add htwo hcombined
  have hstart : IsPoint ⟨0, 1, 0⟩ (0 • point + 0 • point') := by
    rw [zero_nsmul, zero_nsmul, add_zero]
    exact isPoint_infinity
  have hresult := foldBytes_rel hstep
    (max (toBytesBe leftScalar).length (toBytesBe rightScalar).length)
    (byteAt (toBytesBe leftScalar)
      (max (toBytesBe leftScalar).length (toBytesBe rightScalar).length))
    (byteAt (toBytesBe rightScalar)
      (max (toBytesBe leftScalar).length (toBytesBe rightScalar).length)) hstart
  rw [fromBeBytes_byteAt (le_max_left _ _), fromBeBytes_byteAt (le_max_right _ _)] at hresult
  exact hresult

end Prime

end SoftwareKeyCore.Brainpool512
