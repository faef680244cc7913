import SoftwareKeyCore.Foundation.NegacyclicRing
import SoftwareKeyCore.Foundation.TabulatedList

/-!
# Number-theoretic transforms

The layered transform that evaluates a polynomial at the roots of `X ^ (2 ^ depth) + 1`, over any
commutative ring. A sequence is cut into rows of one length, and a layer applies a butterfly, a
linear map of two values, to each pair of rows (`layer`). The twiddle factors of the butterflies
are indexed by the nodes of a binary tree (`Twiddles`): the root of the tree stands for the modulus
`X ^ (2 ^ depth) + 1`, and the children of a node for the two factors of its modulus.

`forwardLayers_eq` is the invariant of the forward transform: after some layers the rows are the
remainders modulo the factors. `forward_eq_evaluation` is that the transform evaluates, and
`inverse_forward` and `forward_inverse` are that the two transforms are inverse to each other, up to
the factor `2 ^ depth`. `eq_ofCoefficients_of_evaluation` recovers an element of the negacyclic
ring from its values, and `inverse_mul_forward` is that multiplying the transformed sequences
multiplies the elements.

`foldlM_pair` is the rule for a loop that computes a layer in place, one pair of rows at a time.
-/

set_option autoImplicit false
set_option relaxedAutoImplicit false

namespace SoftwareKeyCore.NumberTheoreticTransform

open NegacyclicRing TabulatedList

variable {R : Type} [CommRing R]

/-! ### Layers of butterflies -/

/-- A linear map of two values. -/
structure Butterfly (R : Type) where
  topLeft : R
  topRight : R
  bottomLeft : R
  bottomRight : R

namespace Butterfly

/-- The first value. -/
def top (butterfly : Butterfly R) (left right : R) : R :=
  butterfly.topLeft * left + butterfly.topRight * right

/-- The second value. -/
def bottom (butterfly : Butterfly R) (left right : R) : R :=
  butterfly.bottomLeft * left + butterfly.bottomRight * right

/-- The forward butterfly of a twiddle factor. -/
def forward (zeta : R) : Butterfly R :=
  ⟨1, zeta, 1, -zeta⟩

/-- The inverse butterfly of a twiddle factor. -/
def inverse (zeta : R) : Butterfly R :=
  ⟨1, 1, zeta, -zeta⟩

/-- The second butterfly undoes the first one, up to a factor. -/
def Undoes (second first : Butterfly R) (factor : R) : Prop :=
  ∀ left right, second.top (first.top left right) (first.bottom left right) = factor * left ∧
    second.bottom (first.top left right) (first.bottom left right) = factor * right

theorem inverse_undoes_forward {zeta inverseZeta : R} (hzeta : inverseZeta * zeta = 1) :
    (inverse inverseZeta).Undoes (forward zeta) 2 := by
  intro left right
  simp only [top, bottom, inverse, forward]
  refine ⟨by ring, ?_⟩
  linear_combination 2 * right * hzeta

theorem forward_undoes_inverse {zeta inverseZeta : R} (hzeta : inverseZeta * zeta = 1) :
    (forward zeta).Undoes (inverse inverseZeta) 2 := by
  intro left right
  simp only [top, bottom, inverse, forward]
  constructor
  · linear_combination (left - right) * hzeta
  · linear_combination (right - left) * hzeta

end Butterfly

/-- A layer applies its butterflies to the pairs of rows of a length. -/
def layer (length : ℕ) (butterflies : ℕ → Butterfly R) (values : ℕ → R) (index : ℕ) : R :=
  if index / length % 2 = 0 then
    (butterflies (index / length / 2)).top (values index) (values (index + length))
  else (butterflies (index / length / 2)).bottom (values (index - length)) (values index)

section Layer

variable {length : ℕ} {butterflies : ℕ → Butterfly R}

theorem layer_of_even {index : ℕ} (heven : index / length % 2 = 0) (values : ℕ → R) :
    layer length butterflies values index =
      (butterflies (index / length / 2)).top (values index) (values (index + length)) :=
  if_pos heven

theorem layer_of_odd {index : ℕ} (hodd : index / length % 2 = 1) (values : ℕ → R) :
    layer length butterflies values index =
      (butterflies (index / length / 2)).bottom (values (index - length)) (values index) :=
  if_neg (by omega)

theorem layer_add (first second : ℕ → R) (index : ℕ) :
    layer length butterflies (fun index ↦ first index + second index) index =
      layer length butterflies first index + layer length butterflies second index := by
  simp only [layer, Butterfly.top, Butterfly.bottom]
  split_ifs
  · ring
  · ring

theorem layer_mul (factor : R) (values : ℕ → R) (index : ℕ) :
    layer length butterflies (fun index ↦ factor * values index) index =
      factor * layer length butterflies values index := by
  simp only [layer, Butterfly.top, Butterfly.bottom]
  split_ifs
  · ring
  · ring

/-- The second row of a pair. -/
theorem succ_row {row : ℕ} (heven : row % 2 = 0) : (row + 1) % 2 = 1 ∧ (row + 1) / 2 = row / 2 := by
  omega

/-- The first row of a pair. -/
theorem pred_row {row : ℕ} (hodd : row % 2 = 1) : (row - 1) % 2 = 0 ∧ (row - 1) / 2 = row / 2 := by
  omega

/-- The partner in the next row. -/
theorem add_div_eq (hlength : 0 < length) (index : ℕ) :
    (index + length) / length = index / length + 1 :=
  Nat.add_div_right index hlength

/-- The partner in the previous row. -/
theorem sub_div_eq (hlength : 0 < length) {index : ℕ} (hodd : index / length % 2 = 1) :
    length ≤ index ∧ (index - length) / length = index / length - 1 := by
  have hle : length ≤ index := by
    by_contra hlt
    rw [Nat.div_eq_of_lt (not_le.mp hlt)] at hodd
    omega
  exact ⟨hle, by rw [Nat.div_eq_sub_div hlength hle, Nat.add_sub_cancel]⟩

/-- A layer of butterflies that undo those of another layer undoes the layer. -/
theorem layer_layer {butterflies' : ℕ → Butterfly R} {factor : R} (hlength : 0 < length)
    {index : ℕ} (values : ℕ → R)
    (hundoes : (butterflies' (index / length / 2)).Undoes (butterflies (index / length / 2))
      factor) :
    layer length butterflies' (layer length butterflies values) index = factor * values index := by
  rcases Nat.mod_two_eq_zero_or_one (index / length) with heven | hodd
  · obtain ⟨hpartner, hblock⟩ := succ_row heven
    rw [← add_div_eq hlength] at hpartner hblock
    rw [layer_of_even heven, layer_of_even heven, layer_of_odd hpartner, hblock,
      Nat.add_sub_cancel]
    exact (hundoes _ _).1
  · obtain ⟨hle, hrow⟩ := sub_div_eq hlength hodd
    obtain ⟨hpartner, hblock⟩ := pred_row hodd
    rw [← hrow] at hpartner hblock
    rw [layer_of_odd hodd, layer_of_odd hodd, layer_of_even hpartner, hblock,
      Nat.sub_add_cancel hle]
    exact (hundoes _ _).2

/-- A layer of whole pairs of rows stays within them. -/
theorem layer_congr {first second : ℕ → R} {blocks : ℕ} (hlength : 0 < length)
    (hvalues : ∀ index < blocks * (2 * length), first index = second index) {index : ℕ}
    (hindex : index < blocks * (2 * length)) :
    layer length butterflies first index = layer length butterflies second index := by
  have hrow : index / length < blocks * 2 := by
    rw [Nat.div_lt_iff_lt_mul hlength]
    linarith
  rcases Nat.mod_two_eq_zero_or_one (index / length) with heven | hodd
  · have hpartner : index + length < blocks * (2 * length) := by
      have hnext : (index + length) / length < blocks * 2 := by
        rw [add_div_eq hlength]
        omega
      rw [Nat.div_lt_iff_lt_mul hlength] at hnext
      linarith
    rw [layer_of_even heven, layer_of_even heven, hvalues _ hindex, hvalues _ hpartner]
  · have hpartner : index - length < blocks * (2 * length) := by omega
    rw [layer_of_odd hodd, layer_of_odd hodd, hvalues _ hindex, hvalues _ hpartner]

end Layer

/-! ### Twiddle factors -/

/-- The value at a node of the tree: the constant that the modulus of the node subtracts. -/
def nodeValue (zeta : ℕ → R) (node : ℕ) : R :=
  if node = 1 then -1 else if node % 2 = 0 then zeta (node / 2) else -zeta (node / 2)

theorem nodeValue_of_even {zeta : ℕ → R} {count row : ℕ} (heven : row % 2 = 0) :
    nodeValue zeta (2 * count + row) = zeta (count + row / 2) := by
  rw [nodeValue, if_neg (by omega), if_pos (by omega), Nat.mul_add_div Nat.two_pos]

theorem nodeValue_of_odd {zeta : ℕ → R} {count row : ℕ} (hcount : 0 < count)
    (hodd : row % 2 = 1) : nodeValue zeta (2 * count + row) = -zeta (count + row / 2) := by
  rw [nodeValue, if_neg (by omega), if_neg (by omega), Nat.mul_add_div Nat.two_pos]

/-- The twiddle factors of a transform: a square root of the value at each inner node, and its
inverse. -/
structure Twiddles (R : Type) [CommRing R] (depth : ℕ) where
  zeta : ℕ → R
  inverseZeta : ℕ → R
  zeta_sq : ∀ node, 0 < node → node < 2 ^ depth → zeta node ^ 2 = nodeValue zeta node
  inverseZeta_mul_zeta : ∀ node, 0 < node → node < 2 ^ depth →
    inverseZeta node * zeta node = 1

namespace Twiddles

variable {depth : ℕ} (twiddles : Twiddles R depth)

/-- The square of the value at a node is the value at its parent. -/
theorem nodeValue_sq {node : ℕ} (hpositive : 0 < node / 2) (hnode : node / 2 < 2 ^ depth) :
    nodeValue twiddles.zeta node ^ 2 = nodeValue twiddles.zeta (node / 2) := by
  have hone : node ≠ 1 := by omega
  rw [nodeValue, if_neg hone, ← twiddles.zeta_sq _ hpositive hnode]
  split_ifs
  · rfl
  · exact neg_sq _

/-- The power of the value at a node is the value at an ancestor. -/
theorem nodeValue_pow {node : ℕ} (hnode : node < 2 ^ (depth + 1)) (height : ℕ)
    (hpositive : 0 < node / 2 ^ height) :
    nodeValue twiddles.zeta node ^ 2 ^ height = nodeValue twiddles.zeta (node / 2 ^ height) := by
  induction height with
  | zero => rw [pow_zero, pow_one, Nat.div_one]
  | succ height ih =>
    have hsplit : node / 2 ^ (height + 1) = node / 2 ^ height / 2 := by
      rw [pow_succ, Nat.div_div_eq_div_mul]
    have hbound : node / 2 ^ height / 2 < 2 ^ depth := by
      rw [← hsplit, Nat.div_lt_iff_lt_mul (by positivity)]
      calc node < 2 ^ (depth + 1) := hnode
        _ = 2 ^ depth * 2 := pow_succ 2 depth
        _ ≤ 2 ^ depth * 2 ^ (height + 1) :=
          Nat.mul_le_mul_left _ (Nat.le_self_pow (Nat.succ_ne_zero height) 2)
    rw [hsplit] at hpositive ⊢
    rw [pow_succ, pow_mul, ih (by omega), nodeValue_sq twiddles hpositive hbound]

/-- The points of the transform: the values at the leaves. -/
def point (index : ℕ) : R :=
  nodeValue twiddles.zeta (2 ^ depth + index)

/-- The points are the roots of the modulus. -/
theorem point_pow {index : ℕ} (hindex : index < 2 ^ depth) :
    twiddles.point index ^ 2 ^ depth = -1 := by
  have hroot : (2 ^ depth + index) / 2 ^ depth = 1 := by
    rw [Nat.add_div_left index (by positivity), Nat.div_eq_of_lt hindex]
  have hleaf : 2 ^ depth + index < 2 ^ (depth + 1) := by
    rw [pow_succ]
    omega
  rw [point, nodeValue_pow twiddles hleaf depth (by omega), hroot]
  exact if_pos rfl

/-! ### The transforms -/

/-- The forward transform up to a layer. -/
def forwardLayers : (layers : ℕ) → (values : ℕ → R) → ℕ → R
  | 0, values => values
  | layers + 1, values =>
    layer (2 ^ (depth - 1 - layers)) (fun block ↦ .forward (twiddles.zeta (2 ^ layers + block)))
      (forwardLayers layers values)

/-- The inverse transform from a layer down. -/
def inverseLayers : (layers : ℕ) → (values : ℕ → R) → ℕ → R
  | 0, values => values
  | layers + 1, values =>
    inverseLayers layers (layer (2 ^ (depth - 1 - layers))
      (fun block ↦ .inverse (twiddles.inverseZeta (2 ^ layers + block))) values)

end Twiddles

/-- A sum over twice as many terms, in pairs. -/
theorem sum_range_two_mul (term : ℕ → R) (count : ℕ) :
    ∑ index ∈ Finset.range (2 * count), term index =
      ∑ index ∈ Finset.range count, (term (2 * index) + term (2 * index + 1)) := by
  induction count with
  | zero => rw [mul_zero, Finset.sum_range_zero, Finset.sum_range_zero]
  | succ count ih =>
    rw [show 2 * (count + 1) = 2 * count + 1 + 1 by ring, Finset.sum_range_succ,
      Finset.sum_range_succ, ih, Finset.sum_range_succ, add_assoc]

namespace Twiddles

variable {depth : ℕ} (twiddles : Twiddles R depth)

/-- The remainder of a polynomial modulo the factor at a node, read at an index: the layers before
it have `count` factors, of degree `length`. -/
def remainder (values : ℕ → R) (count length index : ℕ) : R :=
  ∑ term ∈ Finset.range count,
    values (index % length + term * length) *
      nodeValue twiddles.zeta (count + index / length) ^ term

/-- Every second term of a remainder, from an offset on, at the value of the parent. -/
def remainderHalf (values : ℕ → R) (count length offset index : ℕ) : R :=
  ∑ term ∈ Finset.range count,
    values (index % length + (2 * term + offset) * length) *
      nodeValue twiddles.zeta (count + index / length / 2) ^ term

/-- The remainders modulo the factors of a layer are the halves of the next remainders. -/
theorem remainder_eq_half (values : ℕ → R) (count length index : ℕ) :
    twiddles.remainder values count (2 * length) index =
      twiddles.remainderHalf values count length (index / length % 2) index := by
  have hblock : index / (2 * length) = index / length / 2 := by
    rw [Nat.div_div_eq_div_mul, mul_comm]
  have hoffset : index % (2 * length) = index % length + length * (index / length % 2) := by
    rw [mul_comm, Nat.mod_mul]
  refine Finset.sum_congr rfl fun term _ ↦ ?_
  rw [hblock, hoffset]
  congr 2
  ring

/-- A remainder modulo a factor of the next layer, from its halves. -/
theorem remainder_two_mul (values : ℕ → R) {count length index : ℕ}
    (hpositive : 0 < count) (hbound : count + index / length / 2 < 2 ^ depth) :
    twiddles.remainder values (2 * count) length index =
      twiddles.remainderHalf values count length 0 index +
        nodeValue twiddles.zeta (2 * count + index / length) *
          twiddles.remainderHalf values count length 1 index := by
  have hparent : (2 * count + index / length) / 2 = count + index / length / 2 :=
    Nat.mul_add_div Nat.two_pos count _
  have hsquare : nodeValue twiddles.zeta (2 * count + index / length) ^ 2 =
      nodeValue twiddles.zeta (count + index / length / 2) := by
    rw [← hparent] at hbound ⊢
    refine twiddles.nodeValue_sq ?_ hbound
    rw [hparent]
    exact Nat.add_pos_left hpositive _
  rw [remainder, sum_range_two_mul, remainderHalf, remainderHalf, Finset.mul_sum,
    ← Finset.sum_add_distrib, ← hsquare]
  refine Finset.sum_congr rfl fun term _ ↦ ?_
  rw [add_zero, pow_succ, pow_mul]
  ring

/-- A forward layer passes from the remainders modulo the factors of a layer to those modulo the
factors of the next layer. -/
theorem layer_remainder {layers length : ℕ} (hlayers : 2 ^ layers * (2 * length) = 2 ^ depth)
    (values : ℕ → R) {index : ℕ} (hindex : index < 2 ^ depth) :
    layer length (fun block ↦ .forward (twiddles.zeta (2 ^ layers + block)))
        (twiddles.remainder values (2 ^ layers) (2 * length)) index =
      twiddles.remainder values (2 * 2 ^ layers) length index := by
  have hcount : 0 < 2 ^ layers := by positivity
  have hlength : 0 < length := by
    by_contra hzero
    rw [Nat.eq_zero_of_not_pos hzero, mul_zero, mul_zero] at hlayers
    exact absurd hlayers.symm (by positivity)
  have hrow : index / length < 2 * 2 ^ layers := by
    rw [Nat.div_lt_iff_lt_mul hlength]
    linarith
  have hbound : 2 ^ layers + index / length / 2 < 2 ^ depth := by
    have hwhole : 2 * 2 ^ layers * 1 ≤ 2 * 2 ^ layers * length := Nat.mul_le_mul_left _ hlength
    linarith [Nat.div_mul_le_self (index / length) 2]
  rw [twiddles.remainder_two_mul values hcount hbound]
  rcases Nat.mod_two_eq_zero_or_one (index / length) with heven | hodd
  · have hnext := add_div_eq hlength index
    obtain ⟨hoffset, hblock⟩ := succ_row heven
    have hpartner : twiddles.remainderHalf values (2 ^ layers) length 1 (index + length) =
        twiddles.remainderHalf values (2 ^ layers) length 1 index := by
      simp only [remainderHalf, Nat.add_mod_right, hnext, hblock]
    rw [layer_of_even heven, remainder_eq_half, remainder_eq_half, heven, hnext, hoffset, hpartner,
      nodeValue_of_even heven]
    simp only [Butterfly.top, Butterfly.forward, one_mul]
  · obtain ⟨hle, hprevious⟩ := sub_div_eq hlength hodd
    obtain ⟨hoffset, hblock⟩ := pred_row hodd
    have hpartner : twiddles.remainderHalf values (2 ^ layers) length 0 (index - length) =
        twiddles.remainderHalf values (2 ^ layers) length 0 index := by
      have hmod : (index - length) % length = index % length := by
        conv_rhs => rw [← Nat.sub_add_cancel hle, Nat.add_mod_right]
      simp only [remainderHalf, hmod, hprevious, hblock]
    rw [layer_of_odd hodd, remainder_eq_half, remainder_eq_half, hodd, hprevious, hoffset,
      hpartner, nodeValue_of_odd hcount hodd]
    simp only [Butterfly.bottom, Butterfly.forward, one_mul]

/-- The rows of a layer have a whole number of pairs. -/
theorem pairs_eq {layers : ℕ} (hlayers : layers < depth) :
    2 ^ layers * (2 * 2 ^ (depth - 1 - layers)) = 2 ^ depth := by
  rw [← pow_succ', ← pow_add]
  congr 1
  omega

/-- The block of a position of the layer. -/
theorem block_lt {layers : ℕ} (hlayers : layers < depth) {index : ℕ} (hindex : index < 2 ^ depth) :
    2 ^ layers + index / 2 ^ (depth - 1 - layers) / 2 < 2 ^ depth := by
  have hpairs := pairs_eq hlayers
  have hblock : index / 2 ^ (depth - 1 - layers) / 2 < 2 ^ layers := by
    rw [Nat.div_div_eq_div_mul, Nat.div_lt_iff_lt_mul (by positivity)]
    linarith
  have hnext : 2 ^ (layers + 1) ≤ 2 ^ depth := Nat.pow_le_pow_right Nat.two_pos hlayers
  rw [pow_succ] at hnext
  linarith

/-- The invariant of the forward transform: after some layers it holds the remainders modulo the
factors of the layer. -/
theorem forwardLayers_eq (values : ℕ → R) {layers : ℕ} (hlayers : layers ≤ depth) {index : ℕ}
    (hindex : index < 2 ^ depth) :
    twiddles.forwardLayers layers values index =
      twiddles.remainder values (2 ^ layers) (2 ^ (depth - layers)) index := by
  induction layers generalizing index with
  | zero =>
    rw [forwardLayers, remainder, pow_zero, Finset.sum_range_one, Nat.sub_zero,
      Nat.mod_eq_of_lt hindex, zero_mul, add_zero, pow_zero, mul_one]
  | succ layers ih =>
    have hpairs := pairs_eq (Nat.lt_of_succ_le hlayers)
    have hlength : 2 ^ (depth - layers) = 2 * 2 ^ (depth - 1 - layers) := by
      rw [← pow_succ']
      congr 1
      omega
    have hbefore : ∀ index < 2 ^ layers * (2 * 2 ^ (depth - 1 - layers)),
        twiddles.forwardLayers layers values index =
          twiddles.remainder values (2 ^ layers) (2 * 2 ^ (depth - 1 - layers)) index := by
      intro index hbound
      rw [hpairs] at hbound
      rw [ih (Nat.le_of_succ_le hlayers) hbound, hlength]
    have hnext : depth - (layers + 1) = depth - 1 - layers := by omega
    rw [forwardLayers, layer_congr (by positivity) hbefore (by rwa [hpairs]),
      twiddles.layer_remainder hpairs values hindex, ← pow_succ', hnext]

/-- The forward transform. -/
def forward (values : ℕ → R) : ℕ → R :=
  twiddles.forwardLayers depth values

/-- The inverse transform, without its final scaling. -/
def inverse (values : ℕ → R) : ℕ → R :=
  twiddles.inverseLayers depth values

/-- The forward transform sums the terms at the points. -/
theorem forward_eq_sum (values : ℕ → R) {index : ℕ} (hindex : index < 2 ^ depth) :
    twiddles.forward values index =
      ∑ term ∈ Finset.range (2 ^ depth), values term * twiddles.point index ^ term := by
  rw [forward, twiddles.forwardLayers_eq values le_rfl hindex, remainder, Nat.sub_self, pow_zero]
  refine Finset.sum_congr rfl fun term _ ↦ ?_
  rw [Nat.mod_one, zero_add, mul_one, Nat.div_one, point]

/-- The forward transform evaluates at the points. -/
theorem forward_eq_evaluation (values : ℕ → R) {index : ℕ} (hindex : index < 2 ^ depth) :
    twiddles.forward values index = evaluation (twiddles.point index) (twiddles.point_pow hindex)
      (ofCoefficients (2 ^ depth) values) := by
  rw [twiddles.forward_eq_sum values hindex, evaluation_ofCoefficients]

/-! ### The transforms are inverse to each other -/

theorem inverseLayers_congr {first second : ℕ → R}
    (hvalues : ∀ index < 2 ^ depth, first index = second index) {layers : ℕ}
    (hlayers : layers ≤ depth) {index : ℕ} (hindex : index < 2 ^ depth) :
    twiddles.inverseLayers layers first index = twiddles.inverseLayers layers second index := by
  induction layers generalizing first second with
  | zero => exact hvalues index hindex
  | succ layers ih =>
    have hpairs := pairs_eq (Nat.lt_of_succ_le hlayers)
    refine ih (fun other hother ↦ ?_) (Nat.le_of_succ_le hlayers)
    refine layer_congr (by positivity) (fun other hother ↦ ?_) (by rwa [hpairs])
    exact hvalues other (by rwa [hpairs] at hother)

theorem forwardLayers_mul (factor : R) (values : ℕ → R) (layers : ℕ) :
    twiddles.forwardLayers layers (fun index ↦ factor * values index) =
      fun index ↦ factor * twiddles.forwardLayers layers values index := by
  induction layers with
  | zero => rfl
  | succ layers ih =>
    funext index
    rw [forwardLayers, ih, layer_mul, forwardLayers]

theorem inverseLayers_mul (factor : R) (values : ℕ → R) (layers : ℕ) :
    twiddles.inverseLayers layers (fun index ↦ factor * values index) =
      fun index ↦ factor * twiddles.inverseLayers layers values index := by
  induction layers generalizing values with
  | zero => rfl
  | succ layers ih =>
    have hlayer : layer (2 ^ (depth - 1 - layers))
        (fun block ↦ .inverse (twiddles.inverseZeta (2 ^ layers + block)))
        (fun index ↦ factor * values index) = fun index ↦ factor *
          layer (2 ^ (depth - 1 - layers))
            (fun block ↦ .inverse (twiddles.inverseZeta (2 ^ layers + block))) values index :=
      funext fun index ↦ layer_mul factor values index
    rw [inverseLayers, hlayer, ih, inverseLayers]

theorem forwardLayers_add (first second : ℕ → R) (layers : ℕ) :
    twiddles.forwardLayers layers (fun index ↦ first index + second index) = fun index ↦
      twiddles.forwardLayers layers first index + twiddles.forwardLayers layers second index := by
  induction layers with
  | zero => rfl
  | succ layers ih =>
    funext index
    rw [forwardLayers, ih, layer_add, forwardLayers, forwardLayers]

theorem inverseLayers_add (first second : ℕ → R) (layers : ℕ) :
    twiddles.inverseLayers layers (fun index ↦ first index + second index) = fun index ↦
      twiddles.inverseLayers layers first index + twiddles.inverseLayers layers second index := by
  induction layers generalizing first second with
  | zero => rfl
  | succ layers ih =>
    have hlayer : layer (2 ^ (depth - 1 - layers))
        (fun block ↦ .inverse (twiddles.inverseZeta (2 ^ layers + block)))
        (fun index ↦ first index + second index) = fun index ↦
          layer (2 ^ (depth - 1 - layers))
              (fun block ↦ .inverse (twiddles.inverseZeta (2 ^ layers + block))) first index +
            layer (2 ^ (depth - 1 - layers))
              (fun block ↦ .inverse (twiddles.inverseZeta (2 ^ layers + block))) second index :=
      funext fun index ↦ layer_add first second index
    rw [inverseLayers, hlayer, ih, inverseLayers, inverseLayers]

/-- The twiddle factors of a layer. -/
theorem inverseZeta_mul_zeta_of_lt {layers : ℕ} (hlayers : layers < depth) {index : ℕ}
    (hindex : index < 2 ^ depth) :
    twiddles.inverseZeta (2 ^ layers + index / 2 ^ (depth - 1 - layers) / 2) *
      twiddles.zeta (2 ^ layers + index / 2 ^ (depth - 1 - layers) / 2) = 1 :=
  twiddles.inverseZeta_mul_zeta _ (by positivity) (block_lt hlayers hindex)

theorem inverseLayers_forwardLayers (values : ℕ → R) {layers : ℕ} (hlayers : layers ≤ depth)
    {index : ℕ} (hindex : index < 2 ^ depth) :
    twiddles.inverseLayers layers (twiddles.forwardLayers layers values) index =
      2 ^ layers * values index := by
  induction layers generalizing index with
  | zero => rw [pow_zero, one_mul, inverseLayers, forwardLayers]
  | succ layers ih =>
    have hlt := Nat.lt_of_succ_le hlayers
    have hlayer : ∀ index < 2 ^ depth, layer (2 ^ (depth - 1 - layers))
        (fun block ↦ .inverse (twiddles.inverseZeta (2 ^ layers + block)))
        (twiddles.forwardLayers (layers + 1) values) index =
          2 * twiddles.forwardLayers layers values index := by
      intro index hindex
      refine layer_layer (by positivity) _ (Butterfly.inverse_undoes_forward ?_)
      exact twiddles.inverseZeta_mul_zeta_of_lt hlt hindex
    rw [inverseLayers, twiddles.inverseLayers_congr hlayer hlt.le hindex, inverseLayers_mul]
    show 2 * twiddles.inverseLayers layers (twiddles.forwardLayers layers values) index = _
    rw [ih hlt.le hindex, pow_succ']
    ring

theorem forwardLayers_inverseLayers (values : ℕ → R) {layers : ℕ} (hlayers : layers ≤ depth)
    {index : ℕ} (hindex : index < 2 ^ depth) :
    twiddles.forwardLayers layers (twiddles.inverseLayers layers values) index =
      2 ^ layers * values index := by
  induction layers generalizing values index with
  | zero => rw [pow_zero, one_mul, inverseLayers, forwardLayers]
  | succ layers ih =>
    have hlt := Nat.lt_of_succ_le hlayers
    have hpairs := pairs_eq hlt
    have hbefore : ∀ index < 2 ^ layers * (2 * 2 ^ (depth - 1 - layers)),
        twiddles.forwardLayers layers (twiddles.inverseLayers (layers + 1) values) index =
          2 ^ layers * layer (2 ^ (depth - 1 - layers))
            (fun block ↦ .inverse (twiddles.inverseZeta (2 ^ layers + block))) values index := by
      intro index hbound
      rw [hpairs] at hbound
      rw [inverseLayers, ih _ hlt.le hbound]
    have hundoes := Butterfly.forward_undoes_inverse
      (twiddles.inverseZeta_mul_zeta_of_lt hlt hindex)
    rw [forwardLayers, layer_congr (by positivity) hbefore (by rwa [hpairs]), layer_mul,
      layer_layer (by positivity) values hundoes, pow_succ]
    ring

/-- The inverse transform undoes the forward one, up to a factor. -/
theorem inverse_forward (values : ℕ → R) {index : ℕ} (hindex : index < 2 ^ depth) :
    twiddles.inverse (twiddles.forward values) index = 2 ^ depth * values index :=
  twiddles.inverseLayers_forwardLayers values le_rfl hindex

/-- The forward transform undoes the inverse one, up to a factor. -/
theorem forward_inverse (values : ℕ → R) {index : ℕ} (hindex : index < 2 ^ depth) :
    twiddles.forward (twiddles.inverse values) index = 2 ^ depth * values index :=
  twiddles.forwardLayers_inverseLayers values le_rfl hindex

/-- The transformed sequence determines the sequence. -/
theorem forward_injective (hunit : IsUnit (2 ^ depth : R)) {first second : ℕ → R}
    (hvalues : ∀ index < 2 ^ depth, twiddles.forward first index = twiddles.forward second index)
    {index : ℕ} (hindex : index < 2 ^ depth) : first index = second index := by
  refine hunit.mul_left_cancel ?_
  rw [← twiddles.inverse_forward first hindex, ← twiddles.inverse_forward second hindex]
  exact twiddles.inverseLayers_congr hvalues le_rfl hindex

/-- An element whose values at the points are the transformed sequence is the element of the
sequence. -/
theorem eq_ofCoefficients_of_evaluation [Nontrivial R] (hunit : IsUnit (2 ^ depth : R))
    {element : NegacyclicRing R (2 ^ depth)} {values : ℕ → R}
    (hvalues : ∀ (index : ℕ) (hindex : index < 2 ^ depth),
      evaluation (twiddles.point index) (twiddles.point_pow hindex) element =
        twiddles.forward values index) :
    element = ofCoefficients (2 ^ depth) values := by
  refine ext_evaluation (fun index hindex ↦ twiddles.point_pow hindex) ?_ fun index hindex ↦ ?_
  · intro first second hsums index hindex
    refine twiddles.forward_injective hunit (fun other hother ↦ ?_) hindex
    rw [twiddles.forward_eq_sum first hother, twiddles.forward_eq_sum second hother]
    exact hsums other hother
  · rw [hvalues index hindex, twiddles.forward_eq_evaluation values hindex]

/-- The scaled inverse transform gives the element of some values. -/
theorem eq_ofCoefficients_inverse [Nontrivial R] {scale : R} (hscale : scale * 2 ^ depth = 1)
    {element : NegacyclicRing R (2 ^ depth)} {values : ℕ → R}
    (hvalues : ∀ (index : ℕ) (hindex : index < 2 ^ depth),
      evaluation (twiddles.point index) (twiddles.point_pow hindex) element = values index) :
    element = ofCoefficients (2 ^ depth) fun index ↦ scale * twiddles.inverse values index := by
  have hunit : IsUnit (2 ^ depth : R) := IsUnit.of_mul_eq_one_right scale hscale
  refine twiddles.eq_ofCoefficients_of_evaluation hunit fun index hindex ↦ ?_
  rw [hvalues index hindex, forward, twiddles.forwardLayers_mul]
  show values index = scale * twiddles.forward (twiddles.inverse values) index
  rw [twiddles.forward_inverse values hindex, ← mul_assoc, hscale, one_mul]

/-- Multiplying the transformed sequences multiplies the elements. -/
theorem inverse_mul_forward [Nontrivial R] {scale : R} (hscale : scale * 2 ^ depth = 1)
    (first second : ℕ → R) {index : ℕ} (hindex : index < 2 ^ depth) :
    scale * twiddles.inverse
        (fun index ↦ twiddles.forward first index * twiddles.forward second index) index =
      (ofCoefficients (2 ^ depth) first * ofCoefficients (2 ^ depth) second).coefficient index := by
  have hproduct : ofCoefficients (2 ^ depth) first * ofCoefficients (2 ^ depth) second =
      ofCoefficients (2 ^ depth) fun index ↦ scale * twiddles.inverse
        (fun index ↦ twiddles.forward first index * twiddles.forward second index) index := by
    refine twiddles.eq_ofCoefficients_inverse hscale fun index hindex ↦ ?_
    rw [map_mul, ← twiddles.forward_eq_evaluation first hindex,
      ← twiddles.forward_eq_evaluation second hindex]
  rw [hproduct, coefficient_ofCoefficients _ hindex]

/-- Every sequence is the values of an element at the points. -/
theorem exists_evaluation_eq (hunit : IsUnit (2 ^ depth : R)) (values : ℕ → R) :
    ∃ element : NegacyclicRing R (2 ^ depth), ∀ (index : ℕ) (hindex : index < 2 ^ depth),
      evaluation (twiddles.point index) (twiddles.point_pow hindex) element = values index := by
  obtain ⟨factor, hfactor⟩ := hunit.exists_left_inv
  refine ⟨ofCoefficients (2 ^ depth) (twiddles.inverse fun index ↦ factor * values index),
    fun index hindex ↦ ?_⟩
  rw [← twiddles.forward_eq_evaluation _ hindex, twiddles.forward_inverse _ hindex, ← mul_assoc,
    mul_comm (2 ^ depth) factor, hfactor, one_mul]

end Twiddles

/-! ### Layers in place -/

section InPlace

variable {size length : ℕ}

/-- A step that replaces the values at an index and at its partner by those of a butterfly. -/
def ActsAs (step : List R → ℕ → Option (List R)) (size length : ℕ) (butterfly : Butterfly R) :
    Prop :=
  ∀ (values : ℕ → R) (index : ℕ), index + length < size → step (tabulate size values) index =
    some (tabulate size (Function.update
      (Function.update values index (butterfly.top (values index) (values (index + length))))
      (index + length) (butterfly.bottom (values index) (values (index + length)))))

/-- The sequence in which the layer has been computed on a set of indices. -/
def partialLayer (length : ℕ) (butterflies : ℕ → Butterfly R) (values : ℕ → R)
    (computed : Finset ℕ) : ℕ → R :=
  computed.piecewise (layer length butterflies values) values

/-- A step computes the layer on an index of a first row and on its partner. -/
theorem step_partialLayer {step : List R → ℕ → Option (List R)} {block : ℕ}
    {butterflies : ℕ → Butterfly R} (hstep : ActsAs step size length (butterflies block))
    (hlength : 0 < length) (values : ℕ → R) {computed : Finset ℕ} {index : ℕ}
    (hindex : index + length < size) (hrow : index / length = 2 * block)
    (hleft : index ∉ computed) (hright : index + length ∉ computed) :
    step (tabulate size (partialLayer length butterflies values computed)) index =
      some (tabulate size (partialLayer length butterflies values
        (insert (index + length) (insert index computed)))) := by
  have heven : index / length % 2 = 0 := by
    rw [hrow]
    exact Nat.mul_mod_right 2 block
  have hodd : (index + length) / length % 2 = 1 := by
    rw [add_div_eq hlength]
    exact (succ_row heven).1
  have hblock : index / length / 2 = block := by
    rw [hrow]
    exact Nat.mul_div_cancel_left block Nat.two_pos
  have hnextBlock : (index + length) / length / 2 = block := by
    rw [add_div_eq hlength, (succ_row heven).2, hblock]
  rw [hstep _ _ hindex, partialLayer, partialLayer, Finset.piecewise_insert,
    Finset.piecewise_insert, Finset.piecewise_eq_of_notMem _ _ _ hleft,
    Finset.piecewise_eq_of_notMem _ _ _ hright, layer_of_even heven, layer_of_odd hodd, hblock,
    hnextBlock, Nat.add_sub_cancel]

/-- The steps over the first row of a pair compute the layer on the pair, in place. -/
theorem foldlM_pair {step : List R → ℕ → Option (List R)} {block : ℕ}
    {butterflies : ℕ → Butterfly R} (hstep : ActsAs step size length (butterflies block))
    (hlength : 0 < length) (hsize : (block + 1) * (2 * length) ≤ size) (values : ℕ → R) :
    (List.range' (block * (2 * length)) length).foldlM step
        (tabulate size (partialLayer length butterflies values
          (Finset.range (block * (2 * length))))) =
      some (tabulate size (partialLayer length butterflies values
        (Finset.range ((block + 1) * (2 * length))))) := by
  have hprogress : ∀ count ≤ length, (List.range' (block * (2 * length)) count).foldlM step
      (tabulate size (partialLayer length butterflies values
        (Finset.range (block * (2 * length))))) =
      some (tabulate size (partialLayer length butterflies values
        (Finset.range (block * (2 * length) + count) ∪
          Finset.Ico (block * (2 * length) + length)
            (block * (2 * length) + length + count)))) := by
    intro count hcount
    induction count with
    | zero => simp
    | succ count ih =>
      have hindex : block * (2 * length) + count + length < size := by
        rw [add_mul, one_mul] at hsize
        omega
      have hrow : (block * (2 * length) + count) / length = 2 * block := by
        rw [show block * (2 * length) + count = count + length * (2 * block) by ring,
          Nat.add_mul_div_left _ _ hlength, Nat.div_eq_of_lt hcount, zero_add]
      have hcomputed : insert (block * (2 * length) + count + length)
          (insert (block * (2 * length) + count) (Finset.range (block * (2 * length) + count) ∪
            Finset.Ico (block * (2 * length) + length) (block * (2 * length) + length + count))) =
          Finset.range (block * (2 * length) + (count + 1)) ∪
            Finset.Ico (block * (2 * length) + length)
              (block * (2 * length) + length + (count + 1)) := by
        ext index
        simp only [Finset.mem_insert, Finset.mem_union, Finset.mem_range, Finset.mem_Ico]
        omega
      have hlast : ∀ state, List.foldlM step state [block * (2 * length) + count] =
          step state (block * (2 * length) + count) := fun state ↦ bind_pure _
      rw [List.range'_1_concat, List.foldlM_append, ih (Nat.le_of_succ_le hcount),
        Option.bind_eq_bind, Option.bind_some, hlast,
        step_partialLayer hstep hlength values hindex hrow, hcomputed]
      · simp only [Finset.mem_union, Finset.mem_range, Finset.mem_Ico]
        omega
      · simp only [Finset.mem_union, Finset.mem_range, Finset.mem_Ico]
        omega
  have hcomputed : Finset.range (block * (2 * length) + length) ∪
      Finset.Ico (block * (2 * length) + length) (block * (2 * length) + length + length) =
        Finset.range ((block + 1) * (2 * length)) := by
    ext index
    rw [add_mul, one_mul]
    simp only [Finset.mem_union, Finset.mem_range, Finset.mem_Ico]
    omega
  rw [hprogress length le_rfl, hcomputed]

/-- The layer computed on all indices. -/
theorem tabulate_partialLayer (butterflies : ℕ → Butterfly R) (values : ℕ → R) :
    tabulate size (partialLayer length butterflies values (Finset.range size)) =
      tabulate size (layer length butterflies values) :=
  tabulate_congr fun _ hindex ↦
    Finset.piecewise_eq_of_mem _ _ _ (Finset.mem_range.mpr hindex)

theorem partialLayer_empty (butterflies : ℕ → Butterfly R) (values : ℕ → R) :
    partialLayer length butterflies values ∅ = values :=
  Finset.piecewise_empty _ _

end InPlace

end SoftwareKeyCore.NumberTheoreticTransform
