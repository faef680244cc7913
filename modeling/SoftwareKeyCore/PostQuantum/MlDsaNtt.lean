import SoftwareKeyCore.Foundation.CheckedSlice
import SoftwareKeyCore.Foundation.NumberTheoreticTransform

/-!
# The number-theoretic transform of ML-DSA

`post_quantum/ml_dsa_validation.rs`: the table of twiddle factors and the transform `ntt`, which
computes its eight layers in place and counts through the table, upwards in the forward direction
and downwards, with negated factors, in the inverse one. The third-party field elements are the
residues modulo `q` (`Elem`). An index outside a slice or the table, or a counter below zero, makes
the transform answer nothing.

`ntt_forward` and `ntt_inverse` are what `ntt` computes: the transforms of
`NumberTheoreticTransform` with the twiddle factors `twiddles`, the inverse one scaled.
-/

set_option autoImplicit false
set_option relaxedAutoImplicit false

namespace SoftwareKeyCore.MlDsaValidation

open CheckedSlice NumberTheoreticTransform TabulatedList

/-! ### The transform -/

/-- `Q`. -/
def q : ℕ := 8380417

/-- `Elem`. -/
abbrev Elem := ZMod q

/-- The powers of the root of unity, from a power on. -/
def zetaPowers : (count power : ℕ) → List ℕ
  | 0, _ => []
  | count + 1, power => power :: zetaPowers count (power * 1753 % q)

/-- `u8::reverse_bits`. -/
def reverseBits (byte : ℕ) : ℕ :=
  (BitVec.ofNat 8 byte).reverse.toNat

/-- `ZETAS`. -/
def zetas : List ℕ :=
  0 :: (List.range' 1 255).map fun i ↦ (zetaPowers 256 1).getD (reverseBits i) 0

/-- Replace an entry of a slice. -/
def setElem (values : List Elem) (index : ℕ) (value : Elem) : Option (List Elem) :=
  if index < values.length then some (values.set index value) else none

/-- The innermost body of `ntt`. -/
def nttButterfly (inverse : Bool) (zeta : Elem) (length : ℕ) (values : List Elem) (i : ℕ) :
    Option (List Elem) := do
  let left ← values[i]?
  if inverse then do
    let right ← values[i + length]?
    let values ← setElem values i (left + right)
    let right ← values[i + length]?
    setElem values (i + length) (zeta * (left - right))
  else do
    let right ← values[i + length]?
    let right := zeta * right
    let values ← setElem values i (left + right)
    setElem values (i + length) (left - right)

/-- The next counter and twiddle factor. -/
def nextZeta (inverse : Bool) (twiddle : ℕ) : Option (ℕ × Elem) :=
  if inverse then do
    let twiddle ← subtract twiddle 1
    let zeta ← zetas[twiddle]?
    some (twiddle, -(zeta : Elem))
  else do
    let twiddle := twiddle + 1
    let zeta ← zetas[twiddle]?
    some (twiddle, (zeta : Elem))

/-- The body of the loop of `ntt` over the starts of the blocks. -/
def nttBlock (inverse : Bool) (length : ℕ) (state : List Elem × ℕ) (start : ℕ) :
    Option (List Elem × ℕ) := do
  let (twiddle, zeta) ← nextZeta inverse state.2
  let values ← (List.range' start length).foldlM (nttButterfly inverse zeta length) state.1
  some (values, twiddle)

/-- The body of the loop of `ntt` over the layers. -/
def nttLayer (inverse : Bool) (state : List Elem × ℕ) (layer : ℕ) : Option (List Elem × ℕ) :=
  let length := 2 ^ (if inverse then layer else 7 - layer)
  (List.range' 0 (256 / (2 * length)) (2 * length)).foldlM (nttBlock inverse length) state

/-- `ntt`. -/
def ntt (values : List Elem) (inverse : Bool) : Option (List Elem) := do
  let (values, _) ← (List.range 8).foldlM (nttLayer inverse) (values, if inverse then 256 else 0)
  if inverse then some (values.map fun value ↦ 8347681 * value) else some values

instance : Fact (1 < q) :=
  ⟨by decide⟩

/-! ### The twiddle factors -/

/-- The entry of the table at a node. -/
def zeta (node : ℕ) : Elem :=
  (zetas.getD node 0 : Elem)

/-- The negated entry at the mirror image of a node in its layer. -/
def inverseZeta (node : ℕ) : Elem :=
  -zeta (3 * 2 ^ Nat.log2 node - 1 - node)

theorem length_zetas : zetas.length = 256 := by
  simp [zetas]

theorem getD_zetaPowers {count index power : ℕ} (hindex : index < count) (hpower : power < q) :
    (zetaPowers count power).getD index 0 = power * 1753 ^ index % q := by
  induction count generalizing index power with
  | zero => exact absurd hindex (Nat.not_lt_zero index)
  | succ count ih =>
    cases index with
    | zero => rw [zetaPowers, List.getD_cons_zero, pow_zero, mul_one, Nat.mod_eq_of_lt hpower]
    | succ index =>
      have hnext : power * 1753 % q < q := Nat.mod_lt _ (by decide)
      rw [zetaPowers, List.getD_cons_succ, ih (Nat.lt_of_succ_lt_succ hindex) hnext, pow_succ',
        ← mul_assoc, Nat.mod_mul_mod]

theorem reverseBits_lt (byte : ℕ) : reverseBits byte < 256 :=
  (BitVec.ofNat 8 byte).reverse.isLt

/-- The entry of the table at a node is a power of the root of unity. -/
theorem getElem?_zetas_eq {node : ℕ} (hpositive : 0 < node) (hnode : node < 256) :
    zetas[node]? = some (1753 ^ reverseBits node % q) := by
  obtain ⟨index, rfl⟩ := Nat.exists_eq_add_of_le' hpositive
  rw [zetas, List.getElem?_cons_succ, List.getElem?_map, List.getElem?_range' (by omega),
    Option.map_some, getD_zetaPowers (reverseBits_lt _) (by decide), one_mul, one_mul, add_comm]

theorem zeta_eq_pow {node : ℕ} (hpositive : 0 < node) (hnode : node < 256) :
    zeta node = 1753 ^ reverseBits node := by
  rw [zeta, List.getD_eq_getElem?_getD, getElem?_zetas_eq hpositive hnode, Option.getD_some,
    ZMod.natCast_mod]
  push_cast
  rfl

/-- The half of the order of the root of unity. -/
theorem root_pow_half : (1753 : Elem) ^ 256 = -1 := by
  have hpow : (1753 : Elem) ^ 256 = ((1753 ^ 256 % q : ℕ) : Elem) := by
    rw [ZMod.natCast_mod]
    push_cast
    ring
  rw [hpow]
  decide +kernel

/-- Reversing the bits of a node and of its parent. -/
theorem two_mul_reverseBits : ∀ node < 256, 1 < node → 2 * reverseBits node =
    if node % 2 = 0 then reverseBits (node / 2) else 256 + reverseBits (node / 2) := by
  decide +kernel

/-- Reversing the bits of a leaf and of its parent. -/
theorem two_mul_reverseBits_add_one : ∀ index < 256, 2 * reverseBits index + 1 =
    if index % 2 = 0 then reverseBits (128 + index / 2)
    else 256 + reverseBits (128 + index / 2) := by
  decide +kernel

/-- Reversing the bits of a node and of its mirror image. -/
theorem reverseBits_mirror : ∀ node < 256, 0 < node →
    (0 < 3 * 2 ^ Nat.log2 node - 1 - node ∧ 3 * 2 ^ Nat.log2 node - 1 - node < 256) ∧
      reverseBits (3 * 2 ^ Nat.log2 node - 1 - node) + reverseBits node = 256 := by
  decide +kernel

/-- The table holds square roots of the values at the nodes. -/
theorem zeta_sq {node : ℕ} (hpositive : 0 < node) (hnode : node < 256) :
    zeta node ^ 2 = nodeValue zeta node := by
  rw [zeta_eq_pow hpositive hnode, ← pow_mul, mul_comm]
  by_cases hroot : node = 1
  · rw [hroot, nodeValue, if_pos rfl]
    exact root_pow_half
  · have hparent : zeta (node / 2) = 1753 ^ reverseBits (node / 2) :=
      zeta_eq_pow (by omega) (by omega)
    rw [nodeValue, if_neg hroot, hparent, two_mul_reverseBits node hnode (by omega)]
    split_ifs
    · rfl
    · rw [pow_add, root_pow_half, neg_one_mul]

theorem inverseZeta_mul_zeta {node : ℕ} (hpositive : 0 < node) (hnode : node < 256) :
    inverseZeta node * zeta node = 1 := by
  obtain ⟨⟨hmirrorPositive, hmirror⟩, hsum⟩ := reverseBits_mirror node hnode hpositive
  rw [inverseZeta, zeta_eq_pow hmirrorPositive hmirror, zeta_eq_pow hpositive hnode, neg_mul,
    ← pow_add, hsum, root_pow_half, neg_neg]

/-- The twiddle factors of `ntt`. -/
def twiddles : Twiddles Elem 8 where
  zeta := zeta
  inverseZeta := inverseZeta
  zeta_sq _ hpositive hnode := zeta_sq hpositive hnode
  inverseZeta_mul_zeta _ hpositive hnode := inverseZeta_mul_zeta hpositive hnode

/-- The points of the transform are the odd powers of the root of unity, in bit-reversed order. -/
theorem point_eq {index : ℕ} (hindex : index < 256) :
    twiddles.point index = 1753 ^ (2 * reverseBits index + 1) := by
  have hparent : zeta (128 + index / 2) = 1753 ^ reverseBits (128 + index / 2) :=
    zeta_eq_pow (by omega) (by omega)
  show nodeValue zeta (2 * 128 + index) = _
  rw [two_mul_reverseBits_add_one index hindex]
  rcases Nat.mod_two_eq_zero_or_one index with heven | hodd
  · rw [nodeValue_of_even heven, hparent, if_pos heven]
  · rw [nodeValue_of_odd (by decide) hodd, hparent, if_neg (by omega), pow_add, root_pow_half,
      neg_one_mul]

/-! ### What the transform computes -/

theorem setElem_tabulate (values : ℕ → Elem) {index : ℕ} (hindex : index < 256) (value : Elem) :
    setElem (tabulate 256 values) index value =
      some (tabulate 256 (Function.update values index value)) := by
  rw [setElem, length_tabulate, if_pos hindex, set_tabulate]

/-- The forward body acts as the forward butterfly. -/
theorem actsAs_forward (zeta : Elem) (length : ℕ) :
    ActsAs (nttButterfly false zeta length) 256 length (.forward zeta) := by
  intro values index hindex
  have hleft : index < 256 := lt_of_le_of_lt (Nat.le_add_right index length) hindex
  simp only [nttButterfly, getElem?_tabulate _ hleft, getElem?_tabulate _ hindex,
    setElem_tabulate _ hleft, setElem_tabulate _ hindex, Butterfly.top, Butterfly.bottom,
    Butterfly.forward, Option.bind_eq_bind, Option.bind_some, Bool.false_eq_true, if_false, one_mul,
    neg_mul, sub_eq_add_neg]

/-- The inverse body acts as the inverse butterfly. -/
theorem actsAs_inverse (zeta : Elem) {length : ℕ} (hlength : 0 < length) :
    ActsAs (nttButterfly true zeta length) 256 length (.inverse zeta) := by
  intro values index hindex
  have hleft : index < 256 := lt_of_le_of_lt (Nat.le_add_right index length) hindex
  have hne : index + length ≠ index := by omega
  simp only [nttButterfly, getElem?_tabulate _ hleft, getElem?_tabulate _ hindex,
    setElem_tabulate _ hleft, setElem_tabulate _ hindex, Butterfly.top, Butterfly.bottom,
    Butterfly.inverse, Option.bind_eq_bind, Option.bind_some, if_true, Function.update_of_ne hne,
    one_mul, neg_mul, sub_eq_add_neg, mul_add, mul_neg]

theorem getElem?_zetas {node : ℕ} (hnode : node < 256) :
    zetas[node]? = some (zetas.getD node 0) := by
  have hlength : node < zetas.length := by rwa [length_zetas]
  rw [List.getElem?_eq_getElem hlength, List.getD_eq_getElem _ _ hlength]

theorem nextZeta_forward {twiddle : ℕ} (htwiddle : twiddle + 1 < 256) :
    nextZeta false twiddle = some (twiddle + 1, zeta (twiddle + 1)) := by
  simp only [nextZeta, getElem?_zetas htwiddle, zeta, Bool.false_eq_true, if_false,
    Option.bind_eq_bind, Option.bind_some]

theorem nextZeta_inverse {twiddle : ℕ} (htwiddle : twiddle < 256) :
    nextZeta true (twiddle + 1) = some (twiddle, -zeta twiddle) := by
  simp only [nextZeta, subtract_eq_some (Nat.le_add_left 1 twiddle), Nat.add_sub_cancel,
    getElem?_zetas htwiddle, zeta, if_true, Option.bind_eq_bind, Option.bind_some]

section Blocks

variable {inverse : Bool} {length : ℕ} {butterflies : ℕ → Butterfly Elem} {counter : ℕ → ℕ}
  {factor : ℕ → Elem}

/-- A block computes its pair of rows and advances the counter. -/
theorem nttBlock_eq (hlength : 0 < length) {block : ℕ} (hsize : (block + 1) * (2 * length) ≤ 256)
    (hnext : nextZeta inverse (counter block) = some (counter (block + 1), factor block))
    (hacts : ActsAs (nttButterfly inverse (factor block) length) 256 length (butterflies block))
    (values : ℕ → Elem) :
    nttBlock inverse length (tabulate 256 (partialLayer length butterflies values
        (Finset.range (block * (2 * length)))), counter block) (block * (2 * length)) =
      some (tabulate 256 (partialLayer length butterflies values
        (Finset.range ((block + 1) * (2 * length)))), counter (block + 1)) := by
  simp only [nttBlock, hnext, Option.bind_eq_bind, Option.bind_some,
    foldlM_pair hacts hlength hsize values]

/-- The blocks compute their pairs of rows in order. -/
theorem foldlM_nttBlock (hlength : 0 < length) {count : ℕ} (hsize : count * (2 * length) ≤ 256)
    (hnext : ∀ block < count,
      nextZeta inverse (counter block) = some (counter (block + 1), factor block))
    (hacts : ∀ block < count,
      ActsAs (nttButterfly inverse (factor block) length) 256 length (butterflies block))
    (values : ℕ → Elem) :
    (List.range' 0 count (2 * length)).foldlM (nttBlock inverse length)
        (tabulate 256 values, counter 0) =
      some (tabulate 256 (partialLayer length butterflies values
        (Finset.range (count * (2 * length)))), counter count) := by
  induction count with
  | zero =>
    rw [zero_mul, Finset.range_zero, partialLayer_empty]
    rfl
  | succ count ih =>
    have hbefore : count * (2 * length) ≤ 256 := by
      rw [add_mul] at hsize
      exact (Nat.le_add_right _ _).trans hsize
    have hstart : 0 + 2 * length * count = count * (2 * length) := by ring
    have hlast : ∀ state, [count * (2 * length)].foldlM (nttBlock inverse length) state =
        nttBlock inverse length state (count * (2 * length)) := fun state ↦ bind_pure _
    rw [List.range'_concat, List.foldlM_append,
      ih hbefore (fun block hblock ↦ hnext block (Nat.lt_succ_of_lt hblock))
        (fun block hblock ↦ hacts block (Nat.lt_succ_of_lt hblock)),
      Option.bind_eq_bind, Option.bind_some, hstart, hlast]
    exact nttBlock_eq hlength hsize (hnext count (Nat.lt_succ_self count))
      (hacts count (Nat.lt_succ_self count)) values

/-- Whole blocks compute the layer. -/
theorem nttLayer_eq {layer layers : ℕ} (hlayers : layers ≤ 7)
    (hlength : (2 ^ (if inverse then layer else 7 - layer) : ℕ) = 2 ^ (7 - layers))
    (hnext : ∀ block < 2 ^ layers,
      nextZeta inverse (counter block) = some (counter (block + 1), factor block))
    (hacts : ∀ block < 2 ^ layers, ActsAs (nttButterfly inverse (factor block) (2 ^ (7 - layers)))
      256 (2 ^ (7 - layers)) (butterflies block))
    (values : ℕ → Elem) :
    nttLayer inverse (tabulate 256 values, counter 0) layer =
      some (tabulate 256 (NumberTheoreticTransform.layer (2 ^ (7 - layers)) butterflies values),
        counter (2 ^ layers)) := by
  have hwhole : 2 ^ layers * (2 * 2 ^ (7 - layers)) = 256 := by
    rw [← pow_succ', ← pow_add, show layers + (7 - layers + 1) = 8 by omega]
    rfl
  have hcount : 256 / (2 * 2 ^ (7 - layers)) = 2 ^ layers := by
    rw [← hwhole, Nat.mul_div_cancel _ (by positivity)]
  rw [nttLayer, hlength]
  show (List.range' 0 (256 / (2 * 2 ^ (7 - layers))) (2 * 2 ^ (7 - layers))).foldlM _ _ = _
  rw [hcount, foldlM_nttBlock (by positivity) hwhole.le hnext hacts, hwhole, tabulate_partialLayer]

end Blocks

/-- The counter of a block of the forward direction is its node. -/
theorem nttLayer_forward {layers : ℕ} (hlayers : layers ≤ 7) (values : ℕ → Elem) :
    nttLayer false (tabulate 256 values, 2 ^ layers - 1) layers =
      some (tabulate 256 (layer (2 ^ (7 - layers))
        (fun block ↦ .forward (twiddles.zeta (2 ^ layers + block))) values),
          2 ^ (layers + 1) - 1) := by
  have hpositive : 0 < 2 ^ layers := by positivity
  have hbound : 2 ^ layers ≤ 2 ^ 7 := Nat.pow_le_pow_right Nat.two_pos hlayers
  have hnext : ∀ block < 2 ^ layers, nextZeta false (2 ^ layers - 1 + block) =
      some (2 ^ layers - 1 + (block + 1), zeta (2 ^ layers + block)) := by
    intro block hblock
    have hcounter : 2 ^ layers - 1 + block + 1 = 2 ^ layers + block := by omega
    rw [nextZeta_forward (by omega), hcounter, ← add_assoc, hcounter]
  have hlayer := nttLayer_eq hlayers rfl hnext
    (fun block _ ↦ actsAs_forward (zeta (2 ^ layers + block)) (2 ^ (7 - layers))) values
  have hcounter : 2 ^ layers - 1 + 2 ^ layers = 2 ^ (layers + 1) - 1 := by
    rw [pow_succ]
    omega
  rw [hcounter] at hlayer
  exact hlayer

/-- The counter of a block of the inverse direction is the mirror image of its node. -/
theorem nttLayer_inverse {layers : ℕ} (hlayers : layers ≤ 7) (values : ℕ → Elem) :
    nttLayer true (tabulate 256 values, 2 ^ (layers + 1)) (7 - layers) =
      some (tabulate 256 (layer (2 ^ (7 - layers))
        (fun block ↦ .inverse (twiddles.inverseZeta (2 ^ layers + block))) values),
          2 ^ layers) := by
  have hbound : 2 ^ layers ≤ 2 ^ 7 := Nat.pow_le_pow_right Nat.two_pos hlayers
  have hnext : ∀ block < 2 ^ layers, nextZeta true (2 ^ (layers + 1) - block) =
      some (2 ^ (layers + 1) - (block + 1), inverseZeta (2 ^ layers + block)) := by
    intro block hblock
    have hlog : Nat.log2 (2 ^ layers + block) = layers := by
      rw [Nat.log2_eq_iff (by omega), pow_succ]
      omega
    have hcounter : 2 ^ (layers + 1) - block = 2 ^ (layers + 1) - (block + 1) + 1 := by
      rw [pow_succ]
      omega
    have hmirror : 3 * 2 ^ layers - 1 - (2 ^ layers + block) = 2 ^ (layers + 1) - (block + 1) := by
      rw [pow_succ]
      omega
    have htwiddle : 2 ^ (layers + 1) - (block + 1) < 256 := by
      rw [pow_succ]
      omega
    rw [hcounter, nextZeta_inverse htwiddle, inverseZeta, hlog, hmirror]
  have hlayer := nttLayer_eq hlayers rfl hnext
    (fun block _ ↦ actsAs_inverse (inverseZeta (2 ^ layers + block)) (by positivity)) values
  have hcounter : 2 ^ (layers + 1) - 2 ^ layers = 2 ^ layers := by
    rw [pow_succ]
    omega
  rw [hcounter] at hlayer
  exact hlayer

/-- The first layers of the forward direction. -/
theorem foldlM_nttLayer_forward (values : ℕ → Elem) {layers : ℕ} (hlayers : layers ≤ 8) :
    (List.range layers).foldlM (nttLayer false) (tabulate 256 values, 0) =
      some (tabulate 256 (twiddles.forwardLayers layers values), 2 ^ layers - 1) := by
  induction layers with
  | zero => rfl
  | succ layers ih =>
    have hlast : ∀ state, [layers].foldlM (nttLayer false) state = nttLayer false state layers :=
      fun state ↦ bind_pure _
    rw [List.range_succ, List.foldlM_append, ih (Nat.le_of_succ_le hlayers), Option.bind_eq_bind,
      Option.bind_some, hlast, nttLayer_forward (Nat.le_of_lt_succ hlayers)]
    rfl

/-- The first layers of the inverse direction leave the others to do. -/
theorem foldlM_nttLayer_inverse (values : ℕ → Elem) {layers : ℕ} (hlayers : layers ≤ 8) :
    ∃ result, (List.range layers).foldlM (nttLayer true) (tabulate 256 values, 256) =
      some (tabulate 256 result, 2 ^ (8 - layers)) ∧
        twiddles.inverseLayers (8 - layers) result = twiddles.inverse values := by
  induction layers with
  | zero => exact ⟨values, rfl, rfl⟩
  | succ layers ih =>
    obtain ⟨result, hfold, hresult⟩ := ih (Nat.le_of_succ_le hlayers)
    have hlast : ∀ state, [layers].foldlM (nttLayer true) state = nttLayer true state layers :=
      fun state ↦ bind_pure _
    have hremaining : 8 - layers = 8 - (layers + 1) + 1 := by omega
    have hlength : 7 - (8 - (layers + 1)) = layers := by omega
    have hlayer := @nttLayer_inverse (8 - (layers + 1)) (by omega) result
    rw [← hremaining] at hlayer
    refine ⟨layer (2 ^ (7 - (8 - (layers + 1)))) (fun block ↦
      .inverse (twiddles.inverseZeta (2 ^ (8 - (layers + 1)) + block))) result, ?_, ?_⟩
    · rw [List.range_succ, List.foldlM_append, hfold, Option.bind_eq_bind, Option.bind_some, hlast,
        ← hlayer, hlength]
    · rw [← hresult, hremaining]
      rfl

/-- The forward direction of `ntt` is the forward transform. -/
theorem ntt_forward (values : ℕ → Elem) :
    ntt (tabulate 256 values) false = some (tabulate 256 (twiddles.forward values)) := by
  have hlayers := foldlM_nttLayer_forward values le_rfl
  simp only [ntt, Bool.false_eq_true, if_false, hlayers, Option.bind_eq_bind, Option.bind_some]
  rfl

/-- The inverse direction of `ntt` is the scaled inverse transform. -/
theorem ntt_inverse (values : ℕ → Elem) :
    ntt (tabulate 256 values) true =
      some (tabulate 256 fun index ↦ 8347681 * twiddles.inverse values index) := by
  obtain ⟨result, hlayers, hresult⟩ := foldlM_nttLayer_inverse values le_rfl
  simp only [ntt, if_true, hlayers, Option.bind_eq_bind, Option.bind_some, map_tabulate]
  rw [← hresult]
  rfl

/-- The scaling of the inverse direction. -/
theorem scale_mul : (8347681 : Elem) * 2 ^ 8 = 1 := by
  decide +kernel

theorem isUnit_two_pow : IsUnit (2 ^ 8 : Elem) :=
  IsUnit.of_mul_eq_one_right 8347681 scale_mul

end SoftwareKeyCore.MlDsaValidation
