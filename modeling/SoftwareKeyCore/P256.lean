import SoftwareKeyCore.Foundation.ByteString
import SoftwareKeyCore.Foundation.PrimalityCertificate

/-!
# The curve P-256

What the constructions over P-256 use of the third-party crate `p256`: the group of its points,
its scalars, and their encodings. `P256Library` is an implementation of it. The group is one of
prime order, whose scalars are the residues modulo `p256Order`, encoded in 32 big-endian bytes.
The points other than the identity have an uncompressed SEC1 encoding of 65 bytes that decodes to
the point.

`p256Order_prime` is that the order is prime, by a certificate. From the laws of the library
`fromRepr_toBytes` is that a scalar is read back from its bytes, and `smul_generator_eq_zero_iff`
that only the zero scalar gives the identity. `residueP256` is a group with these laws.
-/

set_option autoImplicit false
set_option relaxedAutoImplicit false

namespace SoftwareKeyCore

open ByteString PrimalityCertificate

/-! ### The order of the group -/

/-- The number of points of P-256. -/
def p256Order : ℕ :=
  0xffffffff00000000ffffffffffffffffbce6faada7179e84f3b9cac2fc632551

/-- The primes the certificate of the order rests on. -/
def p256OrderFactors : List ℕ :=
  [2, 3, 5, 7, 11, 17, 19, 29, 41, 43, 71, 127, 131, 229, 311, 373, 1201, 1297, 3023, 3407, 16879,
    17449, 38189, 104471, 126241, 155317]

/-- A certificate that the order is prime. -/
def p256OrderCertificate : List PrattEntry :=
  [⟨9350987, 2, [2, 17, 229, 1201]⟩,
    ⟨187019741, 2, [2, 2, 5, 9350987]⟩,
    ⟨311245691, 2, [2, 5, 7, 17, 29, 29, 311]⟩,
    ⟨622491383, 5, [2, 311245691]⟩,
    ⟨3969899, 2, [2, 19, 104471]⟩,
    ⟨1002328039319, 19, [2, 126241, 3969899]⟩,
    ⟨191039911, 3, [2, 3, 5, 41, 155317]⟩,
    ⟨208150935158385979, 2, [2, 3, 11, 43, 127, 3023, 191039911]⟩,
    ⟨2624747550333869278416773953, 7, [2, 2, 2, 2, 2, 2, 3, 3, 1297, 16879, 208150935158385979]⟩,
    ⟨p256Order, 7, [2, 2, 2, 2, 3, 71, 131, 373, 3407, 17449, 38189, 187019741, 622491383,
      1002328039319, 2624747550333869278416773953]⟩]

theorem prime_of_mem_p256OrderFactors : ∀ prime ∈ p256OrderFactors, prime.Prime := by
  simp only [p256OrderFactors, List.forall_mem_cons]
  norm_num

theorem p256Order_prime : p256Order.Prime := by
  have hcheck : checkPratt p256OrderFactors p256OrderCertificate = true := by decide +kernel
  exact prime_of_checkPratt hcheck prime_of_mem_p256OrderFactors
    ⟨p256Order, 7, _⟩ (List.mem_of_mem_getLast? rfl)

instance : Fact p256Order.Prime :=
  ⟨p256Order_prime⟩

/-! ### Scalars and points -/

/-- `p256::Scalar`. -/
abbrev P256Scalar := ZMod p256Order

/-- A scalar fits its encoding. -/
theorem p256Scalar_val_lt (scalar : P256Scalar) : scalar.val < 256 ^ 32 := by
  have horder : p256Order < 256 ^ 32 := by decide +kernel
  exact (ZMod.val_lt scalar).trans horder

/-- An implementation of P-256. -/
structure P256Library where
  ProjectivePoint : Type
  [addCommGroup : AddCommGroup ProjectivePoint]
  [module : Module P256Scalar ProjectivePoint]
  [decidableEq : DecidableEq ProjectivePoint]
  generator : ProjectivePoint
  fromRepr : List.Vector UInt8 32 → Option P256Scalar
  toBytes : P256Scalar → List.Vector UInt8 32
  toSec1Point : ProjectivePoint → ByteString
  fromSec1Bytes : ByteString → Option {point : ProjectivePoint // point ≠ 0}
  generator_ne_zero : generator ≠ 0
  fromRepr_eq : ∀ bytes, fromRepr bytes =
    if fromBeBytes bytes.toList < p256Order then some (fromBeBytes bytes.toList : P256Scalar)
    else none
  toList_toBytes : ∀ scalar, (toBytes scalar).toList = toBeBytes 32 scalar.val
  length_toSec1Point : ∀ {point}, point ≠ 0 → (toSec1Point point).length = 65
  fromSec1Bytes_toSec1Point : ∀ {point} (hpoint : point ≠ 0),
    fromSec1Bytes (toSec1Point point) = some ⟨point, hpoint⟩

namespace P256Library

attribute [instance] addCommGroup module decidableEq

variable (p256 : P256Library)

/-- A scalar is read back from its bytes. -/
theorem fromRepr_toBytes (scalar : P256Scalar) :
    p256.fromRepr (p256.toBytes scalar) = some scalar := by
  rw [p256.fromRepr_eq, p256.toList_toBytes, fromBeBytes_toBeBytes_of_lt (p256Scalar_val_lt scalar),
    if_pos (ZMod.val_lt scalar), ZMod.natCast_zmod_val]

/-- Only the zero scalar gives the identity. -/
theorem smul_generator_eq_zero_iff (scalar : P256Scalar) :
    scalar • p256.generator = 0 ↔ scalar = 0 := by
  rw [smul_eq_zero, or_iff_left p256.generator_ne_zero]

end P256Library

/-- The residues themselves as the group, a point encoded by its residue and a zero coordinate. -/
def residueP256 : P256Library where
  ProjectivePoint := P256Scalar
  generator := 1
  fromRepr bytes :=
    if fromBeBytes bytes.toList < p256Order then some (fromBeBytes bytes.toList : P256Scalar)
    else none
  toBytes scalar := ⟨toBeBytes 32 scalar.val, length_toBeBytes _ _⟩
  toSec1Point point := 4 :: toBeBytes 32 point.val ++ toBeBytes 32 0
  fromSec1Bytes bytes :=
    let point := (fromBeBytes (slice bytes 1 32) : P256Scalar)
    if hpoint : point ≠ 0 then some ⟨point, hpoint⟩ else none
  generator_ne_zero := one_ne_zero
  fromRepr_eq _ := rfl
  toList_toBytes _ := rfl
  length_toSec1Point _ := by simp
  fromSec1Bytes_toSec1Point := by
    intro point hpoint
    have hslice : slice (4 :: toBeBytes 32 point.val ++ toBeBytes 32 0) 1 32 =
        toBeBytes 32 point.val := List.take_left' (length_toBeBytes _ _)
    have hdecoded : (fromBeBytes (slice (4 :: toBeBytes 32 point.val ++ toBeBytes 32 0) 1 32) :
        P256Scalar) = point := by
      rw [hslice, fromBeBytes_toBeBytes_of_lt (p256Scalar_val_lt point), ZMod.natCast_zmod_val]
    simp only [hdecoded]
    rw [dif_pos hpoint]

end SoftwareKeyCore
