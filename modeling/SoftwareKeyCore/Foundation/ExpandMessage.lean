import SoftwareKeyCore.Foundation.ByteString

/-!
# The expansion of a message

`expand_message_xmd`, the expansion of a message to uniform bytes with a hash function, as the
standard for hashing to elliptic curves has it. The hash function is any function of a byte string;
the block size of its input and the length of its digests are parameters.

`expandMessageXmd_of_two_blocks` is the expansion to more than one digest and at most two.
-/

set_option autoImplicit false
set_option relaxedAutoImplicit false

namespace SoftwareKeyCore.ExpandMessage

open ByteString

/-- The blocks of an expansion, the first one with the index zero: every block is the hash of the first
digest masked with the block before it, the number of the block, and the domain. -/
def expandBlock (hash : ByteString → ByteString) (domainPrime b0 : ByteString) : ℕ → ByteString
  | 0 => hash (b0 ++ toBeBytes 1 1 ++ domainPrime)
  | index + 1 => hash (xorBytes b0 (expandBlock hash domainPrime b0 index) ++
      toBeBytes 1 (index + 2) ++ domainPrime)

/-- `expand_message_xmd`. -/
def expandMessageXmd (hash : ByteString → ByteString) (inputBlockSize digestLength : ℕ)
    (message domain : ByteString) (length : ℕ) : Option ByteString :=
  let blocks := length ⌈/⌉ digestLength
  if 255 < blocks ∨ 65535 < length ∨ 255 < domain.length then none
  else
    let domainPrime := domain ++ toBeBytes 1 domain.length
    let b0 := hash (List.replicate inputBlockSize 0 ++ message ++ toBeBytes 2 length ++
      toBeBytes 1 0 ++ domainPrime)
    some (((List.range blocks).flatMap (expandBlock hash domainPrime b0)).take length)

variable {hash : ByteString → ByteString} {inputBlockSize digestLength length : ℕ}
  {message domain : ByteString}

/-- An expansion to more than one digest and at most two is the first block and the start of the
second one. -/
theorem expandMessageXmd_of_two_blocks (hhash : ∀ message, (hash message).length = digestLength)
    (hlower : digestLength < length) (hupper : length ≤ 2 * digestLength) (hlength : length ≤ 65535)
    (hdomain : domain.length ≤ 255) :
    expandMessageXmd hash inputBlockSize digestLength message domain length =
      let domainPrime := domain ++ toBeBytes 1 domain.length
      let b0 := hash (List.replicate inputBlockSize 0 ++ message ++ toBeBytes 2 length ++
        toBeBytes 1 0 ++ domainPrime)
      let b1 := hash (b0 ++ toBeBytes 1 1 ++ domainPrime)
      let b2 := hash (xorBytes b0 b1 ++ toBeBytes 1 2 ++ domainPrime)
      some (b1 ++ b2.take (length - digestLength)) := by
  have hblocks : length ⌈/⌉ digestLength = 2 := by
    have hpositive : 0 < digestLength := by omega
    apply le_antisymm
    · rw [ceilDiv_le_iff_le_mul hpositive]
      omega
    · rw [← not_lt, Nat.lt_succ_iff, ceilDiv_le_iff_le_mul hpositive]
      omega
  have hlimits : ¬ (255 < length ⌈/⌉ digestLength ∨ 65535 < length ∨ 255 < domain.length) := by
    rw [hblocks]
    omega
  unfold expandMessageXmd
  dsimp only
  rw [if_neg hlimits, hblocks]
  refine congrArg some ?_
  rw [show List.range 2 = [0, 1] from rfl, List.flatMap_cons, List.flatMap_cons, List.flatMap_nil,
    List.append_nil, expandBlock, expandBlock, expandBlock, List.take_append, hhash,
    List.take_of_length_le (by rw [hhash]; omega)]

end SoftwareKeyCore.ExpandMessage
