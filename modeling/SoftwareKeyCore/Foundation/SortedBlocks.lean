import SoftwareKeyCore.Foundation.CheckedSlice

/-!
# Sorted blocks

Byte strings of one length in lexicographic order, one after the other: an encoding of a set of
such byte strings. `flatten_sortBlocks_eq_iff` says that lists without repeats have the same
encoding exactly when they have the same members.
-/

set_option autoImplicit false
set_option relaxedAutoImplicit false

namespace SoftwareKeyCore.SortedBlocks

open CheckedSlice

/-- `sort_unstable` of byte strings. Equal ones are not told apart, so that a stable order is as
good as any. -/
def sortBlocks (blocks : List ByteString) : List ByteString :=
  blocks.mergeSort fun left right ↦ decide (left ≤ right)

theorem perm_sortBlocks (blocks : List ByteString) : (sortBlocks blocks).Perm blocks :=
  List.mergeSort_perm _ _

theorem mem_sortBlocks {blocks : List ByteString} {block : ByteString} :
    block ∈ sortBlocks blocks ↔ block ∈ blocks :=
  (perm_sortBlocks blocks).mem_iff

theorem pairwise_sortBlocks (blocks : List ByteString) :
    (sortBlocks blocks).Pairwise (· ≤ ·) := by
  have hsorted : (sortBlocks blocks).Pairwise fun left right ↦ decide (left ≤ right) = true := by
    refine List.pairwise_mergeSort (fun first second third hfirst hsecond ↦ ?_)
      (fun first second ↦ ?_) blocks
    · exact decide_eq_true (List.le_trans (of_decide_eq_true hfirst) (of_decide_eq_true hsecond))
    · rw [Bool.or_eq_true, decide_eq_true_iff, decide_eq_true_iff]
      exact List.le_total first second
  exact hsorted.imp of_decide_eq_true

/-- The order of a list does not matter. -/
theorem sortBlocks_eq_of_perm {left right : List ByteString} (hperm : left.Perm right) :
    sortBlocks left = sortBlocks right := by
  refine List.Perm.eq_of_pairwise (fun first second _ _ hle hge ↦ List.le_antisymm hle hge)
    (pairwise_sortBlocks left) (pairwise_sortBlocks right) ?_
  exact (perm_sortBlocks left).trans (hperm.trans (perm_sortBlocks right).symm)

/-- Sorted blocks one after the other encode their set. -/
theorem flatten_sortBlocks_eq_iff {size : ℕ} (hsize : 0 < size) {left right : List ByteString}
    (hleft : ∀ block ∈ left, block.length = size) (hright : ∀ block ∈ right, block.length = size)
    (hleftNodup : left.Nodup) (hrightNodup : right.Nodup) :
    (sortBlocks left).flatten = (sortBlocks right).flatten ↔
      ∀ block, block ∈ left ↔ block ∈ right := by
  constructor
  · intro hflatten block
    have hsorted : sortBlocks left = sortBlocks right := by
      rw [← chunks_flatten hsize fun block hblock ↦ hleft block (mem_sortBlocks.mp hblock),
        hflatten, chunks_flatten hsize fun block hblock ↦ hright block (mem_sortBlocks.mp hblock)]
    rw [← mem_sortBlocks, hsorted, mem_sortBlocks]
  · intro hmem
    rw [sortBlocks_eq_of_perm ((List.perm_ext_iff_of_nodup hleftNodup hrightNodup).mpr hmem)]

end SoftwareKeyCore.SortedBlocks
