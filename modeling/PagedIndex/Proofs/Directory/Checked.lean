import PagedIndex.Directory.Codec.Lemmas
import PagedIndex.Proofs.Directory.Contraction

namespace PagedIndex.Directory

variable {d : Directory}

namespace Partitioned

theorem depth_lt_word (h : d.Partitioned) : d.depth < 32 := by
  have hle := h.depth_le
  rw [maxDepth] at hle
  omega

theorem slotOf_eq (h : d.Partitioned) (hash : UInt32) : d.slotOf hash = .ok (d.route hash) := by
  rw [slotOf, Checked.require, if_pos h.depth_lt_word]
  rfl

theorem checkedSize_eq (h : d.Partitioned) : d.checkedSize = .ok d.size := by
  rw [checkedSize, Checked.require, if_pos (h.depth_lt_word.trans (by decide))]
  rfl

theorem bucket_eq (h : d.Partitioned) {i : Nat} (hi : i < d.size) :
    d.bucket i = .ok (d.bucketAt i) := by
  rw [bucket, Checked.require, if_pos (h.lt_slotCount hi)]
  rfl

theorem localDepth_eq (h : d.Partitioned) {i : Nat} (hi : i < d.size) :
    d.localDepth i = .ok (d.depthAt i) := by
  rw [localDepth, Checked.require, if_pos (h.lt_slotCount hi)]
  rfl

theorem divide_eq (h : d.Partitioned) (old new : PageId) {depth : Nat} (hdepth : depth < 32) :
    d.divide old new depth = .ok (d.divided old new depth) := by
  rw [divide, checkExtent, Checked.require, Checked.require, if_pos hdepth, if_pos h.depth_le]
  rfl

theorem repoint_eq (h : d.Partitioned) (old new : PageId) (depth : Nat) :
    d.repoint old new depth = .ok (d.repointed old new depth) := by
  rw [repoint, checkExtent, Checked.require, if_pos h.depth_le]
  rfl

theorem checkedBucketIds_eq (h : d.Partitioned) : d.checkedBucketIds = .ok d.bucketIds := by
  rw [checkedBucketIds, checkExtent, Checked.require, if_pos h.depth_le]
  rfl

theorem buddy_zero (h : d.Partitioned) {i : Nat} (hi : i < d.size) (hdepth : d.depthAt i = 0) :
    d.buddy i = .ok none := by
  rw [buddy, h.localDepth_eq hi, hdepth]
  rfl

theorem buddy_succ (h : d.Partitioned) {i n : Nat} (hi : i < d.size)
    (hdepth : d.depthAt i = n + 1) : d.buddy i = .ok (some (flipBit i n)) := by
  have hle := h.depthAt_le i hi
  have hword := h.depth_lt_word
  rw [buddy, h.localDepth_eq hi, hdepth]
  change (Checked.require (n < 64) .overflow >>= fun _ => Pure.pure (some (flipBit i n))) = _
  rw [Checked.require, if_pos (by omega)]
  rfl

theorem flipBit_lt (h : d.Partitioned) {i n : Nat} (hi : i < d.size)
    (hdepth : d.depthAt i = n + 1) : flipBit i n < d.size := by
  have hle := h.depthAt_le i hi
  rw [size_eq_two_pow] at hi ⊢
  rw [flipBit, Nat.one_shiftLeft]
  exact Nat.xor_lt_two_pow hi (Nat.pow_lt_pow_right (by decide) (by omega))

-- The bucket that a directory page has for a hash.
theorem bucketFor_eq {p : Page} (h : (ofPage p).Partitioned) (hash : UInt32) :
    bucketFor p hash = .ok ((ofPage p).owner hash) := by
  rw [Directory.bucketFor_eq, h.slotOf_eq]
  exact h.bucket_eq ((ofPage p).route_lt_size hash)

end Partitioned

theorem grow_of_lt (hd : d.depth < maxDepth) : d.grow = .ok d.doubled := by
  rw [grow, if_neg (Nat.not_le_of_lt hd)]
  rfl

theorem grow_of_le (hd : maxDepth ≤ d.depth) : d.grow = .error (.error (.indexFull d.depth)) := by
  rw [grow, if_pos hd]
  rfl

end PagedIndex.Directory
