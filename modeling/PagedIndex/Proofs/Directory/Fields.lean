import PagedIndex.Directory.Codec.Lemmas
import PagedIndex.Directory.Lemmas

namespace PagedIndex

-- A field whose bytes are those of `f` at its place.
theorem Page.byte_splice_field (p : Page) {start n : Nat} {data : Vector UInt8 n} {f : Nat → UInt8}
    (hdata : ∀ k (hk : k < n), data[k] = f (start + k)) (hfits : start + n ≤ pageSize) (i : Nat) :
    (p.splice start data).byte i = if start ≤ i ∧ i < start + n then f i else p.byte i := by
  rw [byte_splice]
  by_cases hi : start ≤ i ∧ i < start + n
  · have hk : i - start < n := by omega
    have hbyte := hdata (i - start) hk
    rw [Nat.add_sub_cancel' hi.1] at hbyte
    rw [if_pos ⟨hi.1, hi.2, by omega⟩, if_pos hi, ← hbyte]
    simp [hk]
  · rw [if_neg fun hin => hi ⟨hin.1, hin.2.1⟩, if_neg hi]

namespace Directory

-- The first `n` bucket ids, in order.
def writeIds (d : Directory) : Nat → Page → Page
  | 0, p => p
  | n + 1, p =>
    (d.writeIds n p).splice (idsStart + 4 * n) (FixedWidth.encode (d.bucketAt n).number)

-- All fields, in order.
def writeFields (d : Directory) (p : Page) : Page :=
  (d.writeIds slotCount (p.splice 0 (FixedWidth.encode d.globalDepth))).splice depthsStart
    (d.slots.map Slot.depth)

-- Once `n` ids are written, the encoding stands as far as they reach, and the rest is as it was.
theorem byte_writeIds (d : Directory) (p : Page) {n : Nat} (hn : n ≤ slotCount) (i : Nat) :
    (d.writeIds n p).byte i =
      if idsStart ≤ i ∧ i < idsStart + 4 * n then d.encodedByte i else p.byte i := by
  induction n with
  | zero => rw [writeIds, if_neg (by omega)]
  | succ n ih =>
    have hbytes (k : Nat) (hk : k < 4) : (FixedWidth.encode (d.bucketAt n).number)[k] =
        d.encodedByte (idsStart + 4 * n + k) := (encodedByte_bucket d hn hk).symm
    have hfits : idsStart + 4 * n + 4 ≤ pageSize := by
      simp only [idsStart, slotCount, pageSize] at hn ⊢
      omega
    rw [writeIds, Page.byte_splice_field _ hbytes hfits, ih (Nat.le_of_succ_le hn)]
    by_cases hlast : idsStart + 4 * n ≤ i ∧ i < idsStart + 4 * n + 4
    · rw [if_pos hlast, if_pos (by omega)]
    · rw [if_neg hlast]
      exact if_congr (by omega) rfl rfl

theorem byte_writeFields (d : Directory) (p : Page) (i : Nat) :
    (d.writeFields p).byte i = if i < encodedSize then d.encodedByte i else p.byte i := by
  have hdepth (k : Nat) (hk : k < 4) :
      (FixedWidth.encode d.globalDepth)[k] = d.encodedByte (0 + k) := by
    rw [Nat.zero_add, encodedByte_depth d hk]
  have hdepths (k : Nat) (hk : k < 512) :
      (d.slots.map Slot.depth)[k] = d.encodedByte (depthsStart + k) := by
    rw [encodedByte_slotDepth, slot_eq_getElem d hk, Vector.getElem_map]
  rw [writeFields, Page.byte_splice_field _ hdepths (by decide), byte_writeIds d _ le_rfl,
    Page.byte_splice_field _ hdepth (by decide)]
  simp only [idsStart, depthsStart, encodedSize, slotCount]
  -- each byte of the encoding is in one of the three areas
  by_cases hdepths : 2052 ≤ i ∧ i < 2052 + 512
  · rw [if_pos hdepths, if_pos (by omega)]
  · rw [if_neg hdepths]
    by_cases hids : 4 ≤ i ∧ i < 4 + 4 * 512
    · rw [if_pos hids, if_pos (by omega)]
    · rw [if_neg hids]
      exact if_congr (by omega) rfl rfl

theorem writeFields_eq (d : Directory) (p : Page) : d.writeFields p = d.writeTo p := by
  apply Page.ext_byte
  intro i _
  rw [byte_writeFields, byte_writeTo]

theorem slice_writeTo_encoded (d : Directory) (p : Page) :
    (d.writeTo p).slice 0 encodedSize = d.encode :=
  Page.slice_splice p 0 d.encode (by decide)

-- A directory is read back from the page it was written over, which keeps the bytes behind it. What
-- was read from a page is written back without change, and over another page it brings the same bytes.
-- Writing means writing the fields one after another.
theorem layout_lossless (d : Directory) (p q : Page) :
    ofPage (d.writeTo p) = d ∧
      (d.writeTo p).slice encodedSize (pageSize - encodedSize) =
        p.slice encodedSize (pageSize - encodedSize) ∧
      (ofPage p).writeTo p = p ∧
      ((ofPage p).writeTo q).slice 0 encodedSize = p.slice 0 encodedSize ∧
      d.writeTo p = d.writeFields p := by
  refine ⟨ofPage_writeTo d p, ?_, writeTo_ofPage p, ?_, (writeFields_eq d p).symm⟩
  · ext i hi
    rw [Page.getElem_slice, Page.getElem_slice, byte_writeTo, if_neg (by omega)]
  · calc ((ofPage p).writeTo q).slice 0 encodedSize = (ofPage p).encode :=
        slice_writeTo_encoded _ q
      _ = ((ofPage p).writeTo p).slice 0 encodedSize := (slice_writeTo_encoded _ p).symm
      _ = p.slice 0 encodedSize := by rw [writeTo_ofPage]

end Directory

end PagedIndex
