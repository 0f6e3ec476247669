import PagedIndex.Directory.Codec
import PagedIndex.Field.Lawful

namespace PagedIndex.Directory

theorem byte_writeTo (d : Directory) (p : Page) (i : Nat) :
    (d.writeTo p).byte i = if i < encodedSize then d.encodedByte i else p.byte i := by
  rw [writeTo, Page.byte_splice]
  simp only [encodedSize, pageSize]
  by_cases h : i < 2564
  · simp [h, show i < 4096 by omega, encode]
  · simp [h]

theorem encodedByte_depth (d : Directory) (h : i < 4) :
    d.encodedByte i = (FixedWidth.encode d.globalDepth)[i] := by
  simp [encodedByte, h]

theorem encodedByte_bucket (d : Directory) (h : i < 512) (hk : k < 4) :
    d.encodedByte (idsStart + 4 * i + k) = (FixedWidth.encode (d.bucketAt i).number)[k] := by
  simp only [encodedByte, idsStart, depthsStart]
  rw [dif_neg (by omega), if_pos (by omega)]
  have hdiv : (4 + 4 * i + k - 4) / 4 = i := by omega
  have hmod : (4 + 4 * i + k - 4) % 4 = k := by omega
  simp only [hdiv, hmod]
  rfl

theorem encodedByte_slotDepth (d : Directory) (i : Nat) :
    d.encodedByte (depthsStart + i) = (d.slot i).depth := by
  simp only [encodedByte, idsStart, depthsStart]
  rw [dif_neg (by omega), if_neg (by omega), Nat.add_sub_cancel_left]

theorem slice_writeTo_depth (d : Directory) (p : Page) :
    (d.writeTo p).slice 0 4 = FixedWidth.encode d.globalDepth := by
  apply Vector.ext
  intro k hk
  rw [Page.getElem_slice, Nat.zero_add, byte_writeTo, if_pos (by simp only [encodedSize]; omega),
    encodedByte_depth d hk]

theorem slice_writeTo_bucket (d : Directory) (p : Page) (h : i < 512) :
    (d.writeTo p).slice (idsStart + 4 * i) 4 = FixedWidth.encode (d.bucketAt i).number := by
  apply Vector.ext
  intro k hk
  rw [Page.getElem_slice, byte_writeTo, if_pos (by simp only [encodedSize, idsStart]; omega),
    encodedByte_bucket d h hk]

theorem word_writeTo_depth (d : Directory) (p : Page) : (d.writeTo p).word 0 = d.globalDepth := by
  rw [Page.word_eq_decode, slice_writeTo_depth]
  exact LawfulFixedWidth.decode_encode d.globalDepth

theorem word_writeTo_bucket (d : Directory) (p : Page) (h : i < 512) :
    (d.writeTo p).word (idsStart + 4 * i) = (d.bucketAt i).number := by
  rw [Page.word_eq_decode, slice_writeTo_bucket d p h]
  exact LawfulFixedWidth.decode_encode (d.bucketAt i).number

theorem byte_writeTo_slotDepth (d : Directory) (p : Page) (h : i < 512) :
    (d.writeTo p).byte (depthsStart + i) = (d.slot i).depth := by
  rw [byte_writeTo, if_pos (by simp only [encodedSize, depthsStart]; omega), encodedByte_slotDepth]

-- What was written is read back.
theorem ofPage_writeTo (d : Directory) (p : Page) : ofPage (d.writeTo p) = d := by
  have hslots : (ofPage (d.writeTo p)).slots = d.slots := by
    apply Vector.ext
    intro i hi
    simp only [ofPage, Vector.getElem_ofFn, word_writeTo_bucket d p hi,
      byte_writeTo_slotDepth d p hi, bucketAt]
    simp [slot, hi]
  exact congr (congrArg Directory.mk (word_writeTo_depth d p)) hslots

-- Four bytes read as a word are the encoding of that word.
private theorem getElem_encode_word (p : Page) (start : Nat) (h : k < 4) :
    (FixedWidth.encode (p.word start))[k] = p.byte (start + k) := by
  have hencode : FixedWidth.encode (p.word start) = p.slice start 4 := by
    rw [Page.word_eq_decode]
    exact LawfulFixedWidth.encode_decode (α := UInt32) (p.slice start 4)
  simp only [hencode, Page.getElem_slice]

theorem encodedByte_ofPage (p : Page) (h : i < encodedSize) :
    (ofPage p).encodedByte i = p.byte i := by
  simp only [encodedSize] at h
  by_cases hdepth : i < 4
  · rw [encodedByte_depth _ hdepth]
    simp only [ofPage, getElem_encode_word p 0 hdepth, Nat.zero_add]
  · by_cases hbucket : i < 2052
    · have hk : (i - 4) % 4 < 4 := Nat.mod_lt _ (by decide)
      have hi : i = idsStart + 4 * ((i - 4) / 4) + (i - 4) % 4 := by
        simp only [idsStart]
        omega
      have hj : (i - 4) / 4 < 512 := by omega
      rw [hi, encodedByte_bucket _ hj hk, ← getElem_encode_word p _ hk]
      simp [bucketAt, slot, ofPage, hj]
    · have hi : i = depthsStart + (i - 2052) := by
        simp only [depthsStart]
        omega
      have hj : i - 2052 < 512 := by omega
      rw [hi, encodedByte_slotDepth]
      simp [slot, ofPage, hj]

-- Writing back what was read changes nothing.
theorem writeTo_ofPage (p : Page) : (ofPage p).writeTo p = p := by
  apply Page.ext_byte
  intro i _
  rw [byte_writeTo]
  split
  · rename_i h
    exact encodedByte_ofPage p h
  · rfl

end PagedIndex.Directory
