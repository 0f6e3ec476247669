import PagedIndex.Directory.Basic
import PagedIndex.Field.Integer
import PagedIndex.Page.Basic

namespace PagedIndex

-- The little-endian number in the four bytes from `start`.
def Page.word (p : Page) (start : Nat) : UInt32 := FixedWidth.read fun i => p.byte (start + i)

theorem Page.word_eq_decode (p : Page) (start : Nat) :
    p.word start = FixedWidth.decode (p.slice start 4) :=
  FixedWidth.read_eq_decode _

namespace Directory

-- The global depth is in the first four bytes, then there are 512 bucket ids of four bytes, and
-- then 512 local depths of one byte. The rest of the page is not used.
abbrev idsStart : Nat := 4
abbrev depthsStart : Nat := 2052
abbrev encodedSize : Nat := 2564

def ofPage (p : Page) : Directory where
  globalDepth := p.word 0
  slots := Vector.ofFn fun i =>
    ⟨⟨p.word (idsStart + 4 * i)⟩, p.byte (depthsStart + i)⟩

-- The bucket that the directory in a page has for a hash. Only the slot of the hash is read.
def bucketFor (p : Page) (hash : UInt32) : Checked PageId := do
  let depth := (p.word 0).toNat
  Checked.require (depth < 32) .overflow
  let slot := lowBits depth hash.toNat
  Checked.require (slot < slotCount) .outOfRange
  return ⟨p.word (idsStart + 4 * slot)⟩

theorem bucketAt_ofPage (p : Page) (h : i < slotCount) :
    (ofPage p).bucketAt i = ⟨p.word (idsStart + 4 * i)⟩ := by
  simp only [slotCount] at h
  simp [bucketAt, slot, ofPage, h]

theorem bucketFor_eq (p : Page) (hash : UInt32) :
    bucketFor p hash = (ofPage p).slotOf hash >>= (ofPage p).bucket := by
  have hdepth : (ofPage p).depth = (p.word 0).toNat := rfl
  simp only [bucketFor, slotOf, route, hdepth, Checked.require]
  split
  · change _ = (ofPage p).bucket (lowBits (p.word 0).toNat hash.toNat)
    simp only [bucket, Checked.require]
    split
    · rename_i hslot
      rw [bucketAt_ofPage p hslot]
      rfl
    · rfl
  · rfl

-- Byte `i` of the encoding.
def encodedByte (d : Directory) (i : Nat) : UInt8 :=
  if h : i < idsStart then (FixedWidth.encode d.globalDepth)[i]
  else if i < depthsStart then
    (FixedWidth.encode (d.bucketAt ((i - idsStart) / 4)).number).get
      ⟨(i - idsStart) % 4, Nat.mod_lt _ (by decide)⟩
  else (d.slot (i - depthsStart)).depth

def encode (d : Directory) : Vector UInt8 encodedSize := Vector.ofFn fun i => d.encodedByte i

-- Write the directory over the start of a page.
def writeTo (d : Directory) (p : Page) : Page := p.splice 0 d.encode

end Directory

end PagedIndex
