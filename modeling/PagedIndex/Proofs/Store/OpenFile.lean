import Mathlib.Data.List.GetD
import PagedIndex.Proofs.Store.Lawful

namespace PagedIndex

-- A file as an operating system hands it out: a string of bytes, and the position at which the next
-- bytes are read or written.
structure OpenFile where
  bytes : List UInt8
  position : Nat

namespace OpenFile

def empty : OpenFile := ⟨[], 0⟩

-- A string of bytes cut off at a length, or extended to there with zeroes.
def resize (length : Nat) (bytes : List UInt8) : List UInt8 :=
  bytes.take length ++ List.replicate (length - bytes.length) 0

-- Bytes put over the others from `start` on. Zeroes fill a gap before them.
def overwrite (start : Nat) (data bytes : List UInt8) : List UInt8 :=
  resize start bytes ++ data ++ bytes.drop (start + data.length)

def length : Op OpenFile Nat := Op.observe fun f => f.bytes.length

def seek (position : Nat) : Op OpenFile Unit := Op.update fun f => { f with position }

def setLength (length : Nat) : Op OpenFile Unit :=
  Op.update fun f => { f with bytes := resize length f.bytes }

-- The next bytes. A file that ends before them is read to its end.
def readExact (count : Nat) : Op OpenFile (List UInt8) := fun f =>
  let data := (f.bytes.drop f.position).take count
  let moved := { f with position := f.position + data.length }
  if data.length = count then ⟨.ok data, moved, []⟩
  else ⟨.error (.error (.io .unexpectedEnd)), moved, []⟩

def writeAll (data : List UInt8) : Op OpenFile Unit :=
  Op.update fun f => ⟨overwrite f.position data f.bytes, f.position + data.length⟩

-- The file closed and opened again.
def reopened (f : OpenFile) : OpenFile := { f with position := 0 }

def offset (id : PageId) : Nat := id.number.toNat * pageSize

def pageOf (data : List UInt8) : Page := ⟨Vector.ofFn fun i => data.getD i 0⟩

def read (id : PageId) : Op OpenFile Page := do
  let size ← length
  if size ≤ offset id then
    Op.report (.readPastEnd id)
    return Page.zero
  else
    seek (offset id)
    return pageOf (← readExact pageSize)

def write (id : PageId) (page : Page) : Op OpenFile Unit := do
  let size ← length
  if size ≤ offset id then setLength (offset id + pageSize)
  seek (offset id)
  writeAll page.bytes.toList

instance : PageStore OpenFile where
  readPage := read
  writePage := write
  pageCount := do
    let size ← length
    return UInt32.ofNat (size / pageSize)

@[simp] theorem length_resize (length : Nat) (bytes : List UInt8) :
    (resize length bytes).length = length := by
  simp only [resize, List.length_append, List.length_take, List.length_replicate]
  omega

theorem getD_resize (length : Nat) (bytes : List UInt8) (i : Nat) :
    (resize length bytes).getD i 0 = if i < length then bytes.getD i 0 else 0 := by
  simp only [resize, List.getD_eq_getElem?_getD, List.getElem?_append, List.length_take,
    List.getElem?_take, List.getElem?_replicate]
  split
  · rw [if_pos (by omega), if_pos (by omega)]
  · -- here the byte is past both the old end and the new one, or one of the zeroes between them
    rename_i hpast
    by_cases hi : i < length
    · rw [if_pos hi, List.getElem?_eq_none (by omega)]
      split <;> rfl
    · rw [if_neg hi, if_neg (by omega)]
      rfl

@[simp] theorem length_overwrite (start : Nat) (data bytes : List UInt8) :
    (overwrite start data bytes).length = max bytes.length (start + data.length) := by
  simp only [overwrite, List.length_append, length_resize, List.length_drop]
  omega

theorem getD_overwrite (start : Nat) (data bytes : List UInt8) (i : Nat) :
    (overwrite start data bytes).getD i 0 =
      if start ≤ i ∧ i < start + data.length then data.getD (i - start) 0 else bytes.getD i 0 := by
  by_cases hstart : i < start
  · have hresize := getD_resize start bytes i
    rw [if_pos hstart] at hresize
    rw [overwrite, List.append_assoc, List.getD_append _ _ _ _ (by simpa using hstart), hresize,
      if_neg (by omega)]
  · have hskip : (overwrite start data bytes).getD i 0 =
        (data ++ bytes.drop (start + data.length)).getD (i - start) 0 := by
      rw [overwrite, List.append_assoc, List.getD_append_right _ _ _ _ (by simpa using hstart),
        length_resize]
    by_cases hend : i < start + data.length
    · rw [hskip, if_pos ⟨by omega, hend⟩, List.getD_append _ _ _ _ (by omega)]
    · rw [hskip, if_neg (by omega), List.getD_append_right _ _ _ _ (by omega)]
      simp only [List.getD_eq_getElem?_getD, List.getElem?_drop]
      congr 2
      omega

variable {id : PageId} {f : OpenFile}

theorem read_past (h : f.bytes.length ≤ offset id) :
    read id f = ⟨.ok Page.zero, f, [.readPastEnd id]⟩ := by
  simp [read, length, Op.bind_run, Op.pure_run, h, -bind_pure_comp]

theorem read_cut (hpast : offset id < f.bytes.length)
    (hcut : f.bytes.length < offset id + pageSize) : (read id f).result =
      .error (.error (.io .unexpectedEnd)) ∧ (read id f).events = [] ∧
        (read id f).state.bytes = f.bytes := by
  have hlength : ¬ ((f.bytes.drop (offset id)).take pageSize).length = pageSize := by
    rw [List.length_take, List.length_drop]
    omega
  simp only [read, length, seek, readExact, Op.bind_run, Op.observe_run, Op.update_run,
    if_neg (Nat.not_le.mpr hpast), if_neg hlength, List.append_nil, and_self]

theorem read_within (h : offset id + pageSize ≤ f.bytes.length) : (read id f).result =
      .ok (pageOf ((f.bytes.drop (offset id)).take pageSize)) ∧ (read id f).events = [] ∧
        (read id f).state.bytes = f.bytes := by
  have hlength : ((f.bytes.drop (offset id)).take pageSize).length = pageSize := by
    rw [List.length_take, List.length_drop]
    omega
  have hpast : ¬ f.bytes.length ≤ offset id := by
    rw [pageSize] at h
    omega
  simp only [read, length, seek, readExact, Op.bind_run, Op.pure_run, Op.observe_run,
    Op.update_run, if_neg hpast, if_pos hlength, List.append_nil, and_self]

-- The bytes that a write finds once the file reaches to the page.
def reaching (id : PageId) (bytes : List UInt8) : List UInt8 :=
  if bytes.length ≤ offset id then resize (offset id + pageSize) bytes else bytes

theorem write_run (id : PageId) (page : Page) (f : OpenFile) :
    write id page f = ⟨.ok (), ⟨overwrite (offset id) page.bytes.toList (reaching id f.bytes),
      offset id + pageSize⟩, []⟩ := by
  by_cases h : f.bytes.length ≤ offset id
  · simp [write, length, setLength, seek, writeAll, reaching, Op.bind_run, h]
  · simp [write, length, setLength, seek, writeAll, reaching, Op.bind_run, h]

theorem length_reaching (id : PageId) (bytes : List UInt8) :
    max (reaching id bytes).length (offset id + pageSize) =
      max bytes.length (offset id + pageSize) := by
  rw [reaching]
  split
  · rw [length_resize]
    omega
  · rfl

theorem getD_reaching (id : PageId) (bytes : List UInt8) (i : Nat) :
    (reaching id bytes).getD i 0 = bytes.getD i 0 := by
  rw [reaching]
  split
  · rw [getD_resize, ite_eq_left_iff]
    intro hi
    rw [List.getD_eq_default _ _ (by rw [pageSize] at hi; omega)]
  · rfl

theorem byte_pageOf (data : List UInt8) {i : Nat} (hi : i < pageSize) :
    (pageOf data).byte i = data.getD i 0 := by
  simp [pageOf, Page.byte, hi]

theorem getD_toList (page : Page) (i : Nat) : page.bytes.toList.getD i 0 = page.byte i := by
  rw [Page.byte_eq_getD, List.getD_eq_getElem?_getD, Vector.getElem?_toList]

end OpenFile

namespace ByteFile

theorem byte_writeBlock (f : ByteFile) (n : Nat) (p : Page) (i : Nat) :
    (f.writeBlock n p).byte i =
      if n * pageSize ≤ i ∧ i < n * pageSize + pageSize then p.byte (i - n * pageSize)
      else f.byte i := by
  rw [byte, FileStore.block_writeBlock, byte]
  by_cases hn : n = i / pageSize
  · have hwithin : n * pageSize ≤ i ∧ i < n * pageSize + pageSize := by
      rw [pageSize] at *
      omega
    rw [if_pos hn, if_pos hwithin]
    congr 1
    rw [pageSize] at *
    omega
  · rw [if_neg hn, if_neg]
    rw [pageSize] at *
    omega

-- The first bytes of a page, by position.
theorem byte_keep (n : Nat) (p : Page) (i : Nat) :
    (keep n p).byte i = if i < n then p.byte i else 0 := by
  rw [keep, Page.byte_splice]
  by_cases hi : i < n
  · rw [if_neg (by omega), if_pos hi]
  · rw [if_neg hi]
    split
    · rw [Vector.getElem?_replicate]
      split <;> rfl
    · exact Page.byte_of_le p (by omega)

-- A file that is cut off keeps the blocks before the cut, and the start of the one that it cuts.
theorem block_setLength {f : ByteFile} {n : Nat} (hn : n < f.length) (m : Nat) :
    (f.setLength n).block m =
      if m = n / pageSize then keep (n % pageSize) (f.block m)
      else if m < n / pageSize then f.block m else Page.zero := by
  rw [setLength, if_neg (by omega)]
  simp only [block, Std.HashMap.getD_insert, Std.HashMap.getD_filter', beq_iff_eq]
  by_cases hlast : m = n / pageSize
  · rw [if_pos hlast.symm, if_pos hlast, hlast]
  · rw [if_neg (Ne.symm hlast), if_neg hlast]
    by_cases hm : m < n / pageSize
    · simp only [Nat.le_of_lt hm, hm, decide_true, Std.HashMap.getD_eq_getD_getElem?]
      cases f.blocks[m]? <;> rfl
    · have hle : ¬ m ≤ n / pageSize := by omega
      simp [hm, hle]

theorem byte_setLength {f : ByteFile} (hf : ∀ i, f.length ≤ i → f.byte i = 0) (n i : Nat) :
    (f.setLength n).byte i = if i < n then f.byte i else 0 := by
  by_cases hn : f.length ≤ n
  · rw [setLength, if_pos hn]
    split
    · rfl
    · exact hf i (by omega)
  · rw [byte, block_setLength (by omega)]
    by_cases hlast : i / pageSize = n / pageSize
    · have hiff : i % pageSize < n % pageSize ↔ i < n := by
        rw [pageSize] at *
        omega
      rw [if_pos hlast, byte_keep]
      simp only [hiff]
      rfl
    · by_cases hi : i / pageSize < n / pageSize
      · have hlt : i < n := by
          rw [pageSize] at *
          omega
        rw [if_neg hlast, if_pos hi, if_pos hlt]
        rfl
      · have hle : ¬ i < n := by
          rw [pageSize] at *
          omega
        rw [if_neg hlast, if_neg hi, if_neg hle, Page.byte_zero]

end ByteFile

namespace FileStore

-- The blocks of the store are those of the string of bytes.
structure Denotes (s : FileStore) (f : OpenFile) : Prop where
  length : f.bytes.length = s.file.length
  byte (i : Nat) : f.bytes.getD i 0 = s.file.byte i

theorem denotes_empty : Denotes empty OpenFile.empty := by
  refine ⟨rfl, fun i => ?_⟩
  have hblock : (ByteFile.empty.block (i / pageSize)) = Page.zero := Std.HashMap.getD_empty
  rw [empty, ByteFile.byte, hblock, Page.byte_zero]
  rfl

variable {α : Type} {s : FileStore} {f : OpenFile}

theorem Denotes.reopened (h : Denotes s f) : Denotes s f.reopened := ⟨h.length, h.byte⟩

-- A byte of a block, among the bytes of the file.
theorem byte_block (s : FileStore) (n : Nat) {i : Nat} (hi : i < pageSize) :
    (s.file.block n).byte i = s.file.byte (n * pageSize + i) := by
  have hdiv : (n * pageSize + i) / pageSize = n := by
    rw [pageSize] at *
    omega
  have hmod : (n * pageSize + i) % pageSize = i := by
    rw [pageSize] at *
    omega
  rw [ByteFile.byte, hdiv, hmod]

theorem Denotes.sound (h : Denotes s f) : Sound s := by
  intro n hn
  refine Page.ext_byte fun i hi => ?_
  rw [byte_block s n hi, ← h.byte, Page.byte_zero, List.getD_eq_default _ _ (by
    rw [h.length, pageSize] at *
    omega)]

theorem Denotes.block_eq (h : Denotes s f) (n : Nat) :
    OpenFile.pageOf ((f.bytes.drop (n * pageSize)).take pageSize) = s.file.block n := by
  refine Page.ext_byte fun i hi => ?_
  rw [OpenFile.byte_pageOf _ hi, byte_block s n hi, ← h.byte]
  simp only [List.getD_eq_getElem?_getD, List.getElem?_take, List.getElem?_drop, if_pos hi]

-- `y` answers and reports what `x` does, and leaves the bytes that the blocks stand for.
def Alike (x : Op FileStore α) (y : Op OpenFile α) : Prop :=
  ∀ s f, Denotes s f →
    (y f).result = (x s).result ∧ (y f).events = (x s).events ∧ Denotes (x s).state (y f).state

-- What is known of `x` is known of `y`, in terms of the blocks.
theorem Alike.ends {x : Op FileStore α} {y : Op OpenFile α} (hxy : Alike x y) (h : Denotes s f)
    {Q : Checked α → FileStore → Prop} (hx : x.Ends s Q) :
    y.Ends f fun r f' => ∃ s', Denotes s' f' ∧ Q r s' := by
  obtain ⟨hresult, -, hdenotes⟩ := hxy s f h
  exact ⟨_, hdenotes, hresult ▸ hx⟩

theorem alike_readPage (id : PageId) :
    Alike (PageStore.readPage id) (PageStore.readPage id) := by
  intro s f h
  have hoffset : OpenFile.offset id = pageSize * id.number.toNat := Nat.mul_comm _ _
  have hlength := h.length
  change (OpenFile.read id f).result = (read id s).result ∧
    (OpenFile.read id f).events = (read id s).events ∧
    Denotes (read id s).state (OpenFile.read id f).state
  rw [read]
  by_cases hpast : s.file.length ≤ pageSize * id.number.toNat
  · rw [OpenFile.read_past (by omega), if_pos hpast]
    exact ⟨rfl, rfl, h⟩
  · rw [if_neg hpast]
    by_cases hcut : s.file.length < pageSize * id.number.toNat + pageSize
    · rw [if_pos hcut]
      have hshort : f.bytes.length < OpenFile.offset id + pageSize := by omega
      obtain ⟨hresult, hevents, hbytes⟩ := OpenFile.read_cut (by omega) hshort
      exact ⟨hresult, hevents, ⟨hbytes ▸ h.length, hbytes ▸ h.byte⟩⟩
    · rw [if_neg hcut]
      have hlong : OpenFile.offset id + pageSize ≤ f.bytes.length := by omega
      obtain ⟨hresult, hevents, hbytes⟩ := OpenFile.read_within hlong
      exact ⟨hresult.trans (congrArg _ (h.block_eq _)), hevents,
        ⟨hbytes ▸ h.length, hbytes ▸ h.byte⟩⟩

theorem alike_writePage (id : PageId) (page : Page) :
    Alike (PageStore.writePage id page) (PageStore.writePage id page) := by
  intro s f h
  change (OpenFile.write id page f).result = .ok () ∧ (OpenFile.write id page f).events = [] ∧
    Denotes ⟨s.file.writeBlock id.number.toNat page⟩ (OpenFile.write id page f).state
  rw [OpenFile.write_run]
  refine ⟨rfl, rfl, ?_, fun i => ?_⟩
  · rw [OpenFile.length_overwrite, Vector.length_toList, OpenFile.length_reaching, h.length,
      OpenFile.offset, ByteFile.writeBlock, Nat.mul_add, Nat.mul_one, Nat.mul_comm]
  · rw [OpenFile.getD_overwrite, OpenFile.getD_reaching, OpenFile.getD_toList,
      Vector.length_toList, h.byte, ByteFile.byte_writeBlock, OpenFile.offset]

theorem alike_setLength (n : Nat) :
    Alike (Op.update fun s => ⟨s.file.setLength n⟩) (OpenFile.setLength n) := by
  intro s f h
  refine ⟨rfl, rfl, ?_, fun i => ?_⟩
  · change (OpenFile.resize n f.bytes).length = (s.file.setLength n).length
    rw [OpenFile.length_resize, ByteFile.setLength]
    split <;> rfl
  · have hpast (i : Nat) (hi : s.file.length ≤ i) : s.file.byte i = 0 := by
      rw [← h.byte, List.getD_eq_default _ _ (h.length ▸ hi)]
    change (OpenFile.resize n f.bytes).getD i 0 = (s.file.setLength n).byte i
    rw [OpenFile.getD_resize, ByteFile.byte_setLength hpast, h.byte]

theorem alike_pageCount : Alike PageStore.pageCount PageStore.pageCount := by
  intro s f h
  refine ⟨?_, rfl, h⟩
  change Except.ok (UInt32.ofNat (f.bytes.length / pageSize)) = _
  rw [h.length]
  rfl

end FileStore

end PagedIndex
