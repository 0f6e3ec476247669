import PagedIndex.Store.Basic
import Std.Data.HashMap

namespace PagedIndex

-- Page `n` lies at byte `4096 * n`. A block that was not written reads as zeroes.
-- Bytes past the end are zero in every block.
structure ByteFile where
  length : Nat
  blocks : Std.HashMap Nat Page

namespace ByteFile

def empty : ByteFile := ⟨0, ∅⟩

def block (f : ByteFile) (n : Nat) : Page := f.blocks.getD n Page.zero

def byte (f : ByteFile) (i : Nat) : UInt8 := (f.block (i / pageSize)).byte (i % pageSize)

-- The first `n` bytes of a page, then zeroes.
def keep (n : Nat) (p : Page) : Page := p.splice n (Vector.replicate (pageSize - n) 0)

-- Cut the file off at a length, or extend it to there with zeroes.
def setLength (f : ByteFile) (length : Nat) : ByteFile :=
  if f.length ≤ length then { f with length }
  else
    let last := length / pageSize
    let kept := f.blocks.filter fun n _ => n ≤ last
    ⟨length, kept.insert last (keep (length % pageSize) (f.block last))⟩

-- Overwrite a whole block, extending the file if it ends before the end of that block.
def writeBlock (f : ByteFile) (n : Nat) (p : Page) : ByteFile :=
  ⟨max f.length (pageSize * (n + 1)), f.blocks.insert n p⟩

end ByteFile

structure FileStore where
  file : ByteFile

namespace FileStore

def empty : FileStore := ⟨.empty⟩

instance : Inhabited FileStore := ⟨empty⟩

def read (id : PageId) : Op FileStore Page := fun s =>
  let start := pageSize * id.number.toNat
  if s.file.length ≤ start then ⟨.ok Page.zero, s, [.readPastEnd id]⟩
  else if s.file.length < start + pageSize then ⟨.error (.error (.io .unexpectedEnd)), s, []⟩
  else ⟨.ok (s.file.block id.number.toNat), s, []⟩

def write (id : PageId) (page : Page) : Op FileStore Unit :=
  Op.update fun s => { s with file := s.file.writeBlock id.number.toNat page }

instance : PageStore FileStore where
  readPage := read
  writePage := write
  pageCount := Op.observe fun s => UInt32.ofNat (s.file.length / pageSize)

end FileStore

end PagedIndex
