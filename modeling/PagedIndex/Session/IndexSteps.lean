import PagedIndex.Index.Insert
import PagedIndex.Index.Remove
import PagedIndex.Index.Report
import PagedIndex.Index.Verify
import PagedIndex.Session.PoolSteps

namespace PagedIndex

open PagePool

-- What an index is to be: its name, types and rules, and its capacity if one is asked for.
structure IndexRequest where
  name : String
  key : FieldType
  value : FieldType
  order : OrderRule
  hash : HashRule
  capacity? : Option Nat

inductive BulkAction
  | insert
  | remove
  | get
deriving DecidableEq, Repr

-- Pairs `from`, `from + stride`, … of the types of an index; each value is `valueShift` ahead of
-- its key.
structure BulkRange where
  first : Int
  count : Nat
  stride : Int
  valueShift : Int

namespace BulkRange

def numbers (r : BulkRange) : List Int :=
  (List.range r.count).map fun (i : Nat) => r.first + (i : Int) * r.stride

end BulkRange

-- One letter for every pair of a bulk action, and the first error.
structure BulkReport where
  letters : List Char
  firstError : Option StoreError

namespace BulkReport

def letter (found : Bool) : Char := if found then 'T' else 'F'

def add (r : BulkReport) : Except StoreError Char → BulkReport
  | .ok c => { r with letters := c :: r.letters }
  | .error e => ⟨'E' :: r.letters, r.firstError.or (some e)⟩

end BulkReport

-- The stored pages of an index: the directory page, and every bucket with its pairs.
structure IndexDump (K V : Type) where
  directory : Page
  decoded : Directory
  buckets : List (PageId × List (K × V) × Page)

namespace NamedIndex

variable {n : Nat}

def act (e : NamedIndex) (action : BulkAction) (key value : Int) : Op (Workbench n) Char :=
  match action with
  | .insert => BulkReport.letter <$> e.index.insert (e.key.nth key) (e.value.nth value)
  | .remove => BulkReport.letter <$> e.index.remove (e.key.nth key) (e.value.nth value)
  | .get => do
    let values ← e.index.get (e.key.nth key)
    return Char.ofNat ('0'.toNat + min 9 values.length)

-- Act on every pair of a range. An error does not end the run.
def bulk (e : NamedIndex) (action : BulkAction) (range : BulkRange) :
    Op (Workbench n) BulkReport := do
  let step (report : BulkReport) (x : Int) : Op (Workbench n) BulkReport := do
    return report.add (← Op.attempt (e.act action x (x + range.valueShift)))
  let report ← range.numbers.foldlM step ⟨[], none⟩
  return { report with letters := report.letters.reverse }

def dumpBucket (e : NamedIndex) (id : PageId) :
    Op (Workbench n) (PageId × List (e.key.Carrier × e.value.Carrier) × Page) :=
  withPage id .shared fun guard => do
    let b ← e.index.readBucket guard
    return (id, b.entries, b.page)

-- Read the pages one at a time. No call fault strikes.
def dump (e : NamedIndex) : Op (Workbench n) (IndexDump e.key.Carrier e.value.Carrier) :=
  Workbench.withoutFaults do
    let directory ← withPage e.index.directory .shared fun guard => readPage guard
    let decoded := Directory.ofPage directory
    let ids ← decoded.checkedBucketIds
    return { directory, decoded, buckets := ← ids.mapM e.dumpBucket }

end NamedIndex

namespace Session

-- Keep an index under its name, in place of any other of that name.
def keepIndex (e : NamedIndex) : Op Session Unit :=
  Op.update fun s =>
    { s with opened := s.opened.map fun o =>
      { o with indexes := e :: o.indexes.filter fun other => other.name != e.name } }

def indexNamed (name : String) : SessionM NamedIndex := do
  match ← run (Op.observe fun s =>
    s.opened.bind fun o => o.indexes.find? fun e => e.name == name) with
  | some e => return e
  | none => throw .noTable

def named (name : String) (r : IndexRequest)
    (index : HashIndex r.key.Carrier r.value.Carrier) : NamedIndex :=
  ⟨name, r.key, r.value, index⟩

-- Create an index and keep it under a name.
def createIndex (name : String) (r : IndexRequest) : SessionM NamedIndex := do
  let index ← onBench fun _ =>
    HashIndex.create r.name (KeyPolicy.ofRules r.key r.order r.hash) r.capacity?
  run (keepIndex (named name r index))
  return named name r index

-- Open the index whose directory is at a page, and keep it under a name.
def openIndex (name : String) (directory : PageId) (r : IndexRequest) : SessionM NamedIndex := do
  let index ← onBench fun _ =>
    HashIndex.openAt r.name (KeyPolicy.ofRules r.key r.order r.hash) directory r.capacity?
  run (keepIndex (named name r index))
  return named name r index

end Session

end PagedIndex
