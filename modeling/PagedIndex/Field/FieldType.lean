import PagedIndex.Field.ByteKey
import PagedIndex.Field.RecordId

namespace PagedIndex

-- The types that a key or a value of an index may have.
inductive FieldType
  | int32
  | uint32
  | int64
  | uint64
  | recordId
  | byteKey (n : Nat)
deriving DecidableEq, Repr

namespace FieldType

abbrev Carrier : FieldType → Type
  | int32 => Int32
  | uint32 => UInt32
  | int64 => Int64
  | uint64 => UInt64
  | recordId => RecordId
  | byteKey n => ByteKey n

instance : (t : FieldType) → FixedWidth t.Carrier
  | int32 => inferInstanceAs (FixedWidth Int32)
  | uint32 => inferInstanceAs (FixedWidth UInt32)
  | int64 => inferInstanceAs (FixedWidth Int64)
  | uint64 => inferInstanceAs (FixedWidth UInt64)
  | recordId => inferInstanceAs (FixedWidth RecordId)
  | byteKey n => inferInstanceAs (FixedWidth (ByteKey n))

instance : (t : FieldType) → DecidableEq t.Carrier
  | int32 => inferInstanceAs (DecidableEq Int32)
  | uint32 => inferInstanceAs (DecidableEq UInt32)
  | int64 => inferInstanceAs (DecidableEq Int64)
  | uint64 => inferInstanceAs (DecidableEq UInt64)
  | recordId => inferInstanceAs (DecidableEq RecordId)
  | byteKey n => inferInstanceAs (DecidableEq (ByteKey n))

instance : (t : FieldType) → Ord t.Carrier
  | int32 => inferInstanceAs (Ord Int32)
  | uint32 => inferInstanceAs (Ord UInt32)
  | int64 => inferInstanceAs (Ord Int64)
  | uint64 => inferInstanceAs (Ord UInt64)
  | recordId => inferInstanceAs (Ord RecordId)
  | byteKey n => inferInstanceAs (Ord (ByteKey n))

-- The `x`th value of the type. A record id has 100 slots to a page.
def nth : (t : FieldType) → Int → t.Carrier
  | int32, x => Int32.ofInt x
  | uint32, x => UInt32.ofInt x
  | int64, x => Int64.ofInt x
  | uint64, x => UInt64.ofInt x
  | recordId, x => ⟨⟨UInt32.ofInt (x.tdiv 100)⟩, UInt16.ofInt (x.tmod 100)⟩
  | byteKey n, x => ByteKey.ofInt64 n (Int64.ofInt x)

end FieldType

end PagedIndex
