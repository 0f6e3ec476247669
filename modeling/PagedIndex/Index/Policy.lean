import PagedIndex.Field.FieldType
import PagedIndex.Field.Order
import PagedIndex.Hash.KeyHash
import PagedIndex.Index.Basic

namespace PagedIndex

-- The ways of comparing and hashing keys that an index can be asked for by name.
inductive OrderRule
  | byValue
  | byFirstByte
deriving DecidableEq, Repr

inductive HashRule
  | xx (seed : UInt64)
  | leading
  | raised
  | constant (value : UInt64)
deriving DecidableEq, Repr

namespace OrderRule

def order (t : FieldType) : OrderRule → t.Carrier → t.Carrier → Ordering
  | byValue => KeyOrder.byValue
  | byFirstByte => KeyOrder.byFirstByte

end OrderRule

namespace HashRule

def hash (t : FieldType) : HashRule → t.Carrier → UInt64
  | xx seed => KeyHash.xx seed
  | leading => KeyHash.leading
  | raised => KeyHash.raised
  | constant value => KeyHash.constant value

end HashRule

namespace KeyPolicy

def ofRules (t : FieldType) (order : OrderRule) (hash : HashRule) : KeyPolicy t.Carrier :=
  ⟨order.order t, hash.hash t⟩

end KeyPolicy

end PagedIndex
