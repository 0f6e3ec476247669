import PagedIndex.Field.Codec

namespace PagedIndex.KeyOrder

def byValue {K : Type} [Ord K] (a b : K) : Ordering := compare a b

-- Keys whose encodings start with the same byte count as equal.
def byFirstByte {K : Type} [FixedWidth K] (a b : K) : Ordering :=
  compare (FixedWidth.encode a).toList.head? (FixedWidth.encode b).toList.head?

end PagedIndex.KeyOrder
