import PagedIndex.Field.Codec
import PagedIndex.Hash.XxHash

namespace PagedIndex.KeyHash

variable {K : Type} [FixedWidth K]

-- All but the constant hash look at the stored encoding only.
def xx (seed : UInt64) (key : K) : UInt64 := XxHash.hash seed (FixedWidth.encode key).toArray

-- The first eight bytes of the encoding as a little-endian number.
def leading (key : K) : UInt64 :=
  UInt64.ofNat (LittleEndian.ofDigits ((FixedWidth.encode key).toList.take 8))

-- `leading` moved past the bits that address a directory.
def raised (key : K) : UInt64 := leading key <<< 32

def constant (value : UInt64) (_ : K) : UInt64 := value

end PagedIndex.KeyHash
