import PagedIndex.Bytes.Hex
import PagedIndex.Field.Codec

namespace PagedIndex

-- Opaque bytes, ordered as words over the alphabet of bytes.
structure ByteKey (n : Nat) where
  bytes : Vector UInt8 n
deriving DecidableEq

namespace ByteKey

def zero (n : Nat) : ByteKey n := ⟨Vector.replicate n 0⟩

instance : Inhabited (ByteKey n) := ⟨zero n⟩

-- The first `n` bytes of a list, filled up with zeroes.
def ofList (n : Nat) (bytes : List UInt8) : ByteKey n :=
  let padded := bytes.toArray
  ⟨Vector.ofFn fun i => padded[i.val]?.getD 0⟩

theorem toList_ofList {bytes : List UInt8} (hlength : bytes.length ≤ n) :
    (ofList n bytes).bytes.toList = bytes ++ List.replicate (n - bytes.length) 0 := by
  apply List.ext_getElem
  · rw [Vector.length_toList, List.length_append, List.length_replicate,
      Nat.add_sub_cancel' hlength]
  · intro i hi _
    rw [Vector.length_toList] at hi
    by_cases h : i < bytes.length
    · simp [ofList, h]
    · rw [List.getElem_append_right (Nat.le_of_not_lt h), List.getElem_replicate]
      simp [ofList, h]

theorem ofList_toList (bytes : Vector UInt8 n) : ofList n bytes.toList = ⟨bytes⟩ := by
  have hlist := toList_ofList (Nat.le_of_eq bytes.length_toList)
  rw [bytes.length_toList, Nat.sub_self, List.replicate_zero, List.append_nil] at hlist
  exact congrArg mk (Vector.toList_inj.mp hlist)

-- The eight bytes of a number, most significant first; of these the last `n` if `n` is less.
def ofInt64 (n : Nat) (x : Int64) : ByteKey n :=
  ofList n ((LittleEndian.digits (min n 8) x.toUInt64.toNat).reverse)

instance : Ord (ByteKey n) := ⟨fun a b => compare a.bytes.toList b.bytes.toList⟩

instance : FixedWidth (ByteKey n) where
  width := n
  encode key := key.bytes
  decode bytes := ⟨bytes⟩

def describe (key : ByteKey n) : String :=
  s!"GenericKey<{n}>(" ++ Hex.encode key.bytes.toList ++ ")"

end ByteKey

end PagedIndex
