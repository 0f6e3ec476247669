import PagedIndex.Bytes.LittleEndian

namespace PagedIndex

-- Types whose values are stored in a fixed number of bytes. `read` takes the bytes by their
-- positions.
class FixedWidth (α : Type) where
  width : Nat
  encode : α → Vector UInt8 width
  decode : Vector UInt8 width → α
  read : (Nat → UInt8) → α := fun byte => decode (Vector.ofFn fun i => byte i)
  read_eq_decode : ∀ byte, read byte = decode (Vector.ofFn fun i => byte i) := by intro; rfl

class LawfulFixedWidth (α : Type) [FixedWidth α] : Prop where
  decode_encode (a : α) : FixedWidth.decode (FixedWidth.encode a) = a
  encode_decode (bytes : Vector UInt8 (FixedWidth.width α)) :
    FixedWidth.encode (FixedWidth.decode bytes : α) = bytes

-- Equal encodings come from equal values.
theorem FixedWidth.encode_inj [FixedWidth α] [LawfulFixedWidth α] {a b : α} :
    encode a = encode b ↔ a = b := by
  refine ⟨fun h => ?_, fun h => h ▸ rfl⟩
  rw [← LawfulFixedWidth.decode_encode a, h, LawfulFixedWidth.decode_encode]

end PagedIndex
