import PagedIndex.Bytes.LittleEndian.Lemmas
import PagedIndex.Field.FieldType

namespace PagedIndex

instance : LawfulFixedWidth UInt32 where
  decode_encode x := by
    have hx := x.toNat_lt
    simp [FixedWidth.decode, FixedWidth.encode, LittleEndian.decode_encode 4 x.toNat (by omega)]
  encode_decode bytes := by
    have hb := LittleEndian.decode_lt bytes
    have hn : (UInt32.ofNat (LittleEndian.decode bytes)).toNat = LittleEndian.decode bytes := by
      rw [UInt32.toNat_ofNat']
      exact Nat.mod_eq_of_lt hb
    simp [FixedWidth.decode, FixedWidth.encode, hn, LittleEndian.encode_decode]

instance : LawfulFixedWidth UInt64 where
  decode_encode x := by
    have hx := x.toNat_lt
    simp [FixedWidth.decode, FixedWidth.encode, word64_eq_ofNat,
      LittleEndian.decode_encode 8 x.toNat (by omega)]
  encode_decode bytes := by
    have hb := LittleEndian.decode_lt bytes
    have hn : (UInt64.ofNat (LittleEndian.decode bytes)).toNat = LittleEndian.decode bytes := by
      rw [UInt64.toNat_ofNat']
      exact Nat.mod_eq_of_lt hb
    simp [FixedWidth.decode, FixedWidth.encode, word64_eq_ofNat, hn, LittleEndian.encode_decode]

instance : LawfulFixedWidth Int32 where
  decode_encode x :=
    congrArg UInt32.toInt32 (LawfulFixedWidth.decode_encode x.toUInt32)
  encode_decode bytes :=
    LawfulFixedWidth.encode_decode (α := UInt32) bytes

instance : LawfulFixedWidth Int64 where
  decode_encode x :=
    congrArg UInt64.toInt64 (LawfulFixedWidth.decode_encode x.toUInt64)
  encode_decode bytes :=
    LawfulFixedWidth.encode_decode (α := UInt64) bytes

instance : LawfulFixedWidth RecordId where
  decode_encode r := by
    obtain ⟨⟨page⟩, slot⟩ := r
    have hp := page.toNat_lt
    have hs := slot.toNat_lt
    simp only [FixedWidth.decode, FixedWidth.encode]
    rw [LittleEndian.decode_encode 6 _ (by omega)]
    congr
    · apply UInt32.toNat_inj.mp
      rw [UInt32.toNat_ofNat']
      omega
    · apply UInt16.toNat_inj.mp
      rw [UInt16.toNat_ofNat']
      omega
  encode_decode bytes := by
    have hb : LittleEndian.decode bytes < 281474976710656 := LittleEndian.decode_lt bytes
    simp only [FixedWidth.decode, FixedWidth.encode, UInt32.toNat_ofNat', UInt16.toNat_ofNat']
    rw [show LittleEndian.decode bytes % 2 ^ 32 +
      4294967296 * (LittleEndian.decode bytes / 4294967296 % 2 ^ 16) = LittleEndian.decode bytes
      by omega]
    exact LittleEndian.encode_decode bytes

instance : LawfulFixedWidth (ByteKey n) where
  decode_encode _ := rfl
  encode_decode _ := rfl

-- Every field type names a type with a lawful encoding.
instance : (t : FieldType) → LawfulFixedWidth t.Carrier
  | .int32 => inferInstanceAs (LawfulFixedWidth Int32)
  | .uint32 => inferInstanceAs (LawfulFixedWidth UInt32)
  | .int64 => inferInstanceAs (LawfulFixedWidth Int64)
  | .uint64 => inferInstanceAs (LawfulFixedWidth UInt64)
  | .recordId => inferInstanceAs (LawfulFixedWidth RecordId)
  | .byteKey n => inferInstanceAs (LawfulFixedWidth (ByteKey n))

end PagedIndex
