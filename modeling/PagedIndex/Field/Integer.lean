import PagedIndex.Field.Codec

namespace PagedIndex

-- Integers are stored little-endian, signed ones in two's complement.
instance : FixedWidth UInt32 where
  width := 4
  encode x := LittleEndian.encode 4 x.toNat
  decode bytes := UInt32.ofNat (LittleEndian.decode bytes)
  read byte :=
    (byte 0).toUInt32 + 256 * ((byte 1).toUInt32 + 256 * ((byte 2).toUInt32 +
      256 * (byte 3).toUInt32))
  read_eq_decode byte := by
    simp [LittleEndian.decode_eq_ofDigits, Vector.toList, Array.toList_ofFn, List.ofFn_succ,
      LittleEndian.ofDigits]

-- The number held by eight bytes, computed in 64 bits.
def word64 (bytes : Vector UInt8 8) : UInt64 := bytes.foldr (fun b x => b.toUInt64 + 256 * x) 0

theorem word64_eq_ofNat (bytes : Vector UInt8 8) :
    word64 bytes = UInt64.ofNat (LittleEndian.decode bytes) := by
  rw [word64, LittleEndian.decode, ← Vector.foldr_toList, ← Vector.foldr_toList]
  induction bytes.toList with
  | nil => rfl
  | cons b bs ih => simp [ih]

instance : FixedWidth UInt64 where
  width := 8
  encode x := LittleEndian.encode 8 x.toNat
  decode := word64
  read byte :=
    (byte 0).toUInt64 + 256 * ((byte 1).toUInt64 + 256 * ((byte 2).toUInt64 +
      256 * ((byte 3).toUInt64 + 256 * ((byte 4).toUInt64 + 256 * ((byte 5).toUInt64 +
        256 * ((byte 6).toUInt64 + 256 * (byte 7).toUInt64))))))
  read_eq_decode byte := by
    simp [word64, ← Vector.foldr_toList, Vector.toList, Array.toList_ofFn, List.ofFn_succ]

instance : FixedWidth Int32 where
  width := 4
  encode x := FixedWidth.encode x.toUInt32
  decode bytes := (FixedWidth.decode (α := UInt32) bytes).toInt32
  read byte := (FixedWidth.read (α := UInt32) byte).toInt32
  read_eq_decode byte := congrArg UInt32.toInt32 (FixedWidth.read_eq_decode byte)

instance : FixedWidth Int64 where
  width := 8
  encode x := FixedWidth.encode x.toUInt64
  decode bytes := (FixedWidth.decode (α := UInt64) bytes).toInt64
  read byte := (FixedWidth.read (α := UInt64) byte).toInt64
  read_eq_decode byte := congrArg UInt64.toInt64 (FixedWidth.read_eq_decode byte)

end PagedIndex
