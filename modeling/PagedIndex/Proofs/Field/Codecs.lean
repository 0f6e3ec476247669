import Mathlib.Data.List.Basic
import PagedIndex.Field.Lawful
import PagedIndex.Field.Order
import PagedIndex.Hash.KeyHash
import PagedIndex.Page.Basic

namespace PagedIndex

namespace Buffer

variable {n : Nat}

-- Bytes put one after another over those from `start` on.
def put (buffer : Vector UInt8 n) (start : Nat) : List UInt8 → Vector UInt8 n
  | [] => buffer
  | b :: bytes => put (buffer.setIfInBounds start b) (start + 1) bytes

-- What is put behind other bytes is put with them.
theorem put_append (buffer : Vector UInt8 n) (start : Nat) (as bs : List UInt8) :
    put (put buffer start as) (start + as.length) bs = put buffer start (as ++ bs) := by
  induction as generalizing buffer start with
  | nil => rfl
  | cons a as ih =>
    rw [List.length_cons, Nat.add_comm as.length 1, ← Nat.add_assoc, put, ih]
    rfl

-- Bytes that reach to the end of the buffer leave only what is before them.
theorem toList_put (buffer : Vector UInt8 n) {start : Nat} {bytes : List UInt8}
    (hend : start + bytes.length = n) :
    (put buffer start bytes).toList = buffer.toList.take start ++ bytes := by
  induction bytes generalizing buffer start with
  | nil =>
    have hstart : buffer.toList.length ≤ start := by
      rw [Vector.length_toList]
      exact hend.ge
    rw [put, List.append_nil, List.take_of_length_le hstart]
  | cons b bytes ih =>
    have hstart : start < n := by
      rw [← hend, List.length_cons]
      omega
    have hlength : start < (buffer.toList.set start b).length := by
      rwa [List.length_set, Vector.length_toList]
    have hset : (buffer.setIfInBounds start b).toList = buffer.toList.set start b := by
      rw [← Vector.toList_toArray, Vector.toArray_setIfInBounds, Array.toList_setIfInBounds]
      rfl
    rw [put, ih (buffer.setIfInBounds start b) (by rw [← hend, List.length_cons]; omega), hset,
      List.take_succ_eq_append_getElem hlength, List.getElem_set_self, List.take_set_of_le le_rfl,
      List.append_assoc]
    rfl

theorem toList_put_zero (buffer : Vector UInt8 n) {bytes : List UInt8} (hlength : bytes.length = n) :
    (put buffer 0 bytes).toList = bytes := by
  rw [toList_put buffer ((Nat.zero_add _).trans hlength)]
  rfl

theorem put_digits (buffer : Vector UInt8 n) (x : Nat) :
    put buffer 0 (LittleEndian.digits n x) = LittleEndian.encode n x := by
  rw [← Vector.toList_inj, toList_put_zero buffer (LittleEndian.length_digits n x)]
  rfl

end Buffer

namespace RecordId

-- The number of the six bytes of a record id is that of the page and above it that of the slot.
theorem decode_eq_parts (buffer : Vector UInt8 6) :
    LittleEndian.decode buffer = LittleEndian.ofDigits (buffer.toList.take 4) +
      4294967296 * LittleEndian.ofDigits ((buffer.toList.drop 4).take 2) := by
  have hslot : (buffer.toList.drop 4).take 2 = buffer.toList.drop 4 := by
    refine List.take_of_length_le ?_
    rw [List.length_drop, Vector.length_toList]
  have hpage : (buffer.toList.take 4).length = 4 := by
    rw [List.length_take, Vector.length_toList]
    rfl
  have happend := LittleEndian.ofDigits_append (buffer.toList.take 4) (buffer.toList.drop 4)
  rw [List.take_append_drop, hpage] at happend
  rw [LittleEndian.decode_eq_ofDigits, hslot]
  exact happend

end RecordId

namespace FieldType

-- Write a value over a buffer of its width.
def writeTo : (t : FieldType) → t.Carrier → Vector UInt8 (FixedWidth.width t.Carrier) →
    Vector UInt8 (FixedWidth.width t.Carrier)
  | int32, x, buffer => Buffer.put buffer 0 (LittleEndian.digits 4 x.toUInt32.toNat)
  | uint32, x, buffer => Buffer.put buffer 0 (LittleEndian.digits 4 x.toNat)
  | int64, x, buffer => Buffer.put buffer 0 (LittleEndian.digits 8 x.toUInt64.toNat)
  | uint64, x, buffer => Buffer.put buffer 0 (LittleEndian.digits 8 x.toNat)
  | recordId, r, buffer =>
    Buffer.put (Buffer.put buffer 0 (LittleEndian.digits 4 r.page.number.toNat)) 4
      (LittleEndian.digits 2 r.slot.toNat)
  | byteKey _, key, buffer => Buffer.put buffer 0 key.bytes.toList

-- Read a value from a buffer of its width.
def readFrom : (t : FieldType) → Vector UInt8 (FixedWidth.width t.Carrier) → t.Carrier
  | int32, buffer => (UInt32.ofNat (LittleEndian.ofDigits buffer.toList)).toInt32
  | uint32, buffer => UInt32.ofNat (LittleEndian.ofDigits buffer.toList)
  | int64, buffer => (UInt64.ofNat (LittleEndian.ofDigits buffer.toList)).toInt64
  | uint64, buffer => UInt64.ofNat (LittleEndian.ofDigits buffer.toList)
  | recordId, buffer =>
    ⟨⟨UInt32.ofNat (LittleEndian.ofDigits (buffer.toList.take 4))⟩,
      UInt16.ofNat (LittleEndian.ofDigits ((buffer.toList.drop 4).take 2))⟩
  | byteKey n, buffer => ByteKey.ofList n buffer.toList

-- A digest of the bytes of a key, which is written into a new buffer for it.
def digest (hash : UInt64 → Array UInt8 → UInt64) (seed : UInt64) (t : FieldType)
    (key : t.Carrier) : UInt64 :=
  hash seed (t.writeTo key (Vector.replicate _ 0)).toArray

-- Nothing of the buffer is left.
theorem writeTo_eq (t : FieldType) (x : t.Carrier)
    (buffer : Vector UInt8 (FixedWidth.width t.Carrier)) :
    t.writeTo x buffer = FixedWidth.encode x := by
  cases t with
  | int32 => exact Buffer.put_digits buffer x.toUInt32.toNat
  | uint32 => exact Buffer.put_digits buffer x.toNat
  | int64 => exact Buffer.put_digits buffer x.toUInt64.toNat
  | uint64 => exact Buffer.put_digits buffer x.toNat
  | recordId =>
    obtain ⟨⟨page⟩, slot⟩ := x
    have htwo := Buffer.put_append buffer 0 (LittleEndian.digits 4 page.toNat)
      (LittleEndian.digits 2 slot.toNat)
    rw [LittleEndian.length_digits, ← LittleEndian.digits_add page.toNat_lt] at htwo
    exact htwo.trans (Buffer.put_digits buffer _)
  | byteKey n =>
    obtain ⟨bytes⟩ := x
    exact Vector.toList_inj.mp (Buffer.toList_put_zero buffer bytes.length_toList)

theorem readFrom_eq (t : FieldType) (buffer : Vector UInt8 (FixedWidth.width t.Carrier)) :
    t.readFrom buffer = FixedWidth.decode buffer := by
  cases t with
  | int32 =>
    exact congrArg (fun n => (UInt32.ofNat n).toInt32) (LittleEndian.decode_eq_ofDigits buffer).symm
  | uint32 => exact congrArg UInt32.ofNat (LittleEndian.decode_eq_ofDigits buffer).symm
  | int64 =>
    have hword := word64_eq_ofNat buffer
    rw [LittleEndian.decode_eq_ofDigits] at hword
    exact congrArg UInt64.toInt64 hword.symm
  | uint64 =>
    have hword := word64_eq_ofNat buffer
    rw [LittleEndian.decode_eq_ofDigits] at hword
    exact hword.symm
  | recordId =>
    have hparts := RecordId.decode_eq_parts buffer
    have hsmall : LittleEndian.ofDigits (buffer.toList.take 4) < 4294967296 :=
      (LittleEndian.ofDigits_lt _).trans_le (Nat.pow_le_pow_right (by decide) (List.length_take_le 4 _))
    have hpage : UInt32.ofNat (LittleEndian.ofDigits (buffer.toList.take 4)) =
        UInt32.ofNat (LittleEndian.decode buffer) := by
      apply UInt32.toNat_inj.mp
      rw [UInt32.toNat_ofNat', UInt32.toNat_ofNat', hparts]
      omega
    have hslot : LittleEndian.ofDigits ((buffer.toList.drop 4).take 2) =
        LittleEndian.decode buffer / 4294967296 := by
      rw [hparts]
      omega
    exact congrArg₂ RecordId.mk (congrArg PageId.mk hpage) (congrArg UInt16.ofNat hslot)
  | byteKey n => exact ByteKey.ofList_toList buffer

end FieldType

section Order

instance : Std.LawfulEqOrd PageId where
  compare_self {a} := Std.ReflOrd.compare_self (a := a.number)
  eq_of_compare {a b} h :=
    congrArg PageId.mk (Std.LawfulEqOrd.eq_of_compare (a := a.number) (b := b.number) h)

instance : Std.LawfulEqOrd RecordId where
  compare_self {a} := by
    change (compare a.page a.page).then (compare a.slot a.slot) = .eq
    rw [Std.ReflOrd.compare_self, Std.ReflOrd.compare_self]
    rfl
  eq_of_compare h := by
    obtain ⟨hpage, hslot⟩ := Ordering.then_eq_eq.mp h
    exact congrArg₂ RecordId.mk (Std.LawfulEqOrd.eq_of_compare hpage)
      (Std.LawfulEqOrd.eq_of_compare hslot)

instance {n : Nat} : Std.LawfulEqOrd (ByteKey n) where
  compare_self {a} := Std.ReflOrd.compare_self (a := a.bytes.toList)
  eq_of_compare {a b} h :=
    congrArg ByteKey.mk (Vector.toList_inj.mp
      (Std.LawfulEqOrd.eq_of_compare (a := a.bytes.toList) (b := b.bytes.toList) h))

instance : (t : FieldType) → Std.LawfulEqOrd t.Carrier
  | .int32 => inferInstanceAs (Std.LawfulEqOrd Int32)
  | .uint32 => inferInstanceAs (Std.LawfulEqOrd UInt32)
  | .int64 => inferInstanceAs (Std.LawfulEqOrd Int64)
  | .uint64 => inferInstanceAs (Std.LawfulEqOrd UInt64)
  | .recordId => inferInstanceAs (Std.LawfulEqOrd RecordId)
  | .byteKey n => inferInstanceAs (Std.LawfulEqOrd (ByteKey n))

end Order

namespace FieldType

variable (t : FieldType)

theorem byValue_eq_iff (a b : t.Carrier) : KeyOrder.byValue a b = .eq ↔ a = b :=
  Std.LawfulEqOrd.compare_eq_iff_eq

-- The buffer that a key is written into is new, but it might as well be any.
theorem digest_eq (hash : UInt64 → Array UInt8 → UInt64) (seed : UInt64) (key : t.Carrier) :
    t.digest hash seed key = hash seed (FixedWidth.encode key).toArray := by
  rw [digest, writeTo_eq]

-- For every field type, writing and reading a buffer take values to strings of bytes of the width of
-- the type and back, whatever the buffer held, and a place in a page is such a buffer. Values with one
-- encoding are one value, and so are keys that compare equal, so these have one hash under any function
-- of the bytes and a seed, of which the stored indexes use one.
theorem codec_bijective :
    (∀ (x : t.Carrier) buffer, t.readFrom (t.writeTo x buffer) = x) ∧
      (∀ bytes buffer, t.writeTo (t.readFrom bytes) buffer = bytes) ∧
      (∀ (x : t.Carrier) buffer, t.writeTo x buffer = FixedWidth.encode x) ∧
      (∀ bytes, t.readFrom bytes = FixedWidth.decode bytes) ∧
      (∀ (x : t.Carrier) (p : Page) start, start + FixedWidth.width t.Carrier ≤ pageSize →
        (p.splice start (FixedWidth.encode x)).slice start _ = FixedWidth.encode x) ∧
      (∀ x y : t.Carrier, x = y ↔ FixedWidth.encode x = FixedWidth.encode y) ∧
      (∀ hash seed (a b : t.Carrier), KeyOrder.byValue a b = .eq →
        t.digest hash seed a = t.digest hash seed b) ∧
      ∀ seed (a : t.Carrier), KeyHash.xx seed a = t.digest XxHash.hash seed a := by
  refine ⟨fun x buffer => ?_, fun bytes buffer => ?_, t.writeTo_eq, t.readFrom_eq,
    fun x p start hfits => Page.slice_splice p start _ hfits,
    fun x y => FixedWidth.encode_inj.symm, fun hash seed a b hequal => ?_, fun seed a => ?_⟩
  · rw [t.writeTo_eq, t.readFrom_eq]
    exact LawfulFixedWidth.decode_encode x
  · rw [t.writeTo_eq, t.readFrom_eq]
    exact LawfulFixedWidth.encode_decode bytes
  · rw [(t.byValue_eq_iff a b).mp hequal]
  · exact (t.digest_eq XxHash.hash seed a).symm

-- A record id over bytes that were all set, a negative integer at the end of a page, and one key that
-- comes from two integers.
theorem codec_bijective_recordId :
    recordId.writeTo ⟨⟨0x0A0B0C0D⟩, 0x0102⟩ (Vector.replicate 6 0xff) =
        #v[0x0D, 0x0C, 0x0B, 0x0A, 0x02, 0x01] ∧
      recordId.readFrom (recordId.writeTo ⟨⟨0xFFFFFFFF⟩, 7⟩ (Vector.replicate 6 0xff)) =
        ⟨⟨0xFFFFFFFF⟩, 7⟩ ∧
      4092 + FixedWidth.width int32.Carrier ≤ pageSize ∧
      ((Page.fill 0xff).splice 4092 (FixedWidth.encode (-7 : Int32))).slice 4092 4 =
        #v[0xf9, 0xff, 0xff, 0xff] ∧
      KeyOrder.byValue (ByteKey.ofInt64 2 (-1)) (ByteKey.ofInt64 2 65535) = .eq ∧
      KeyHash.xx 3 (ByteKey.ofInt64 2 (-1)) = KeyHash.xx 3 (ByteKey.ofInt64 2 65535) := by
  obtain ⟨hread, -, hencode, -⟩ := codec_bijective recordId
  obtain ⟨-, -, -, -, hplace, -⟩ := codec_bijective int32
  obtain ⟨-, -, -, -, -, -, hequal, hhash⟩ := codec_bijective (byteKey 2)
  have hfits : 4092 + FixedWidth.width int32.Carrier ≤ pageSize := by decide
  have hsame : KeyOrder.byValue (ByteKey.ofInt64 2 (-1)) (ByteKey.ofInt64 2 65535) = .eq := by decide
  refine ⟨(hencode _ _).trans (by decide), hread _ _, hfits,
    (hplace (-7 : Int32) (Page.fill 0xff) 4092 hfits).trans (by decide), hsame, ?_⟩
  exact (hhash 3 _).trans ((hequal XxHash.hash 3 _ _ hsame).trans (hhash 3 _).symm)

end FieldType

end PagedIndex
