import Mathlib.Algebra.Order.GroupWithZero.Basic
import Mathlib.Algebra.Order.Ring.Int
import Mathlib.Data.Nat.Cast.Order.Ring
import Mathlib.Order.Compare
import PagedIndex.Bytes.LittleEndian.Lemmas
import PagedIndex.Field.ByteKey
import PagedIndex.Field.Integer
import PagedIndex.Field.Order

namespace PagedIndex

theorem compare_map_of_strictMono {α β : Type} [LinearOrder α] [LinearOrder β] {f : α → β}
    (hf : StrictMono f) (x y : α) : compare (f x) (f y) = compare x y := by
  rw [← cmp_eq_compare, hf.cmp_map_eq, cmp_eq_compare]

-- Of numbers with two digits, the high digit decides before the low one.
theorem compare_add_mul {base x y : Nat} (hx : x < base) (hy : y < base) (a b : Nat) :
    compare (x + base * a) (y + base * b) = (compare a b).then (compare x y) := by
  rcases Nat.lt_trichotomy a b with hlt | rfl | hgt
  · have hmul : base * a + base ≤ base * b := Nat.mul_le_mul_left base hlt
    rw [Nat.compare_eq_lt.mpr hlt, Nat.compare_eq_lt.mpr (by omega)]
    rfl
  · rw [Nat.compare_eq_eq.mpr rfl]
    exact compare_map_of_strictMono (strictMono_id.add_const (base * a)) x y
  · have hmul : base * b + base ≤ base * a := Nat.mul_le_mul_left base hgt
    rw [Nat.compare_eq_gt.mpr hgt, Nat.compare_eq_gt.mpr (by omega)]
    rfl

namespace LittleEndian

-- Strings of one length that start with the most significant byte are ordered as the numbers.
theorem compare_eq_compare_ofDigits {as bs : List UInt8} (hlength : as.length = bs.length) :
    compare as bs = compare (ofDigits as.reverse) (ofDigits bs.reverse) := by
  induction as generalizing bs with
  | nil =>
    obtain rfl : bs = [] := List.length_eq_zero_iff.mp hlength.symm
    rfl
  | cons a as ih =>
    cases bs with
    | nil => cases hlength
    | cons b bs =>
      have htail : as.length = bs.length := Nat.succ.inj hlength
      have has := ofDigits_lt as.reverse
      have hbs := ofDigits_lt bs.reverse
      rw [List.length_reverse] at has hbs
      rw [← htail] at hbs
      have hdigit (c : UInt8) : ofDigits [c] = c.toNat := rfl
      rw [List.compare_cons_cons, ih htail, List.reverse_cons, List.reverse_cons, ofDigits_append,
        ofDigits_append, List.length_reverse, List.length_reverse, ← htail, hdigit, hdigit,
        compare_add_mul has hbs, UInt8.compare_eq_toNat_compare_toNat]

theorem ofDigits_replicate_zero (k : Nat) : ofDigits (List.replicate k 0) = 0 := by
  induction k with
  | zero => rfl
  | succ k ih =>
    rw [List.replicate_succ, ofDigits, ih]
    rfl

end LittleEndian

namespace ByteKey

variable {n : Nat}

-- The number that a key is, its first byte being the most significant digit.
def number (key : ByteKey n) : Nat := LittleEndian.ofDigits key.bytes.toList.reverse

theorem compare_eq_compare_number (a b : ByteKey n) : compare a b = compare a.number b.number :=
  LittleEndian.compare_eq_compare_ofDigits (by rw [Vector.length_toList, Vector.length_toList])

theorem number_ofInt64 (n : Nat) (x : Int64) :
    (ofInt64 n x).number = 256 ^ (n - 8) * (x.toUInt64.toNat % 256 ^ min n 8) := by
  have hlength : (LittleEndian.digits (min n 8) x.toUInt64.toNat).reverse.length = min n 8 := by
    rw [List.length_reverse, LittleEndian.length_digits]
  have hpadding : n - min n 8 = n - 8 := by omega
  rw [number, ofInt64, toList_ofList (hlength.trans_le (Nat.min_le_left n 8)), hlength, hpadding,
    List.reverse_append, List.reverse_reverse, List.reverse_replicate,
    LittleEndian.ofDigits_append, LittleEndian.ofDigits_replicate_zero, Nat.zero_add,
    List.length_replicate, LittleEndian.ofDigits_digits_eq_mod]

-- A word stands for the integer modulo `256 ^ 8`, so its low digits are those of the integer.
theorem toNat_mod_eq_toInt_mod (x : Int64) {m : Nat} (hm : m ≤ 8) :
    ((x.toUInt64.toNat % 256 ^ m : Nat) : Int) = x.toInt % 256 ^ m := by
  have hword : (x.toUInt64.toNat : Int) = x.toInt % 256 ^ 8 := by
    have hlt := x.toBitVec.isLt
    change (x.toBitVec.toNat : Int) = x.toBitVec.toInt % 256 ^ 8
    rw [BitVec.toInt_eq_toNat_cond]
    split <;> omega
  rw [Int.natCast_emod, hword, Nat.cast_pow]
  exact Int.emod_emod_of_dvd _ (pow_dvd_pow 256 hm)

theorem byValue_eq_compare_mod (n : Nat) (a b : Int64) :
    KeyOrder.byValue (ofInt64 n a) (ofInt64 n b) =
      compare (a.toInt % 256 ^ min n 8) (b.toInt % 256 ^ min n 8) := by
  have hfilled : StrictMono fun x => 256 ^ (n - 8) * x :=
    strictMono_mul_left_of_pos (Nat.pow_pos (by decide))
  have hmin : min n 8 ≤ 8 := Nat.min_le_right n 8
  calc KeyOrder.byValue (ofInt64 n a) (ofInt64 n b)
      = compare (ofInt64 n a).number (ofInt64 n b).number := compare_eq_compare_number _ _
    _ = compare (a.toUInt64.toNat % 256 ^ min n 8) (b.toUInt64.toNat % 256 ^ min n 8) := by
      rw [number_ofInt64, number_ofInt64]
      exact compare_map_of_strictMono hfilled _ _
    _ = compare (a.toInt % 256 ^ min n 8) (b.toInt % 256 ^ min n 8) := by
      rw [← toNat_mod_eq_toInt_mod a hmin, ← toNat_mod_eq_toInt_mod b hmin]
      exact (compare_map_of_strictMono Nat.strictMono_cast _ _).symm

theorem toInt_mod_eq (x : Int64) (hpos : 0 ≤ x.toInt) (hlt : x.toInt < 256 ^ n) :
    x.toInt % 256 ^ min n 8 = x.toInt := by
  refine Int.emod_eq_of_lt hpos ?_
  rcases Nat.le_total n 8 with hn | hn
  · rwa [Nat.min_eq_left hn]
  · rw [Nat.min_eq_right hn]
    exact x.toInt_lt.trans (by decide)

-- Keys of integers are ordered as the integers modulo the numbers that the key, or a word if that is
-- shorter, has room for. Integers that are not negative and that the key has room for are ordered as
-- they are, and no two of them have one key.
theorem byValue_ofInt64 (n : Nat) (a b : Int64) :
    KeyOrder.byValue (ofInt64 n a) (ofInt64 n b) =
        compare (a.toInt % 256 ^ min n 8) (b.toInt % 256 ^ min n 8) ∧
      (0 ≤ a.toInt ∧ a.toInt < 256 ^ n → 0 ≤ b.toInt ∧ b.toInt < 256 ^ n →
        KeyOrder.byValue (ofInt64 n a) (ofInt64 n b) = compare a.toInt b.toInt ∧
        (a ≠ b → ofInt64 n a ≠ ofInt64 n b)) := by
  have hmod := byValue_eq_compare_mod n a b
  refine ⟨hmod, fun ha hb => ?_⟩
  rw [toInt_mod_eq a ha.1 ha.2, toInt_mod_eq b hb.1 hb.2] at hmod
  refine ⟨hmod, fun hne heq => hne ?_⟩
  have hself : KeyOrder.byValue (ofInt64 n a) (ofInt64 n b) = .eq := by
    rw [heq]
    exact (compare_eq_compare_number _ _).trans (Nat.compare_eq_eq.mpr rfl)
  rw [hmod] at hself
  exact Int64.toInt_inj.mp (compare_eq_iff_eq.mp hself)

-- Keys of two bytes, of which the second integer fills both. The key of -1 is that of 65535.
theorem byValue_ofInt64_twoBytes :
    (0 ≤ (5 : Int64).toInt ∧ (5 : Int64).toInt < 256 ^ 2) ∧
      (0 ≤ (300 : Int64).toInt ∧ (300 : Int64).toInt < 256 ^ 2) ∧
      KeyOrder.byValue (ofInt64 2 5) (ofInt64 2 300) = .lt ∧ ofInt64 2 5 ≠ ofInt64 2 300 ∧
      KeyOrder.byValue (ofInt64 2 (-1)) (ofInt64 2 65535) = .eq := by
  have hfive : 0 ≤ (5 : Int64).toInt ∧ (5 : Int64).toInt < 256 ^ 2 := by decide
  have hhundreds : 0 ≤ (300 : Int64).toInt ∧ (300 : Int64).toInt < 256 ^ 2 := by decide
  obtain ⟨horder, hdistinct⟩ := (byValue_ofInt64 2 5 300).2 hfive hhundreds
  exact ⟨hfive, hhundreds, horder.trans (by decide), hdistinct (by decide),
    (byValue_ofInt64 2 (-1) 65535).1.trans (by decide)⟩

end ByteKey

end PagedIndex
