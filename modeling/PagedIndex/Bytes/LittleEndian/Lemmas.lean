import Mathlib.Algebra.Order.Ring.Nat
import PagedIndex.Bytes.LittleEndian

namespace PagedIndex.LittleEndian

theorem ofDigits_digits_eq_mod (n x : Nat) : ofDigits (digits n x) = x % 256 ^ n := by
  induction n generalizing x with
  | zero => simp [digits, ofDigits, Nat.mod_one]
  | succ n ih =>
    have hdigit : (UInt8.ofNat (x % 256)).toNat = x % 256 := by
      rw [UInt8.toNat_ofNat']
      omega
    rw [digits, ofDigits, ih, hdigit, Nat.pow_succ', Nat.mod_mul]

theorem ofDigits_digits (n x : Nat) (h : x < 256 ^ n) : ofDigits (digits n x) = x := by
  rw [ofDigits_digits_eq_mod, Nat.mod_eq_of_lt h]

theorem ofDigits_append (as bs : List UInt8) :
    ofDigits (as ++ bs) = ofDigits as + 256 ^ as.length * ofDigits bs := by
  induction as with
  | nil => simp [ofDigits]
  | cons a as ih =>
    rw [List.cons_append, ofDigits, ofDigits, ih, List.length_cons, Nat.pow_succ', Nat.mul_add,
      Nat.mul_assoc, Nat.add_assoc]

-- The digits of a number of two parts, of which the lower one has `m` digits.
theorem digits_add {m x : Nat} (hx : x < 256 ^ m) (n y : Nat) :
    digits (m + n) (x + 256 ^ m * y) = digits m x ++ digits n y := by
  induction m generalizing x with
  | zero =>
    obtain rfl : x = 0 := by simpa using hx
    simp [digits]
  | succ m ih =>
    have hhigh : x / 256 < 256 ^ m := Nat.div_lt_of_lt_mul (by rwa [Nat.pow_succ'] at hx)
    have hparts : x + 256 ^ (m + 1) * y = x + 256 * (256 ^ m * y) := by
      rw [Nat.pow_succ', Nat.mul_assoc]
    rw [Nat.succ_add, digits, digits, hparts, Nat.add_mul_mod_self_left,
      Nat.add_mul_div_left _ _ (by decide), ih hhigh, List.cons_append]

theorem ofDigits_lt (bs : List UInt8) : ofDigits bs < 256 ^ bs.length := by
  induction bs with
  | nil => simp [ofDigits]
  | cons b bs ih =>
    have hb := b.toNat_lt
    simp only [ofDigits, List.length_cons, Nat.pow_succ]
    omega

theorem decode_encode (n x : Nat) (h : x < 256 ^ n) : decode (encode n x) = x := by
  rw [decode_eq_ofDigits]
  exact ofDigits_digits n x h

theorem decode_lt (bytes : Vector UInt8 n) : decode bytes < 256 ^ n := by
  simpa [decode_eq_ofDigits] using ofDigits_lt bytes.toList

end PagedIndex.LittleEndian
