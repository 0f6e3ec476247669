import PagedIndex.Page.Basic

namespace PagedIndex.BucketLayout

-- A bucket page has a bitmap of the occupied slots, a bitmap of the readable slots, and then the
-- slots.
def bitmapBytes (slots : Nat) : Nat := (slots + 7) / 8

-- `n` slots of the given width fit a page beside both bitmaps.
def Fits (slotWidth n : Nat) : Prop := 2 * bitmapBytes n + n * slotWidth ≤ pageSize

instance (slotWidth n : Nat) : Decidable (Fits slotWidth n) := Nat.decLe _ _

-- The most slots that fit, among numbers up to `n`.
def mostUpTo (slotWidth : Nat) : Nat → Nat
  | 0 => 0
  | n + 1 => if Fits slotWidth (n + 1) then n + 1 else mostUpTo slotWidth n

-- The most slots that fit a page. The search starts from the bound that two bits a slot give.
def maxSlots (slotWidth : Nat) : Nat := mostUpTo slotWidth (4 * pageSize / (4 * slotWidth + 1))

theorem fits_mostUpTo (slotWidth n : Nat) : Fits slotWidth (mostUpTo slotWidth n) := by
  induction n with
  | zero => simp [mostUpTo, Fits, bitmapBytes]
  | succ n ih =>
    rw [mostUpTo]
    split
    · assumption
    · exact ih

theorem le_mostUpTo {slotWidth m n : Nat} (hmn : m ≤ n) (hm : Fits slotWidth m) :
    m ≤ mostUpTo slotWidth n := by
  induction n with
  | zero => omega
  | succ n ih =>
    rw [mostUpTo]
    split
    · exact hmn
    · rename_i hn
      have : m ≠ n + 1 := fun h => hn (h ▸ hm)
      exact ih (by omega)

theorem fits_maxSlots (slotWidth : Nat) : Fits slotWidth (maxSlots slotWidth) :=
  fits_mostUpTo _ _

end PagedIndex.BucketLayout
