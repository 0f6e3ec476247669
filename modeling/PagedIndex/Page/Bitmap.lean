import PagedIndex.Page.Basic

namespace PagedIndex.Page

-- Bit `i` of the bitmap that starts at byte `base`.
def bit (p : Page) (base i : Nat) : Bool := (p.byte (base + i / 8)).toNat.testBit (i % 8)

def setBit (p : Page) (base i : Nat) : Page :=
  let b := p.byte (base + i / 8)
  p.set (base + i / 8) (b ||| 1 <<< UInt8.ofNat (i % 8))

def clearBit (p : Page) (base i : Nat) : Page :=
  let b := p.byte (base + i / 8)
  p.set (base + i / 8) (b &&& ~~~(1 <<< UInt8.ofNat (i % 8)))

private theorem testBit_or_bit (b : UInt8) {i : Nat} (j : Nat) (hi : i < 8) :
    (b ||| 1 <<< UInt8.ofNat i).toNat.testBit j = (decide (i = j) || b.toNat.testBit j) := by
  have hone : ∀ i : Fin 8, (1 <<< UInt8.ofNat i : UInt8).toNat = 1 <<< i.val := by decide
  rw [UInt8.toNat_or, Nat.testBit_or, hone ⟨i, hi⟩, Nat.one_shiftLeft, Nat.testBit_two_pow,
    Bool.or_comm]

private theorem testBit_and_not_bit (b : UInt8) {i j : Nat} (hi : i < 8) (hj : j < 8) :
    (b &&& ~~~(1 <<< UInt8.ofNat i)).toNat.testBit j = (!decide (i = j) && b.toNat.testBit j) := by
  have hmask : ∀ i j : Fin 8,
      (~~~(1 <<< UInt8.ofNat i) : UInt8).toNat.testBit j = !decide (i.val = j.val) := by decide
  rw [UInt8.toNat_and, Nat.testBit_and, hmask ⟨i, hi⟩ ⟨j, hj⟩, Bool.and_comm]

-- Two bits of one bitmap are the same bit if they have the same byte and the same place in it.
private theorem eq_of_div_eq_of_mod_eq {i j : Nat} (hdiv : i / 8 = j / 8) (hmod : i % 8 = j % 8) :
    i = j := by
  rw [← Nat.div_add_mod i 8, ← Nat.div_add_mod j 8, hdiv, hmod]

theorem bit_setBit (p : Page) (base i j : Nat) (h : base + i / 8 < pageSize) :
    (p.setBit base i).bit base j = (decide (i = j) || p.bit base j) := by
  simp only [setBit, bit, byte_set]
  by_cases hdiv : i / 8 = j / 8
  · rw [if_pos ⟨by omega, h⟩, testBit_or_bit _ _ (Nat.mod_lt _ (by decide)), hdiv]
    by_cases hmod : i % 8 = j % 8
    · simp [eq_of_div_eq_of_mod_eq hdiv hmod]
    · simp [hmod, show i ≠ j from fun hij => hmod (hij ▸ rfl)]
  · rw [if_neg (by omega)]
    simp [show i ≠ j from fun hij => hdiv (hij ▸ rfl)]

theorem bit_clearBit (p : Page) (base i j : Nat) (h : base + i / 8 < pageSize) :
    (p.clearBit base i).bit base j = (!decide (i = j) && p.bit base j) := by
  simp only [clearBit, bit, byte_set]
  by_cases hdiv : i / 8 = j / 8
  · rw [if_pos ⟨by omega, h⟩,
      testBit_and_not_bit _ (Nat.mod_lt _ (by decide)) (Nat.mod_lt _ (by decide)), hdiv]
    by_cases hmod : i % 8 = j % 8
    · simp [eq_of_div_eq_of_mod_eq hdiv hmod]
    · simp [hmod, show i ≠ j from fun hij => hmod (hij ▸ rfl)]
  · rw [if_neg (by omega)]
    simp [show i ≠ j from fun hij => hdiv (hij ▸ rfl)]

theorem byte_setBit_of_ne (p : Page) (base i : Nat) (h : base + i / 8 ≠ j) :
    (p.setBit base i).byte j = p.byte j := by
  simp [setBit, byte_set, h]

theorem byte_clearBit_of_ne (p : Page) (base i : Nat) (h : base + i / 8 ≠ j) :
    (p.clearBit base i).byte j = p.byte j := by
  simp [clearBit, byte_set, h]

end PagedIndex.Page
