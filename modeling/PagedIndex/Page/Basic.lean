namespace PagedIndex

abbrev pageSize : Nat := 4096

structure Page where
  bytes : Vector UInt8 pageSize
deriving DecidableEq

namespace Page

def fill (b : UInt8) : Page := ⟨Vector.replicate pageSize b⟩

def zero : Page := fill 0

instance : Inhabited Page := ⟨zero⟩

def byte (p : Page) (i : Nat) : UInt8 := if h : i < pageSize then p.bytes[i] else 0

-- A byte outside the page is not stored.
def set (p : Page) (i : Nat) (b : UInt8) : Page := ⟨p.bytes.setIfInBounds i b⟩

-- The `n` bytes from offset `start`.
def slice (p : Page) (start n : Nat) : Vector UInt8 n := Vector.ofFn fun i => p.byte (start + i)

-- Overwrite the bytes from offset `start`, as far as the page reaches.
def splice (p : Page) (start : Nat) (data : Vector UInt8 n) : Page :=
  n.fold (fun i h q => q.set (start + i) data[i]) p

theorem byte_eq_getD (p : Page) (i : Nat) : p.byte i = p.bytes[i]?.getD 0 := by
  by_cases h : i < pageSize <;> simp [byte, h]

theorem ext_byte {p q : Page} (h : ∀ i < pageSize, p.byte i = q.byte i) : p = q := by
  obtain ⟨p⟩ := p
  obtain ⟨q⟩ := q
  congr
  ext i hi
  have hb := h i hi
  simp only [byte, hi, dif_pos] at hb
  rw [hb]

theorem byte_of_le (p : Page) (h : pageSize ≤ i) : p.byte i = 0 := by
  simp [byte_eq_getD, h]

theorem byte_fill (b : UInt8) (i : Nat) : (fill b).byte i = if i < pageSize then b else 0 := by
  by_cases h : i < pageSize <;> simp [byte_eq_getD, fill, h]

@[simp] theorem byte_zero (i : Nat) : zero.byte i = 0 := by
  simp [zero, byte_fill]

theorem byte_set (p : Page) (i j : Nat) (b : UInt8) :
    (p.set i b).byte j = if i = j ∧ i < pageSize then b else p.byte j := by
  simp only [byte_eq_getD, set, Vector.getElem?_setIfInBounds]
  by_cases hij : i = j
  · subst hij
    by_cases h : i < pageSize <;> simp [h]
  · simp [hij]

@[simp] theorem getElem_slice (p : Page) (start n i : Nat) (h : i < n) :
    (p.slice start n)[i] = p.byte (start + i) := by
  simp [slice]

private theorem byte_fold_set (p : Page) (start : Nat) (data : Vector UInt8 n) (k j : Nat)
    (hk : k ≤ n) :
    (k.fold (fun i h q => q.set (start + i) (data.get ⟨i, by omega⟩)) p).byte j =
      if start ≤ j ∧ j < start + k ∧ j < pageSize then data[j - start]?.getD 0 else p.byte j := by
  induction k with
  | zero => simp only [Nat.fold_zero]; split <;> first | rfl | omega
  | succ k ih =>
    rw [Nat.fold_succ, byte_set, ih (by omega)]
    by_cases hj : start + k = j
    · subst hj
      have hget : data.get ⟨k, by omega⟩ = data[k] := rfl
      by_cases hp : start + k < pageSize <;> simp [hp, hget, show k < n from by omega]
    · have hiff : (start ≤ j ∧ j < start + (k + 1) ∧ j < pageSize) ↔
          (start ≤ j ∧ j < start + k ∧ j < pageSize) := by omega
      simp [hj, hiff]

theorem byte_splice (p : Page) (start : Nat) (data : Vector UInt8 n) (j : Nat) :
    (p.splice start data).byte j =
      if start ≤ j ∧ j < start + n ∧ j < pageSize then data[j - start]?.getD 0
      else p.byte j := by
  rw [← byte_fold_set p start data n j (Nat.le_refl n)]
  rfl

-- What was written inside the page is read back.
theorem slice_splice (p : Page) (start : Nat) (data : Vector UInt8 n) (h : start + n ≤ pageSize) :
    (p.splice start data).slice start n = data := by
  ext i hi
  have hb : start + i < pageSize := by omega
  simp [byte_splice, hi, hb]

-- Bytes outside the written range are kept.
theorem byte_splice_of_disjoint (p : Page) (start : Nat) (data : Vector UInt8 n)
    (h : j < start ∨ start + n ≤ j) : (p.splice start data).byte j = p.byte j := by
  rw [byte_splice, if_neg (by omega)]

end Page

end PagedIndex
