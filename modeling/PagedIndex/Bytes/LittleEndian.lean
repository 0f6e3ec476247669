namespace PagedIndex.LittleEndian

-- The low `n` base-256 digits of a number.
def digits : Nat → Nat → List UInt8
  | 0, _ => []
  | n + 1, x => UInt8.ofNat (x % 256) :: digits n (x / 256)

-- The number with the given digits.
def ofDigits : List UInt8 → Nat
  | [] => 0
  | b :: bs => b.toNat + 256 * ofDigits bs

@[simp] theorem length_digits (n x : Nat) : (digits n x).length = n := by
  induction n generalizing x with
  | zero => rfl
  | succ n ih => simp [digits, ih]

theorem digits_ofDigits (bs : List UInt8) : digits bs.length (ofDigits bs) = bs := by
  induction bs with
  | nil => rfl
  | cons b bs ih =>
    have hb := b.toNat_lt
    have hmod : (b.toNat + 256 * ofDigits bs) % 256 = b.toNat := by omega
    have hdiv : (b.toNat + 256 * ofDigits bs) / 256 = ofDigits bs := by omega
    simp [digits, ofDigits, hmod, hdiv, ih]

-- A number as exactly `n` bytes; higher digits are dropped.
def encode (n x : Nat) : Vector UInt8 n :=
  ⟨(digits n x).toArray, by simp⟩

-- The number held by `n` bytes.
def decode (bytes : Vector UInt8 n) : Nat :=
  bytes.foldr (fun b x => b.toNat + 256 * x) 0

theorem ofDigits_eq_foldr (bs : List UInt8) :
    ofDigits bs = bs.foldr (fun b x => b.toNat + 256 * x) 0 := by
  induction bs with
  | nil => rfl
  | cons b bs ih => simp [ofDigits, ih]

theorem decode_eq_ofDigits (bytes : Vector UInt8 n) : decode bytes = ofDigits bytes.toList := by
  simp [decode, ofDigits_eq_foldr]

theorem encode_decode (bytes : Vector UInt8 n) : encode n (decode bytes) = bytes := by
  have h := digits_ofDigits bytes.toList
  simp only [Vector.length_toList] at h
  apply Vector.toArray_inj.mp
  simp only [encode, decode_eq_ofDigits, h]
  exact Array.toArray_toList

end PagedIndex.LittleEndian
