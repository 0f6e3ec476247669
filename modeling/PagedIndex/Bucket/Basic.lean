import PagedIndex.Bucket.Layout
import PagedIndex.Error
import PagedIndex.Field.Codec
import PagedIndex.Page.Bitmap

namespace PagedIndex

-- A bucket is a page seen as a log of pairs. A pair is stored in the first slot that was never
-- occupied. Removing it clears the readable bit and leaves the slot occupied. Of the slots that fit
-- the page the first `capacity` are used.
structure Bucket (K V : Type) [FixedWidth K] [FixedWidth V] where
  page : Page
  capacity : Nat
  capacity_pos : 0 < capacity
  capacity_le : capacity ≤ BucketLayout.maxSlots (FixedWidth.width K + FixedWidth.width V)
  -- the bytes that each of the two bitmaps takes
  bitmapSize : Nat
  bitmapSize_eq : bitmapSize =
    BucketLayout.bitmapBytes (BucketLayout.maxSlots (FixedWidth.width K + FixedWidth.width V))

namespace Bucket

variable {K V : Type} [FixedWidth K] [FixedWidth V]

def slotWidth (K V : Type) [FixedWidth K] [FixedWidth V] : Nat :=
  FixedWidth.width K + FixedWidth.width V

def maxSlots (K V : Type) [FixedWidth K] [FixedWidth V] : Nat :=
  BucketLayout.maxSlots (slotWidth K V)

-- See a page as a bucket. A capacity that the page has no room for aborts.
def view (page : Page) (capacity : Nat) : Checked (Bucket K V) :=
  if h : 0 < capacity ∧ capacity ≤ maxSlots K V then .ok ⟨page, capacity, h.1, h.2, _, rfl⟩
  else Checked.abort (.capacity capacity (maxSlots K V))

def keyStart (b : Bucket K V) (i : Nat) : Nat := 2 * b.bitmapSize + i * slotWidth K V

def valueStart (b : Bucket K V) (i : Nat) : Nat := b.keyStart i + FixedWidth.width K

def occupied (b : Bucket K V) (i : Nat) : Bool := b.page.bit 0 i

def readable (b : Bucket K V) (i : Nat) : Bool := b.page.bit b.bitmapSize i

def keyAt (b : Bucket K V) (i : Nat) : K := FixedWidth.read fun j => b.page.byte (b.keyStart i + j)

def valueAt (b : Bucket K V) (i : Nat) : V :=
  FixedWidth.read fun j => b.page.byte (b.valueStart i + j)

theorem keyAt_eq_decode (b : Bucket K V) (i : Nat) :
    b.keyAt i = FixedWidth.decode (b.page.slice (b.keyStart i) _) :=
  FixedWidth.read_eq_decode _

theorem valueAt_eq_decode (b : Bucket K V) (i : Nat) :
    b.valueAt i = FixedWidth.decode (b.page.slice (b.valueStart i) _) :=
  FixedWidth.read_eq_decode _

-- The readable slots, in order.
def liveSlots (b : Bucket K V) : List Nat := (List.range b.capacity).filter b.readable

-- The live pairs in slot order.
def entries (b : Bucket K V) : List (K × V) := b.liveSlots.map fun i => (b.keyAt i, b.valueAt i)

def count (b : Bucket K V) : Nat := (List.range b.capacity).countP b.readable

def isFull (b : Bucket K V) : Bool := (List.range b.capacity).all b.occupied

-- No slot of the page is occupied.
def isEmpty (b : Bucket K V) : Bool :=
  (List.range b.bitmapSize).all fun i => b.page.byte i == 0

-- Occupied slots that this capacity does not use.
def overflow (b : Bucket K V) : Nat :=
  (List.range' b.capacity (maxSlots K V - b.capacity)).countP b.occupied

def holdsKey (compare : K → K → Ordering) (key : K) (b : Bucket K V) (i : Nat) : Bool :=
  b.readable i && (compare (b.keyAt i) key).isEq

-- The values stored under a key, in slot order.
def get (compare : K → K → Ordering) (key : K) (b : Bucket K V) : List V :=
  ((List.range b.capacity).filter (b.holdsKey compare key)).map b.valueAt

def hasKey (compare : K → K → Ordering) (key : K) (b : Bucket K V) : Bool :=
  (List.range b.capacity).any (b.holdsKey compare key)

-- The first slot that holds the pair. The values that the program compares are equal only if all
-- their fields are, so that `=` stands for its comparison.
def find? [DecidableEq V] (compare : K → K → Ordering) (key : K) (value : V) (b : Bucket K V) :
    Option Nat :=
  (List.range b.capacity).find? fun i => b.holdsKey compare key i && b.valueAt i = value

def contains [DecidableEq V] (compare : K → K → Ordering) (key : K) (value : V)
    (b : Bucket K V) : Bool :=
  (b.find? compare key value).isSome

end Bucket

end PagedIndex
