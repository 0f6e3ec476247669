import PagedIndex.Error
import PagedIndex.Field.RecordId

namespace PagedIndex.Workload

-- A step of a counter-based generator: the next seed, and a number mixed from it.
def nextRandom (seed : UInt64) : UInt64 × UInt64 :=
  let next := seed + 0x9E3779B97F4A7C15
  let a := (next ^^^ (next >>> 30)) * 0xBF58476D1CE4E5B9
  let b := (a ^^^ (a >>> 27)) * 0x94D049BB133111EB
  (next, b ^^^ (b >>> 31))

-- Swap every position with a random one at or before it, from the back.
def shuffleBelow : Nat → UInt64 → Array Int64 → Array Int64
  | 0, _, keys => keys
  | n + 1, seed, keys =>
    let (next, random) := nextRandom seed
    shuffleBelow n next (keys.swapIfInBounds n (random.toNat % (n + 1)))

-- An array of words has fewer than `1 <<< 63` bytes.
def keyLimit : Nat := 1 <<< 60

-- Keys seven apart, shuffled. A count that is no signed number gives no keys.
def generateKeys (count : Nat) (seed : UInt64) : Checked (Array Int64) := do
  let (next, random) := nextRandom seed
  let base : Int := (random.toNat % 2000000 : Nat) - 1000000
  let n := if count < 1 <<< 63 then count else 0
  Checked.require (n < keyLimit) .overflow
  return shuffleBelow n next
    (Array.ofFn fun i : Fin n => Int64.ofInt (base + 7 * (i.val : Int)))

-- Records are numbered with 64 slots to a page.
def recordAt (position : Nat) : RecordId :=
  ⟨⟨UInt32.ofNat (position / 64)⟩, UInt16.ofNat (position % 64)⟩

end PagedIndex.Workload
