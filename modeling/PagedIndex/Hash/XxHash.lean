namespace PagedIndex.XxHash

def prime1 : UInt64 := 0x9E3779B185EBCA87
def prime2 : UInt64 := 0xC2B2AE3D27D4EB4F
def prime3 : UInt64 := 0x165667B19E3779F9
def prime4 : UInt64 := 0x85EBCA77C2B2AE63
def prime5 : UInt64 := 0x27D4EB2F165667C5

def rotateLeft (x : UInt64) (n : UInt64) : UInt64 := (x <<< n) ||| (x >>> (64 - n))

def byteAt (bytes : Array UInt8) (i : Nat) : UInt64 := (bytes[i]?.getD 0).toUInt64

def word32 (bytes : Array UInt8) (i : Nat) : UInt64 :=
  byteAt bytes i ||| byteAt bytes (i + 1) <<< 8 ||| byteAt bytes (i + 2) <<< 16 |||
    byteAt bytes (i + 3) <<< 24

def word64 (bytes : Array UInt8) (i : Nat) : UInt64 :=
  word32 bytes i ||| word32 bytes (i + 4) <<< 32

def round (acc word : UInt64) : UInt64 := rotateLeft (acc + word * prime2) 31 * prime1

structure Lanes where
  a : UInt64
  b : UInt64
  c : UInt64
  d : UInt64

namespace Lanes

def start (seed : UInt64) : Lanes := ⟨seed + prime1 + prime2, seed + prime2, seed, seed - prime1⟩

def absorb (bytes : Array UInt8) (lanes : Lanes) (i : Nat) : Lanes :=
  ⟨round lanes.a (word64 bytes i), round lanes.b (word64 bytes (i + 8)),
    round lanes.c (word64 bytes (i + 16)), round lanes.d (word64 bytes (i + 24))⟩

def mergeLane (hash lane : UInt64) : UInt64 := (hash ^^^ round 0 lane) * prime1 + prime4

def merge (lanes : Lanes) : UInt64 :=
  let mixed := rotateLeft lanes.a 1 + rotateLeft lanes.b 7 + rotateLeft lanes.c 12 +
    rotateLeft lanes.d 18
  mergeLane (mergeLane (mergeLane (mergeLane mixed lanes.a) lanes.b) lanes.c) lanes.d

end Lanes

def mixWord64 (hash word : UInt64) : UInt64 :=
  rotateLeft (hash ^^^ round 0 word) 27 * prime1 + prime4

def mixWord32 (hash word : UInt64) : UInt64 :=
  rotateLeft (hash ^^^ (word * prime1)) 23 * prime2 + prime3

def mixByte (hash byte : UInt64) : UInt64 :=
  rotateLeft (hash ^^^ (byte * prime5)) 11 * prime1

-- Spread every input bit over the result.
def avalanche (hash : UInt64) : UInt64 :=
  let h1 := (hash ^^^ (hash >>> 33)) * prime2
  let h2 := (h1 ^^^ (h1 >>> 29)) * prime3
  h2 ^^^ (h2 >>> 32)

def hash (seed : UInt64) (bytes : Array UInt8) : UInt64 :=
  let n := bytes.size
  let stripes := n / 32
  let words := n % 32 / 8
  let wordsStart := 32 * stripes
  let restStart := wordsStart + 8 * words
  let singlesStart := restStart + 4 * (n % 8 / 4)
  let striped :=
    if stripes = 0 then seed + prime5
    else (stripes.fold (fun k _ lanes => lanes.absorb bytes (32 * k)) (Lanes.start seed)).merge
  let counted := striped + UInt64.ofNat n
  let worded := words.fold (fun k _ h => mixWord64 h (word64 bytes (wordsStart + 8 * k))) counted
  let halved := if n % 8 < 4 then worded else mixWord32 worded (word32 bytes restStart)
  avalanche ((n % 4).fold (fun k _ h => mixByte h (byteAt bytes (singlesStart + k))) halved)

end PagedIndex.XxHash
