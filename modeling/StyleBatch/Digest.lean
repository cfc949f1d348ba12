import StyleBatch.Text.Utf8

/-!
# Digests

The XXH3 hash with 64 bits, no seed and the standard secret, and its text form
`xxh3:` with sixteen hexadecimal digits. Short inputs are mixed directly; inputs of
more than 240 bytes go through eight accumulators, a stripe of 64 bytes at a time.
-/

namespace StyleBatch.Digest

def secret : Array UInt8 := #[
  0xb8, 0xfe, 0x6c, 0x39, 0x23, 0xa4, 0x4b, 0xbe, 0x7c, 0x01, 0x81, 0x2c, 0xf7, 0x21, 0xad, 0x1c,
  0xde, 0xd4, 0x6d, 0xe9, 0x83, 0x90, 0x97, 0xdb, 0x72, 0x40, 0xa4, 0xa4, 0xb7, 0xb3, 0x67, 0x1f,
  0xcb, 0x79, 0xe6, 0x4e, 0xcc, 0xc0, 0xe5, 0x78, 0x82, 0x5a, 0xd0, 0x7d, 0xcc, 0xff, 0x72, 0x21,
  0xb8, 0x08, 0x46, 0x74, 0xf7, 0x43, 0x24, 0x8e, 0xe0, 0x35, 0x90, 0xe6, 0x81, 0x3a, 0x26, 0x4c,
  0x3c, 0x28, 0x52, 0xbb, 0x91, 0xc3, 0x00, 0xcb, 0x88, 0xd0, 0x65, 0x8b, 0x1b, 0x53, 0x2e, 0xa3,
  0x71, 0x64, 0x48, 0x97, 0xa2, 0x0d, 0xf9, 0x4e, 0x38, 0x19, 0xef, 0x46, 0xa9, 0xde, 0xac, 0xd8,
  0xa8, 0xfa, 0x76, 0x3f, 0xe3, 0x9c, 0x34, 0x3f, 0xf9, 0xdc, 0xbb, 0xc7, 0xc7, 0x0b, 0x4f, 0x1d,
  0x8a, 0x51, 0xe0, 0x4b, 0xcd, 0xb4, 0x59, 0x31, 0xc8, 0x9f, 0x7e, 0xc9, 0xd9, 0x78, 0x73, 0x64,
  0xea, 0xc5, 0xac, 0x83, 0x34, 0xd3, 0xeb, 0xc3, 0xc5, 0x81, 0xa0, 0xff, 0xfa, 0x13, 0x63, 0xeb,
  0x17, 0x0d, 0xdd, 0x51, 0xb7, 0xf0, 0xda, 0x49, 0xd3, 0x16, 0x55, 0x26, 0x29, 0xd4, 0x68, 0x9e,
  0x2b, 0x16, 0xbe, 0x58, 0x7d, 0x47, 0xa1, 0xfc, 0x8f, 0xf8, 0xb8, 0xd1, 0x7a, 0xd0, 0x31, 0xce,
  0x45, 0xcb, 0x3a, 0x8f, 0x95, 0x16, 0x04, 0x28, 0xaf, 0xd7, 0xfb, 0xca, 0xbb, 0x4b, 0x40, 0x7e]

def prime32₁ : UInt64 := 0x9E3779B1
def prime32₂ : UInt64 := 0x85EBCA77
def prime32₃ : UInt64 := 0xC2B2AE3D
def prime64₁ : UInt64 := 0x9E3779B185EBCA87
def prime64₂ : UInt64 := 0xC2B2AE3D27D4EB4F
def prime64₃ : UInt64 := 0x165667B19E3779F9
def prime64₄ : UInt64 := 0x85EBCA77C2B2AE63
def prime64₅ : UInt64 := 0x27D4EB2F165667C5
def mixPrime₁ : UInt64 := 0x165667919E3779F9
def mixPrime₂ : UInt64 := 0x9FB21C651E98DF25

/-- The number that `count` bytes from `i` on write, lowest byte first. -/
def little (bytes : Array UInt8) (i : Nat) : Nat → UInt64
  | 0 => 0
  | count + 1 => (bytes[i]?.getD 0).toUInt64 + (little bytes (i + 1) count) * 256

def word32 (bytes : Array UInt8) (i : Nat) : UInt64 :=
  little bytes i 4

def word64 (bytes : Array UInt8) (i : Nat) : UInt64 :=
  little bytes i 8

/-- The two halves of the full product, put together by exclusive or. -/
def foldProduct (a b : UInt64) : UInt64 :=
  let product := a.toNat * b.toNat
  UInt64.ofNat product ^^^ UInt64.ofNat (product >>> 64)

def shiftMix (h : UInt64) (n : UInt64) : UInt64 :=
  h ^^^ (h >>> n)

def rotateLeft (h : UInt64) (n : UInt64) : UInt64 :=
  (h <<< n) ||| (h >>> (64 - n))

/-- The bytes of a word in reverse order. -/
def reverseBytes (h : UInt64) : UInt64 :=
  (List.range 8).foldl (fun r i => r * 256 + ((h >>> UInt64.ofNat (8 * i)) &&& 0xFF)) 0

/-- Last mixing of the shortest inputs. -/
def finishShort (h : UInt64) : UInt64 :=
  shiftMix (shiftMix (shiftMix h 33 * prime64₂) 29 * prime64₃) 32

/-- Last mixing of all longer inputs. -/
def finish (h : UInt64) : UInt64 :=
  shiftMix (shiftMix h 37 * mixPrime₁) 32

/-- Sixteen bytes of input mixed with sixteen of the secret. -/
def mix16 (bytes : Array UInt8) (i s : Nat) : UInt64 :=
  foldProduct (word64 bytes i ^^^ word64 secret s) (word64 bytes (i + 8) ^^^ word64 secret (s + 8))

def hashUpTo3 (bytes : Array UInt8) : UInt64 :=
  let n := bytes.size
  let byte := fun i => (bytes[i]?.getD 0).toUInt64
  let combined := (byte 0 <<< 16) ||| (byte (n / 2) <<< 24) ||| byte (n - 1) |||
    (UInt64.ofNat n <<< 8)
  finishShort (combined ^^^ (word32 secret 0 ^^^ word32 secret 4))

def hashUpTo8 (bytes : Array UInt8) : UInt64 :=
  let n := bytes.size
  let input := word32 bytes (n - 4) + (word32 bytes 0 <<< 32)
  let h := input ^^^ (word64 secret 8 ^^^ word64 secret 16)
  let h := h ^^^ rotateLeft h 49 ^^^ rotateLeft h 24
  let h := h * mixPrime₂
  let h := h ^^^ ((h >>> 35) + UInt64.ofNat n)
  shiftMix (h * mixPrime₂) 28

def hashUpTo16 (bytes : Array UInt8) : UInt64 :=
  let n := bytes.size
  let low := word64 bytes 0 ^^^ (word64 secret 24 ^^^ word64 secret 32)
  let high := word64 bytes (n - 8) ^^^ (word64 secret 40 ^^^ word64 secret 48)
  finish (UInt64.ofNat n + reverseBytes low + high + foldProduct low high)

/-- Pairs of sixteen bytes, from both ends towards the middle. -/
def hashUpTo128 (bytes : Array UInt8) : UInt64 :=
  let n := bytes.size
  let pairs := (n + 31) / 32
  finish ((List.range pairs).foldl
    (fun acc i =>
      acc + mix16 bytes (16 * i) (32 * i) + mix16 bytes (n - 16 * (i + 1)) (32 * i + 16))
    (UInt64.ofNat n * prime64₁))

def hashUpTo240 (bytes : Array UInt8) : UInt64 :=
  let n := bytes.size
  let start := (List.range 8).foldl (fun acc i => acc + mix16 bytes (16 * i) (16 * i))
    (UInt64.ofNat n * prime64₁)
  let middle := (List.range (n / 16 - 8)).foldl
    (fun acc i => acc + mix16 bytes (16 * (i + 8)) (16 * i + 3)) (finish start)
  finish (middle + mix16 bytes (n - 16) 119)

/-- The eight accumulators after one more stripe of 64 bytes. -/
def addStripe (bytes : Array UInt8) (i s : Nat) (lanes : Array UInt64) : Array UInt64 :=
  lanes.mapIdx fun k lane =>
    let other := if k % 2 = 0 then k + 1 else k - 1
    let key := word64 bytes (i + 8 * k) ^^^ word64 secret (s + 8 * k)
    lane + word64 bytes (i + 8 * other) + (key &&& (0xFFFFFFFF : UInt64)) * (key >>> 32)

/-- What is done to the accumulators at the end of a block of sixteen stripes. -/
def scramble (lanes : Array UInt64) : Array UInt64 :=
  lanes.mapIdx fun k lane => (shiftMix lane 47 ^^^ word64 secret (128 + 8 * k)) * prime32₁

/-- The stripe with the given number, all but the last. -/
def stripe (bytes : Array UInt8) (lanes : Array UInt64) (number : Nat) : Array UInt64 :=
  let added := addStripe bytes (64 * number) (8 * (number % 16)) lanes
  if number % 16 = 15 then scramble added else added

def hashLong (bytes : Array UInt8) : UInt64 :=
  let n := bytes.size
  let start := #[prime32₃, prime64₁, prime64₂, prime64₃, prime64₄, prime32₂, prime64₅, prime32₁]
  let lanes := (List.range ((n - 1) / 64)).foldl (stripe bytes) start
  let lanes := addStripe bytes (n - 64) 121 lanes
  let lane := fun i => lanes[i]?.getD 0
  finish ((List.range 4).foldl
    (fun acc i => acc + foldProduct (lane (2 * i) ^^^ word64 secret (11 + 16 * i))
      (lane (2 * i + 1) ^^^ word64 secret (19 + 16 * i)))
    (UInt64.ofNat n * prime64₁))

/-- The hash of a byte sequence. -/
def hash (bytes : Array UInt8) : UInt64 :=
  let n := bytes.size
  if n = 0 then finishShort (word64 secret 56 ^^^ word64 secret 64)
  else if n ≤ 3 then hashUpTo3 bytes
  else if n ≤ 8 then hashUpTo8 bytes
  else if n ≤ 16 then hashUpTo16 bytes
  else if n ≤ 128 then hashUpTo128 bytes
  else if n ≤ 240 then hashUpTo240 bytes
  else hashLong bytes

/-- The digest of a text: `xxh3:` and sixteen hexadecimal digits. -/
def ofText (t : Text) : Text :=
  let digits := Nat.toDigits 16 (hash (Utf8.encode t).toArray).toNat
  "xxh3:" ++ List.replicate (16 - digits.length) '0' ++ digits

end StyleBatch.Digest
