import CodeGraph.Text.Digit

/-!
# XXH3

The 64-bit hash XXH3 with seed zero. Inputs up to 16 bytes, up to 128 bytes, up to 240 bytes and
longer ones are hashed in different ways; `Digest.xxh3` picks the way by the length.

## Main Definitions

* `Digest.xxh3`: the hash of a byte array.
* `Digest.short`: the low 32 bits of the hash of a text, as eight hexadecimal digits.

## Design Notes

All words are read little-endian, and reading past the end gives zero bytes, so every read is
total; no branch reads past the end.
-/

namespace CodeGraph.Digest

/-- The secret key of the hash. -/
def secret : ByteArray := ⟨#[
  0xb8, 0xfe, 0x6c, 0x39, 0x23, 0xa4, 0x4b, 0xbe, 0x7c, 0x01, 0x81, 0x2c, 0xf7, 0x21, 0xad, 0x1c,
  0xde, 0xd4, 0x6d, 0xe9, 0x83, 0x90, 0x97, 0xdb, 0x72, 0x40, 0xa4, 0xa4, 0xb7, 0xb3, 0x67, 0x1f,
  0xcb, 0x79, 0xe6, 0x4e, 0xcc, 0xc0, 0xe5, 0x78, 0x82, 0x5a, 0xd0, 0x7d, 0xcc, 0xff, 0x72, 0x21,
  0xb8, 0x08, 0x46, 0x74, 0xf7, 0x43, 0x24, 0x8e, 0xe0, 0x35, 0x90, 0xe6, 0x81, 0x3a, 0x26, 0x4c,
  0x3c, 0x28, 0x52, 0xbb, 0x91, 0xc3, 0x00, 0xcb, 0x88, 0xd0, 0x65, 0x8b, 0x1b, 0x53, 0x2e, 0xa3,
  0x71, 0x64, 0x48, 0x97, 0xa2, 0x0d, 0xf9, 0x4e, 0x38, 0x19, 0xef, 0x46, 0xa9, 0xde, 0xac, 0xd8,
  0xa8, 0xfa, 0x76, 0x3f, 0xe3, 0x9c, 0x34, 0x3f, 0xf9, 0xdc, 0xbb, 0xc7, 0xc7, 0x0b, 0x4f, 0x1d,
  0x8a, 0x51, 0xe0, 0x4b, 0xcd, 0xb4, 0x59, 0x31, 0xc8, 0x9f, 0x7e, 0xc9, 0xd9, 0x78, 0x73, 0x64,
  0xea, 0xc5, 0xac, 0x83, 0x34, 0xd3, 0xeb, 0xc3, 0xc5, 0x81, 0xa0, 0xff, 0xfa, 0x13, 0x63, 0xeb,
  0x17, 0x0d, 0xdd, 0x51, 0xb7, 0xf0, 0xda, 0x49, 0xd3, 0x16, 0x55, 0x26, 0x29, 0xd4, 0x68, 0x9e,
  0x2b, 0x16, 0xbe, 0x58, 0x7d, 0x47, 0xa1, 0xfc, 0x8f, 0xf8, 0xb8, 0xd1, 0x7a, 0xd0, 0x31, 0xce,
  0x45, 0xcb, 0x3a, 0x8f, 0x95, 0x16, 0x04, 0x28, 0xaf, 0xd7, 0xfb, 0xca, 0xbb, 0x4b, 0x40, 0x7e]⟩

/-! ### Words -/

/-- The byte at a position, zero past the end. -/
def byteAt (bytes : ByteArray) (i : Nat) : UInt8 :=
  if h : i < bytes.size then bytes[i] else 0

/-- The little-endian word of `width` bytes at a position. -/
def wordAt (bytes : ByteArray) (width i : Nat) : UInt64 :=
  (List.range width).foldr (fun k word => (word <<< 8) ||| (byteAt bytes (i + k)).toUInt64) 0

/-- The 64-bit word at a position. -/
def word64 (bytes : ByteArray) (i : Nat) : UInt64 := wordAt bytes 8 i

/-- The 32-bit word at a position. -/
def word32 (bytes : ByteArray) (i : Nat) : UInt64 := wordAt bytes 4 i

/-- The word of the secret at a position. -/
def key (i : Nat) : UInt64 := word64 secret i

/-- Rotation to the left. -/
def rotate (word : UInt64) (amount : UInt64) : UInt64 :=
  (word <<< amount) ||| (word >>> (64 - amount))

/-- The eight bytes of a word in reverse order. -/
def swapBytes (word : UInt64) : UInt64 :=
  (List.range 8).foldl
    (fun out k => (out <<< 8) ||| ((word >>> (8 * UInt64.ofNat k)) &&& 0xff)) 0

/-- Both halves of the full product, combined by exclusive or. -/
def foldProduct (a b : UInt64) : UInt64 :=
  let product := a.toNat * b.toNat
  UInt64.ofNat product ^^^ UInt64.ofNat (product / UInt64.size)

/-! ### Constants and mixing steps -/

/-- The first prime of 32 bits. -/
def prime32a : UInt64 := 0x9E3779B1
/-- The second prime of 32 bits. -/
def prime32b : UInt64 := 0x85EBCA77
/-- The third prime of 32 bits. -/
def prime32c : UInt64 := 0xC2B2AE3D

/-- The first prime of 64 bits. -/
def prime64a : UInt64 := 0x9E3779B185EBCA87
/-- The second prime of 64 bits. -/
def prime64b : UInt64 := 0xC2B2AE3D27D4EB4F
/-- The third prime of 64 bits. -/
def prime64c : UInt64 := 0x165667B19E3779F9
/-- The fourth prime of 64 bits. -/
def prime64d : UInt64 := 0x85EBCA77C2B2AE63
/-- The fifth prime of 64 bits. -/
def prime64e : UInt64 := 0x27D4EB2F165667C5

/-- The multiplier of the final mixing of inputs above eight bytes. -/
def primeMixA : UInt64 := 0x165667919E3779F9

/-- The multiplier of the final mixing of inputs of four to eight bytes. -/
def primeMixB : UInt64 := 0x9FB21C651E98DF25

/-- The final mixing of inputs above eight bytes. -/
def avalanche (h : UInt64) : UInt64 :=
  let h := (h ^^^ (h >>> 37)) * primeMixA
  h ^^^ (h >>> 32)

/-- The final mixing of inputs up to three bytes. -/
def avalancheTiny (h : UInt64) : UInt64 :=
  let h := (h ^^^ (h >>> 33)) * prime64b
  let h := (h ^^^ (h >>> 29)) * prime64c
  h ^^^ (h >>> 32)

/-- Mixes sixteen bytes of the input with sixteen bytes of the secret. -/
def mix16 (input : ByteArray) (i k : Nat) : UInt64 :=
  foldProduct (word64 input i ^^^ key k) (word64 input (i + 8) ^^^ key (k + 8))

/-! ### The ways to hash, by length -/

/-- Inputs of one to three bytes. -/
def hash1to3 (input : ByteArray) : UInt64 :=
  let n := input.size
  let combined :=
    ((byteAt input 0).toUInt64 <<< 16) ||| ((byteAt input (n / 2)).toUInt64 <<< 24)
      ||| (byteAt input (n - 1)).toUInt64 ||| (UInt64.ofNat n <<< 8)
  avalancheTiny (combined ^^^ (word32 secret 0 ^^^ word32 secret 4))

/-- Inputs of four to eight bytes. -/
def hash4to8 (input : ByteArray) : UInt64 :=
  let n := input.size
  let h := (word32 input (n - 4) + (word32 input 0 <<< 32)) ^^^ (key 8 ^^^ key 16)
  let h := (h ^^^ rotate h 49 ^^^ rotate h 24) * primeMixB
  let h := (h ^^^ ((h >>> 35) + UInt64.ofNat n)) * primeMixB
  h ^^^ (h >>> 28)

/-- Inputs of nine to sixteen bytes. -/
def hash9to16 (input : ByteArray) : UInt64 :=
  let n := input.size
  let low := word64 input 0 ^^^ (key 24 ^^^ key 32)
  let high := word64 input (n - 8) ^^^ (key 40 ^^^ key 48)
  avalanche (UInt64.ofNat n + swapBytes low + high + foldProduct low high)

/-- Inputs of 17 to 128 bytes: pairs of sixteen bytes from both ends, the outermost last. -/
def hash17to128 (input : ByteArray) : UInt64 :=
  let n := input.size
  let pairs := (n - 1) / 32
  let pair (acc : UInt64) (i : Nat) : UInt64 :=
    acc + mix16 input (16 * i) (32 * i) + mix16 input (n - 16 * (i + 1)) (32 * i + 16)
  avalanche ((List.range (pairs + 1)).reverse.foldl pair (UInt64.ofNat n * prime64a))

/-- Inputs of 129 to 240 bytes. -/
def hash129to240 (input : ByteArray) : UInt64 :=
  let n := input.size
  let first := (List.range 8).foldl (fun acc i => acc + mix16 input (16 * i) (16 * i))
    (UInt64.ofNat n * prime64a)
  let rest := (List.range (n / 16 - 8)).foldl
    (fun acc i => acc + mix16 input (16 * (i + 8)) (16 * i + 3)) (avalanche first)
  avalanche (rest + mix16 input (n - 16) (136 - 17))

/-! ### Long inputs -/

/-- The starting lanes of a long input. -/
def startLanes : List UInt64 :=
  [prime32c, prime64a, prime64b, prime64c, prime64d, prime32b, prime64e, prime32a]

/-- The lane at a position, zero past the end. -/
def lane (lanes : List UInt64) (i : Nat) : UInt64 := lanes.getD i 0

/-- Adds the 64 bytes of the input at `i` to the lanes, with the secret at `k`. Each lane takes the
plain word of its neighbour and the product of the halves of its own keyed word. -/
def addStripe (input : ByteArray) (i k : Nat) (lanes : List UInt64) : List UInt64 :=
  (List.range 8).map fun j =>
    let neighbour := if j % 2 = 0 then j + 1 else j - 1
    let keyed := word64 input (i + 8 * j) ^^^ key (k + 8 * j)
    lane lanes j + word64 input (i + 8 * neighbour) + (keyed &&& (0xffffffff : UInt64)) * (keyed >>> 32)

/-- Mixes the lanes after a block of sixteen stripes. -/
def scramble (lanes : List UInt64) : List UInt64 :=
  (List.range 8).map fun j =>
    let h := lane lanes j
    (h ^^^ (h >>> 47) ^^^ key (128 + 8 * j)) * prime32a

/-- Adds `count` stripes from `start` on, the secret moving by eight bytes with each. -/
def addStripes (input : ByteArray) (start count : Nat) (lanes : List UInt64) : List UInt64 :=
  (List.range count).foldl (fun lanes s => addStripe input (start + 64 * s) (8 * s) lanes) lanes

/-- Inputs above 240 bytes: whole blocks of 1024 bytes, the stripes left over, the last 64 bytes. -/
def hashLong (input : ByteArray) : UInt64 :=
  let n := input.size
  let blocks := (n - 1) / 1024
  let lanes := (List.range blocks).foldl
    (fun lanes b => scramble (addStripes input (1024 * b) 16 lanes)) startLanes
  let lanes := addStripes input (1024 * blocks) ((n - 1 - 1024 * blocks) / 64) lanes
  let lanes := addStripe input (n - 64) (192 - 64 - 7) lanes
  avalanche ((List.range 4).foldl
    (fun acc j => acc + foldProduct (lane lanes (2 * j) ^^^ key (11 + 16 * j))
      (lane lanes (2 * j + 1) ^^^ key (11 + 16 * j + 8)))
    (UInt64.ofNat n * prime64a))

/-- The XXH3 hash of a byte array, with seed zero. -/
def xxh3 (input : ByteArray) : UInt64 :=
  if input.size = 0 then avalancheTiny (key 56 ^^^ key 64)
  else if input.size ≤ 3 then hash1to3 input
  else if input.size ≤ 8 then hash4to8 input
  else if input.size ≤ 16 then hash9to16 input
  else if input.size ≤ 128 then hash17to128 input
  else if input.size ≤ 240 then hash129to240 input
  else hashLong input

/-! ### Short digests -/

/-- Digits in a short digest. -/
def shortWidth : Nat := 8

/-- The low 32 bits of the hash of a text, as eight lowercase hexadecimal digits. -/
def short (text : String) : String :=
  String.ofList (Text.hexDigits shortWidth (xxh3 text.toUTF8).toNat)

end CodeGraph.Digest
