import RuleProver.Text.Quoted

/-!
# Digests

The 256-bit digest of a sequence of bytes. The message is filled up to blocks of sixteen 32-bit
words, each block is stretched to sixty-four words, and every word is mixed into a state of eight.
-/

namespace RuleProver.Digest

/-- The state that blocks are mixed into. -/
structure State where
  a : UInt32
  b : UInt32
  c : UInt32
  d : UInt32
  e : UInt32
  f : UInt32
  g : UInt32
  h : UInt32
deriving DecidableEq, Inhabited

/-- The state before the first block: fractional parts of the square roots of the first eight
primes. -/
def initial : State :=
  ⟨0x6a09e667, 0xbb67ae85, 0x3c6ef372, 0xa54ff53a, 0x510e527f, 0x9b05688c, 0x1f83d9ab, 0x5be0cd19⟩

/-- The word added in each step: fractional parts of the cube roots of the first sixty-four
primes. -/
def stepWords : List UInt32 :=
  [0x428a2f98, 0x71374491, 0xb5c0fbcf, 0xe9b5dba5, 0x3956c25b, 0x59f111f1, 0x923f82a4, 0xab1c5ed5,
    0xd807aa98, 0x12835b01, 0x243185be, 0x550c7dc3, 0x72be5d74, 0x80deb1fe, 0x9bdc06a7, 0xc19bf174,
    0xe49b69c1, 0xefbe4786, 0x0fc19dc6, 0x240ca1cc, 0x2de92c6f, 0x4a7484aa, 0x5cb0a9dc, 0x76f988da,
    0x983e5152, 0xa831c66d, 0xb00327c8, 0xbf597fc7, 0xc6e00bf3, 0xd5a79147, 0x06ca6351, 0x14292967,
    0x27b70a85, 0x2e1b2138, 0x4d2c6dfc, 0x53380d13, 0x650a7354, 0x766a0abb, 0x81c2c92e, 0x92722c85,
    0xa2bfe8a1, 0xa81a664b, 0xc24b8b70, 0xc76c51a3, 0xd192e819, 0xd6990624, 0xf40e3585, 0x106aa070,
    0x19a4c116, 0x1e376c08, 0x2748774c, 0x34b0bcb5, 0x391c0cb3, 0x4ed8aa4a, 0x5b9cca4f, 0x682e6ff3,
    0x748f82ee, 0x78a5636f, 0x84c87814, 0x8cc70208, 0x90befffa, 0xa4506ceb, 0xbef9a3f7, 0xc67178f2]

/-- A word turned to the right. -/
def rotate (x n : UInt32) : UInt32 := (x >>> n) ||| (x <<< (32 - n))

/-- Bytes in big-endian words; fewer than four bytes at the end are dropped. -/
def words : List UInt8 → List UInt32
  | p :: q :: r :: s :: bs =>
    ((p.toUInt32 <<< 24) ||| (q.toUInt32 <<< 16) ||| (r.toUInt32 <<< 8) ||| s.toUInt32) :: words bs
  | _ => []

/-- The next word of a stretched block, from the sixteen before it. -/
def nextWord (w : List UInt32) : UInt32 :=
  let x := w.getD 1 0
  let y := w.getD 14 0
  w.getD 0 0 + (rotate x 7 ^^^ rotate x 18 ^^^ (x >>> 3)) + w.getD 9 0
    + (rotate y 17 ^^^ rotate y 19 ^^^ (y >>> 10))

/-- The first `n` words of the stretched form of sixteen words. -/
def stretch : Nat → List UInt32 → List UInt32
  | 0, _ => []
  | n + 1, w => w.getD 0 0 :: stretch n (w.tail ++ [nextWord w])

/-- Mixes one word into the state. -/
def step (s : State) (kw : UInt32 × UInt32) : State :=
  let t := s.h + (rotate s.e 6 ^^^ rotate s.e 11 ^^^ rotate s.e 25)
    + ((s.e &&& s.f) ^^^ (~~~s.e &&& s.g)) + kw.1 + kw.2
  let u := (rotate s.a 2 ^^^ rotate s.a 13 ^^^ rotate s.a 22)
    + ((s.a &&& s.b) ^^^ (s.a &&& s.c) ^^^ (s.b &&& s.c))
  ⟨t + u, s.a, s.b, s.c, s.d + t, s.e, s.f, s.g⟩

/-- Mixes a block of sixteen words into the state. -/
def absorb (s : State) (block : List UInt32) : State :=
  let t := (stepWords.zip (stretch 64 block)).foldl step s
  ⟨s.a + t.a, s.b + t.b, s.c + t.c, s.d + t.d, s.e + t.e, s.f + t.f, s.g + t.g, s.h + t.h⟩

/-- Takes one more word: it is kept until a block is full, and the block is then mixed in. -/
def feed (p : State × List UInt32) (w : UInt32) : State × List UInt32 :=
  let block := p.2 ++ [w]
  if block.length = 16 then (absorb p.1 block, []) else (p.1, block)

/-- The bytes of `n` as `k` big-endian bytes. -/
def bigEndian : Nat → Nat → List UInt8
  | 0, _ => []
  | k + 1, n => bigEndian k (n / 256) ++ [n.toUInt8]

/-- A message filled up to whole blocks: a set bit, then zeros, then its length in bits. -/
def padded (bytes : List UInt8) : List UInt8 :=
  let n := bytes.length
  bytes ++ 0x80 :: List.replicate ((119 - n % 64) % 64) 0 ++ bigEndian 8 (8 * n)

/-- The digest of a sequence of bytes in hexadecimal notation. -/
def hex (bytes : List UInt8) : String :=
  let s := ((words (padded bytes)).foldl feed (initial, [])).1
  String.ofList <|
    [s.a, s.b, s.c, s.d, s.e, s.f, s.g, s.h].flatMap fun w => Text.hexadecimal 8 w.toNat

end RuleProver.Digest
