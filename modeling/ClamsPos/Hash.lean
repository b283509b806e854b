import ClamsPos.Basic

/-!
# Double SHA-256 and the serialized preimages

`Hash(begin, end)` of `hash.h` and the `CDataStream` serialization that feeds it. Both are
declared outside `pos.cpp`; the spec fixes them: SHA-256 applied twice, over the
little-endian bytes of each field in the order they are streamed, with no framing.

SHA-256 is written over byte and word values as natural numbers, every word reduced
modulo `2 ^ 32`, so that a hash of a concrete preimage evaluates by `decide`.
-/

namespace ClamsPos.Sha256

/-- The 64 round constants of SHA-256. -/
def roundConstants : List Nat :=
  [0x428a2f98, 0x71374491, 0xb5c0fbcf, 0xe9b5dba5, 0x3956c25b, 0x59f111f1, 0x923f82a4, 0xab1c5ed5,
   0xd807aa98, 0x12835b01, 0x243185be, 0x550c7dc3, 0x72be5d74, 0x80deb1fe, 0x9bdc06a7, 0xc19bf174,
   0xe49b69c1, 0xefbe4786, 0x0fc19dc6, 0x240ca1cc, 0x2de92c6f, 0x4a7484aa, 0x5cb0a9dc, 0x76f988da,
   0x983e5152, 0xa831c66d, 0xb00327c8, 0xbf597fc7, 0xc6e00bf3, 0xd5a79147, 0x06ca6351, 0x14292967,
   0x27b70a85, 0x2e1b2138, 0x4d2c6dfc, 0x53380d13, 0x650a7354, 0x766a0abb, 0x81c2c92e, 0x92722c85,
   0xa2bfe8a1, 0xa81a664b, 0xc24b8b70, 0xc76c51a3, 0xd192e819, 0xd6990624, 0xf40e3585, 0x106aa070,
   0x19a4c116, 0x1e376c08, 0x2748774c, 0x34b0bcb5, 0x391c0cb3, 0x4ed8aa4a, 0x5b9cca4f, 0x682e6ff3,
   0x748f82ee, 0x78a5636f, 0x84c87814, 0x8cc70208, 0x90befffa, 0xa4506ceb, 0xbef9a3f7, 0xc67178f2]

/-- The word modulus. -/
def wordSize : Nat := 2 ^ 32

def rotr (x n : Nat) : Nat := (x >>> n) ||| ((x <<< (32 - n)) % wordSize)

def bigSigma0 (x : Nat) : Nat := rotr x 2 ^^^ rotr x 13 ^^^ rotr x 22
def bigSigma1 (x : Nat) : Nat := rotr x 6 ^^^ rotr x 11 ^^^ rotr x 25
def smallSigma0 (x : Nat) : Nat := rotr x 7 ^^^ rotr x 18 ^^^ (x >>> 3)
def smallSigma1 (x : Nat) : Nat := rotr x 17 ^^^ rotr x 19 ^^^ (x >>> 10)

/-- Extend the message schedule by `n` words; `ws` holds the words so far, newest first. -/
def schedule : Nat → List Nat → List Nat
  | 0, ws => ws
  | n + 1, ws =>
    schedule n ((smallSigma1 (ws.getD 1 0) + ws.getD 6 0 + smallSigma0 (ws.getD 14 0) +
      ws.getD 15 0) % wordSize :: ws)

/-- The eight working variables. -/
structure Working where
  a : Nat
  b : Nat
  c : Nat
  d : Nat
  e : Nat
  f : Nat
  g : Nat
  h : Nat

/-- One compression round, with its round constant and schedule word. -/
def round (s : Working) (kw : Nat × Nat) : Working :=
  let t1 := (s.h + bigSigma1 s.e + ((s.e &&& s.f) ^^^ ((wordSize - 1 - s.e) &&& s.g)) +
    kw.1 + kw.2) % wordSize
  let t2 := (bigSigma0 s.a + ((s.a &&& s.b) ^^^ (s.a &&& s.c) ^^^ (s.b &&& s.c))) % wordSize
  ⟨(t1 + t2) % wordSize, s.a, s.b, s.c, (s.d + t1) % wordSize, s.e, s.f, s.g⟩

def rounds : List (Nat × Nat) → Working → Working
  | [], s => s
  | kw :: rest, s => rounds rest (round s kw)

/-- The big-endian words of a block. -/
def wordsBE : List Nat → List Nat
  | a :: b :: c :: d :: rest => (a * 2 ^ 24 + b * 2 ^ 16 + c * 2 ^ 8 + d) :: wordsBE rest
  | _ => []

def compress (h : Working) (block : List Nat) : Working :=
  let s := rounds (roundConstants.zip (schedule 48 (wordsBE block).reverse).reverse) h
  ⟨(h.a + s.a) % wordSize, (h.b + s.b) % wordSize, (h.c + s.c) % wordSize,
   (h.d + s.d) % wordSize, (h.e + s.e) % wordSize, (h.f + s.f) % wordSize,
   (h.g + s.g) % wordSize, (h.h + s.h) % wordSize⟩

def initial : Working :=
  ⟨0x6a09e667, 0xbb67ae85, 0x3c6ef372, 0xa54ff53a, 0x510e527f, 0x9b05688c, 0x1f83d9ab,
   0x5be0cd19⟩

/-- The `n` big-endian bytes of `x`. -/
def bytesBE : Nat → Nat → List Nat
  | 0, _ => []
  | n + 1, x => bytesBE n (x / 256) ++ [x % 256]

/-- The message, its `0x80` byte, zeros up to 56 modulo 64, and its bit length. -/
def pad (m : List Nat) : List Nat :=
  m ++ [0x80] ++ List.replicate ((119 - m.length % 64) % 64) 0 ++ bytesBE 8 (8 * m.length)

def blocks : Nat → List Nat → Working → Working
  | 0, _, h => h
  | n + 1, m, h => blocks n (m.drop 64) (compress h (m.take 64))

def digest (h : Working) : List Nat :=
  [h.a, h.b, h.c, h.d, h.e, h.f, h.g, h.h].flatMap (bytesBE 4)

/-- SHA-256 of a byte string. -/
def sha256 (m : List Nat) : List Nat :=
  digest (blocks ((pad m).length / 64) (pad m) initial)

set_option maxRecDepth 100000 in
/-- The two-block message `abcdbcde...nopq` of 56 bytes, whose padding fills a second block. -/
example : sha256 ((List.range 14).flatMap fun i => [97 + i, 98 + i, 99 + i, 100 + i]) =
    bytesBE 32 0x248d6a61d20638b8e5c026930c3e6039a33ce45964ff2167f6ecedd419db06c1 := by
  decide

/-- The number whose little-endian bytes these are. -/
def ofBytesLE : List Nat → Nat
  | [] => 0
  | b :: bs => b + 256 * ofBytesLE bs

end ClamsPos.Sha256

namespace ClamsPos

/-- Modelled from the spec: `Hash(begin, end)` of `hash.h`, double SHA-256, its 32-byte
digest read as the little-endian `uint256`. -/
def sha256d (bytes : List UInt8) : BitVec 256 :=
  BitVec.ofNat 256 (Sha256.ofBytesLE (Sha256.sha256 (Sha256.sha256 (bytes.map UInt8.toNat))))

/-- The `n` little-endian bytes of `x`. -/
def bytesLE : Nat → Nat → List UInt8
  | 0, _ => []
  | n + 1, x => UInt8.ofNat (x % 256) :: bytesLE n (x / 256)

/-- Modelled from the spec: `ss << x` for an `unsigned int`. -/
def serUInt32 (x : UInt32) : List UInt8 := bytesLE 4 x.toNat

/-- Modelled from the spec: `ss << x` for a `uint64_t`. -/
def serUInt64 (x : UInt64) : List UInt8 := bytesLE 8 x.toNat

/-- Modelled from the spec: `ss << x` for a `uint256`, its 32 bytes as stored. -/
def serUInt256 (x : BitVec 256) : List UInt8 := bytesLE 32 x.toNat

end ClamsPos
