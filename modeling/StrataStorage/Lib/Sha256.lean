import StrataStorage.Lib.OrderCode

/-!
# SHA-256

The hash of a list of bytes. The message is padded to blocks of sixteen words; each
block is mixed into the eight words of the state by sixty-four rounds.
-/

namespace Sha256

open List

def roundConstants : List UInt32 :=
  [0x428a2f98, 0x71374491, 0xb5c0fbcf, 0xe9b5dba5, 0x3956c25b, 0x59f111f1, 0x923f82a4, 0xab1c5ed5,
   0xd807aa98, 0x12835b01, 0x243185be, 0x550c7dc3, 0x72be5d74, 0x80deb1fe, 0x9bdc06a7, 0xc19bf174,
   0xe49b69c1, 0xefbe4786, 0x0fc19dc6, 0x240ca1cc, 0x2de92c6f, 0x4a7484aa, 0x5cb0a9dc, 0x76f988da,
   0x983e5152, 0xa831c66d, 0xb00327c8, 0xbf597fc7, 0xc6e00bf3, 0xd5a79147, 0x06ca6351, 0x14292967,
   0x27b70a85, 0x2e1b2138, 0x4d2c6dfc, 0x53380d13, 0x650a7354, 0x766a0abb, 0x81c2c92e, 0x92722c85,
   0xa2bfe8a1, 0xa81a664b, 0xc24b8b70, 0xc76c51a3, 0xd192e819, 0xd6990624, 0xf40e3585, 0x106aa070,
   0x19a4c116, 0x1e376c08, 0x2748774c, 0x34b0bcb5, 0x391c0cb3, 0x4ed8aa4a, 0x5b9cca4f, 0x682e6ff3,
   0x748f82ee, 0x78a5636f, 0x84c87814, 0x8cc70208, 0x90befffa, 0xa4506ceb, 0xbef9a3f7, 0xc67178f2]

structure State where
  (a b c d e f g h : UInt32)

def State.initial : State :=
  ⟨0x6a09e667, 0xbb67ae85, 0x3c6ef372, 0xa54ff53a, 0x510e527f, 0x9b05688c, 0x1f83d9ab, 0x5be0cd19⟩

def rotateRight (x n : UInt32) : UInt32 := (x >>> n) ||| (x <<< (32 - n))

/-- The rounds; the message schedule is a window of its next sixteen words. -/
def rounds : List UInt32 → List UInt32 → State → State
  | k :: ks, w :: window, ⟨a, b, c, d, e, f, g, h⟩ =>
    let t1 := h + (rotateRight e 6 ^^^ rotateRight e 11 ^^^ rotateRight e 25) +
      ((e &&& f) ^^^ (~~~e &&& g)) + k + w
    let t2 := (rotateRight a 2 ^^^ rotateRight a 13 ^^^ rotateRight a 22) +
      ((a &&& b) ^^^ (a &&& c) ^^^ (b &&& c))
    let w1 := window.getD 0 0
    let w14 := window.getD 13 0
    let next := w + (rotateRight w1 7 ^^^ rotateRight w1 18 ^^^ (w1 >>> 3)) + window.getD 8 0 +
      (rotateRight w14 17 ^^^ rotateRight w14 19 ^^^ (w14 >>> 10))
    rounds ks (window ++ [next]) ⟨t1 + t2, a, b, c, d + t1, e, f, g⟩
  | _, _, state => state

def compress (s : State) (block : List UInt32) : State :=
  let t := rounds roundConstants block s
  ⟨s.a + t.a, s.b + t.b, s.c + t.c, s.d + t.d, s.e + t.e, s.f + t.f, s.g + t.g, s.h + t.h⟩

/-- A one, zeros up to eight bytes before a block ends, and the length in bits. -/
def pad (message : List UInt8) : List UInt8 :=
  message ++ 0x80 :: (replicate ((119 - message.length % 64) % 64) 0 ++ beBytes 8 (8 * message.length))

def words : List UInt8 → List UInt32
  | a :: b :: c :: d :: bytes =>
    ((a.toUInt32 <<< 24) ||| (b.toUInt32 <<< 16) ||| (c.toUInt32 <<< 8) ||| d.toUInt32) :: words bytes
  | _ => []

def digest (message : List UInt8) : List UInt8 :=
  let blocks := (words (pad message)).toChunks 16
  let s := blocks.foldl compress .initial
  [s.a, s.b, s.c, s.d, s.e, s.f, s.g, s.h].flatMap fun word => beBytes 4 word.toNat

theorem length_digest (message : List UInt8) : (digest message).length = 32 := by
  simp [digest]

end Sha256
