import Mathlib.Logic.Function.Iterate

/-!
# CRC-32

The reflected polynomial of IEEE 802.3, a bit at a time.
-/

namespace Crc32

def shift (crc : Nat) : Nat := if crc % 2 = 1 then (crc / 2) ^^^ 0xEDB88320 else crc / 2

/-- The remainder behind some bytes. The match makes it a numeral before the next byte,
so that the recursion is no deeper than the list. -/
def remainder : Nat → List UInt8 → Nat
  | crc, [] => crc
  | 0, byte :: bytes => remainder (shift^[8] byte.toNat) bytes
  | crc + 1, byte :: bytes => remainder (shift^[8] ((crc + 1) ^^^ byte.toNat)) bytes

def checksum (bytes : List UInt8) : UInt32 := ~~~(UInt32.ofNat (remainder 0xFFFFFFFF bytes))

-- the check value of the algorithm: the digits from one to nine
example : checksum [0x31, 0x32, 0x33, 0x34, 0x35, 0x36, 0x37, 0x38, 0x39] = 0xCBF43926 := by
  decide +kernel

end Crc32
