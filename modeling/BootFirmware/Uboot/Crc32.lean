/-
  The CRC-32 of a list of bytes.

  The code takes four bytes at a time where it can, which does
  what the four single steps do.

  Key definitions include:
    * `crcTable`
    * `crc32`
-/

namespace Uboot

/- The exclusive-or pattern of the polynomial. -/
def crcPoly : UInt32 :=
  List.foldl (fun poly p => poly ||| (1 : UInt32) <<< (31 - p))
    0 [0, 1, 2, 4, 5, 7, 8, 10, 11, 12, 16, 22, 23, 26]

/- The entry of the table after `k` of the eight bits. -/
def crcBits : Nat → UInt32 → UInt32
  | 0, c => c
  | k + 1, c =>
    crcBits k
      (if c &&& 1 = 1 then crcPoly ^^^ (c >>> 1)
        else c >>> 1)

def crcTable (n : UInt32) : UInt32 :=
  crcBits 8 n

def doCrc (crc : UInt32) (x : UInt8) : UInt32 :=
  crcTable ((crc ^^^ x.toUInt32) &&& 255) ^^^ (crc >>> 8)

def crc32NoComp (crc : UInt32) (buf : List UInt8) : UInt32 :=
  buf.foldl doCrc crc

def crc32 (crc : UInt32) (p : List UInt8) : UInt32 :=
  crc32NoComp (crc ^^^ 0xffffffff) p ^^^ 0xffffffff

end Uboot
