import BootFirmware.Lib.Memory
import BootFirmware.Uboot.CTypes

/-
  Memory buffers: a byte queue in a block of memory whose
  head and tail wrap around.

  A pointer into the block is its offset from `start`.  The
  bytes of the block are a `Memory`, and a copy that leaves
  the block has no result.  Lengths are C integers.

  Key definitions include:
    * `Membuff`
    * `membuffPutraw` and `membuffGetraw`
    * `membuffPut`, `membuffGet` and `membuffReadline`
    * `membuffMakecontig` and `membuffExtendBy`
-/

----
-- Buffers
----

namespace Uboot

/-
  `struct membuff`, with the bytes from `start` on.  The
  block has `size` bytes, so that `end` is at that offset.
-/
structure Membuff where
  mem : Memory UInt8
  size : Nat
  head : Nat
  tail : Nat

namespace Membuff

/- The largest `int`. -/
def intMax : Nat := 2 ^ 31 - 1

/- Bytes copied from the block; none may lie outside. -/
def load (mb : Membuff)
    (off len : Nat) : Option (List UInt8) :=
  if off + len ≤ mb.size then some (mb.mem.slice off len)
  else none

/- Bytes copied into the block. -/
def store (mb : Membuff) (off : Nat)
    (bytes : List UInt8) : Option Membuff :=
  if off + bytes.length ≤ mb.size then
    some { mb with mem := mb.mem.write off bytes }
  else
    none

/- `membuff_init`. -/
def membuffInit (mem : Memory UInt8) (size : Nat) : Membuff where
  mem := mem
  size := size
  head := 0
  tail := 0

/- `len` capped by `maxlen`, unless that is negative. -/
def capLen (len maxlen : Int) : Int :=
  if maxlen ≥ 0 ∧ len > maxlen then maxlen else len

----
-- Writing
----

/-
  `membuff_putraw`: the buffer, the offset to write to and
  the number of bytes.
-/
def membuffPutraw (mb : Membuff) (maxlen : Int)
    (update : Bool) : Membuff × Nat × Int :=
  let offset := mb.head
  if mb.head ≥ mb.tail then
    let len := capLen ((mb.size : Int) - mb.head - 1) maxlen
    let mb :=
      if update then { mb with head := mb.head + len.toNat }
      else mb
    -- one more byte fits at the end if the tail has moved
    if (maxlen < 0 ∨ len < maxlen) ∧ mb.tail ≠ 0 then
      (if update then { mb with head := 0 } else mb, offset, len + 1)
    else
      (mb, offset, len)
  else
    let len := capLen ((mb.tail : Int) - mb.head - 1) maxlen
    (if update then { mb with head := mb.head + len.toNat }
      else mb, offset, len)

/- `membuff_putbyte`; the byte is the low part of `ch`. -/
def membuffPutbyte (mb : Membuff)
    (ch : Int) : Option (Membuff × Bool) :=
  let (mb, offset, len) := mb.membuffPutraw 1 true
  if len ≠ 1 then
    some (mb, false)
  else
    (mb.store offset [UInt8.ofNat (ch % 256).toNat]).map fun mb => (mb, true)

/-
  The loop of `membuff_put`, with the rounds left, the bytes
  left to write and the number written.
-/
def putLoop : Nat → Membuff → List UInt8 → Int → Option (Membuff × Int)
  | 0, mb, _, written => some (mb, written)
  | i + 1, mb, buff, written =>
    let (mb, offset, towrite) := mb.membuffPutraw buff.length true
    match mb.store offset (buff.take towrite.toNat) with
    | none => none
    | some mb => putLoop i mb (buff.drop towrite.toNat) (written + towrite)

/- `membuff_put` of the bytes of `buff`. -/
def membuffPut (mb : Membuff)
    (buff : List UInt8) : Option (Membuff × Int) :=
  putLoop 2 mb buff 0

----
-- Reading
----

/- `membuff_getraw`. -/
def membuffGetraw (mb : Membuff) (maxlen : Int)
    (update : Bool) : Membuff × Nat × Int :=
  if mb.head > mb.tail then
    let len := capLen ((mb.head : Int) - mb.tail) maxlen
    (if update then { mb with tail := mb.tail + len.toNat }
      else mb, mb.tail, len)
  else if mb.head < mb.tail then
    let len := capLen ((mb.size : Int) - mb.tail) maxlen
    let tail := mb.tail + len.toNat
    (if update then
        { mb with tail := if tail = mb.size then 0 else tail }
      else mb, mb.tail, len)
  else
    (mb, mb.tail, 0)

/- `membuff_getbyte` and `membuff_peekbyte`. -/
def byteAt (mb : Membuff)
    (update : Bool) : Option (Membuff × Int) :=
  let (mb, offset, len) := mb.membuffGetraw 1 update
  if len ≠ 1 then
    some (mb, -1)
  else
    (mb.load offset 1).map fun bytes => (mb, ((bytes.headD 0).toNat : Int))

def membuffGetbyte (mb : Membuff) : Option (Membuff × Int) :=
  mb.byteAt true

def membuffPeekbyte (mb : Membuff) : Option (Membuff × Int) :=
  mb.byteAt false

/- The loop of `membuff_get`, with the rounds left. -/
def getLoop : Nat → Membuff → Int → List UInt8 → Option (Membuff × List UInt8)
  | 0, mb, _, out => some (mb, out)
  | i + 1, mb, maxlen, out =>
    let (mb, offset, len) := mb.membuffGetraw maxlen true
    match mb.load offset len.toNat with
    | none => none
    | some bytes =>
      if len = 0 then some (mb, out ++ bytes)
      else getLoop i mb (maxlen - len) (out ++ bytes)

/- `membuff_get`: the bytes copied out. -/
def membuffGet (mb : Membuff)
    (maxlen : Int) : Option (Membuff × List UInt8) :=
  getLoop 2 mb maxlen []

/- `membuff_avail`, which reads out a copy. -/
def membuffAvail (mb : Membuff) : Int :=
  let (mb, _, len) := mb.membuffGetraw (-1) true
  let (_, _, len') := mb.membuffGetraw (-1) true
  len + len'

/- `membuff_free`. -/
def membuffFree (mb : Membuff) : Int :=
  if mb.size = 0 then 0
  else (mb.size : Int) - 1 - mb.membuffAvail

/- The characters that end a line. -/
def endsLine (signed : Bool) (minch : Int)
    (b : UInt8) : Bool :=
  b == 10 || decide (charValue signed b < minch)

/-
  The loop of `membuff_readline` with the characters left
  before `maxlen - 1`, the positions `s` and `end`, and the
  characters copied so far: the line and the position after
  it, if it is complete.  The last `none` is for a read that
  leaves the block.
-/
def readlineLoop (signed : Bool) (minch : Int) (mb : Membuff) :
    Nat → Nat → Nat → List UInt8 → Option (Option (List UInt8 × Nat))
  | 0, _, _, _ => some none
  | room + 1, s, endp, out =>
    if ¬ s < endp then
      some none
    else
      match mb.load s 1 with
      | none => none
      | some bytes =>
        let out := out ++ bytes
        if bytes.any (endsLine signed minch) then
          some (some (out, s + 1))
        else if s + 1 = endp ∧ mb.tail > mb.head then
          readlineLoop signed minch mb room 0 mb.head out
        else
          readlineLoop signed minch mb room (s + 1) endp out

/-
  `membuff_readline`: the length and the string copied out,
  whose NUL takes the place of the last character.
-/
def membuffReadline (signed : Bool) (mb : Membuff) (maxlen minch : Int) :
    Option (Membuff × Int × List UInt8) :=
  let endp := if mb.head ≥ mb.tail then mb.head else mb.size
  match readlineLoop signed minch mb (maxlen - 1).toNat mb.tail endp [] with
  | none => none
  | some none => some (mb, 0, [])
  | some (some (out, s)) =>
    some ({ mb with tail := if s = mb.size then 0 else s }, out.length, out.dropLast)

----
-- Moving And Extending
----

/- `membuff_makecontig`. -/
def membuffMakecontig (mb : Membuff) : Option (Membuff × Bool) :=
  if mb.tail > mb.head then
    let topsize := mb.size - mb.tail
    let botsize := mb.head
    if mb.head + topsize ≥ mb.tail then
      some (mb, false)
    else if topsize + botsize ≤ mb.size then
      some
        ({ mb with
            mem := (mb.mem.move topsize 0 botsize).copyForward 0 mb.tail topsize
            tail := 0
            head := topsize + botsize }, true)
    else
      none
  else
    let topsize := mb.head - mb.tail
    some
      ({ mb with
          mem := mb.mem.copyForward 0 mb.tail topsize
          tail := 0
          head := topsize }, true)

/-
  Doubling the size until it is large enough; `none` when
  that overflows or never ends.
-/
def doubleSize (size target : Nat) : Option Nat :=
  if size < target then
    if size = 0 ∨ intMax < 2 * size then none
    else doubleSize (2 * size) target
  else
    some size
  termination_by target - size

def e2big : Int := 7
def enomem : Int := 12

/-
  `membuff_extend_by`.  `realloc` gives the bytes that the
  new block has past the old ones, or fails.  No result when
  the arithmetic overflows.
-/
def membuffExtendBy (mb : Membuff) (grow : Nat) (max : Int) (realloc : Option (Memory UInt8)) :
    Option (Membuff × Int) :=
  if intMax < mb.size + grow then
    none
  else
    match doubleSize mb.size (mb.size + grow) with
    | none => none
    | some size =>
      let size : Int :=
        if max ≠ -1 then min (size : Int) max else size
      let more := size - mb.size
      if more ≤ 0 then
        some (mb, -e2big)
      else
        match realloc with
        | none => some (mb, -enomem)
        | some fresh =>
          let mem : Memory UInt8 := fun j =>
            if j < mb.size then mb.mem j else fresh j
          if mb.head < mb.tail then
            some
              ({ mb with
                  mem := mem.move (mb.tail + more.toNat) mb.tail (mb.size - mb.tail)
                  size := size.toNat
                  tail := mb.tail + more.toNat }, 0)
          else
            some
              ({ mb with
                  mem := mem
                  size := size.toNat }, 0)

----
-- Calls
----

/- The calls, with what they are given. -/
inductive Call where
  | put (buff : List UInt8)
  | putbyte (ch : Int)
  | get (maxlen : Nat)
  | getbyte
  | peekbyte
  | readline (maxlen : Nat) (minch : Int)
  | makecontig
  | extendBy (grow : Nat) (max : Int) (realloc : Option (Memory UInt8))

/- What a call gives back. -/
inductive Reply where
  | count (n : Int)
  | flag (ok : Bool)
  | bytes (out : List UInt8)
  | line (len : Int) (str : List UInt8)
  deriving DecidableEq

/- One call on a buffer. -/
def call (signed : Bool) (mb : Membuff) : Call → Option (Membuff × Reply)
  | .put buff => (mb.membuffPut buff).map fun r => (r.1, .count r.2)
  | .putbyte ch => (mb.membuffPutbyte ch).map fun r => (r.1, .flag r.2)
  | .get maxlen => (mb.membuffGet maxlen).map fun r => (r.1, .bytes r.2)
  | .getbyte => mb.membuffGetbyte.map fun r => (r.1, .count r.2)
  | .peekbyte => mb.membuffPeekbyte.map fun r => (r.1, .count r.2)
  | .readline maxlen minch =>
    (mb.membuffReadline signed maxlen minch).map fun r => (r.1, .line r.2.1 r.2.2)
  | .makecontig => mb.membuffMakecontig.map fun r => (r.1, .flag r.2)
  | .extendBy grow max realloc =>
    (mb.membuffExtendBy grow max realloc).map fun r => (r.1, .count r.2)

end Membuff

end Uboot
