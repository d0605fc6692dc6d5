/-
  Conversion between UTF-16 and UTF-8.

  A cursor reads the source, a count of what is left of it
  is kept beside, and the two need not agree.  A read behind
  the end of the source has no result.

  Key definitions include:
    * `utf16ToUtf8`
    * `utf8Turns` and `utf8ToUtf16`
-/

namespace Uboot.Charset

def questionMark : Nat := 0x3f

----
-- From UTF-16
----

/- The bytes of a code from 0x10000 on. -/
def fourBytes (code : Nat) : List UInt8 :=
  [.ofNat (code >>> 18 ||| 0xf0), .ofNat (code >>> 12 &&& 0x3f ||| 0x80),
    .ofNat (code >>> 6 &&& 0x3f ||| 0x80), .ofNat (code &&& 0x3f ||| 0x80)]

def isHigh (code : Nat) : Bool :=
  0xd800 ≤ code && code ≤ 0xdbff

def isLow (code : Nat) : Bool :=
  0xdc00 ≤ code && code ≤ 0xdfff

/- A code that no high surrogate is before, and is not one. -/
def bytesOf (code : Nat) : List UInt8 :=
  if code ≤ 0x7f then [.ofNat code]
  else if code ≤ 0x7ff then
    [.ofNat (code >>> 6 ||| 0xc0), .ofNat (code &&& 0x3f ||| 0x80)]
  else if isLow code then [.ofNat questionMark]
  else if code < 0x10000 then
    [.ofNat (code >>> 12 ||| 0xe0), .ofNat (code >>> 6 &&& 0x3f ||| 0x80),
      .ofNat (code &&& 0x3f ||| 0x80)]
  else fourBytes code

/-
  The loop.  A unit that should have been a low surrogate is
  not eaten, but counted.
-/
def utf16Loop : Nat → Nat → List UInt16 → Option (List UInt8)
  | 0, _, _ => some []
  | _ + 1, _, [] => none
  | size + 1, codeHigh, u :: src =>
    let code := u.toNat
    if codeHigh ≠ 0 then
      if isLow code then
        (utf16Loop size 0 src).map
          (fourBytes (((codeHigh - 0xd800) <<< 10) + (code - 0xdc00) + 0x10000) ++ ·)
      else
        (utf16Loop size 0 (u :: src)).map (.ofNat questionMark :: ·)
    else if isHigh code then utf16Loop size code src
    else (utf16Loop size 0 src).map (bytesOf code ++ ·)

def utf16ToUtf8 (src : List UInt16) (size : Nat) : Option (List UInt8) :=
  utf16Loop size 0 src

----
-- From UTF-8
----

/- What a first byte gives, and the bytes that it needs. -/
def firstByte (b : UInt8) : Option (Nat × Nat) :=
  if b ≤ 0x7f then some (b.toNat, 0)
  else if b ≤ 0xbf then none
  else if b ≤ 0xdf then some ((b &&& 0x1f).toNat, 1)
  else if b ≤ 0xef then some ((b &&& 0x0f).toNat, 2)
  else if b ≤ 0xf7 then some ((b &&& 0x07).toNat, 3)
  else none

/- A byte that is not a continuation is eaten. -/
def extend : Nat → Nat → List UInt8 → Nat → Option (Nat × List UInt8 × Nat)
  | code, 0, src, size => some (code, src, size)
  | code, _ + 1, src, 0 => some (code, src, 0)
  | _, _ + 1, [], _ + 1 => none
  | code, ext + 1, b :: src, size + 1 =>
    if b &&& 0xc0 = 0x80 then
      extend (code <<< 6 ||| (b &&& 0x3f).toNat) ext src size
    else some (questionMark, src, size)

def unitsOf (code : Nat) : List UInt16 :=
  if code < 0x10000 then [.ofNat code]
  else
    [.ofNat ((code >>> 10) + 0xd7c0), .ofNat (code &&& 0x3ff ||| 0xdc00)]

theorem extend_size {code ext size code' size' : Nat} {src src' : List UInt8}
    (hRun : extend code ext src size = some (code', src', size')) :
    size' ≤ size := by
  fun_induction extend code ext src size with
  | case1 | case2 =>
    cases hRun
    exact Nat.le_refl _
  | case3 => cases hRun
  | case4 code ext b src size _ ih => exact Nat.le_succ_of_le (ih hRun)
  | case5 =>
    cases hRun
    exact Nat.le_succ _

/-
  The turns of the loop, each with the place of the cursor at
  its start and the units that it puts out.  A first byte that
  is illegal stays where it is.
-/
def utf8Turns (pos : Nat) (src : List UInt8) (size : Nat) : Option (List (Nat × List UInt16)) :=
  match size, src with
  | 0, _ => some []
  | _ + 1, [] => none
  | size + 1, b :: src =>
    match firstByte b with
    | none => (utf8Turns pos (b :: src) size).map ((pos, unitsOf questionMark) :: ·)
    | some (code, ext) =>
      let size' := if code = 0 ∧ b ≤ 0x7f then 0 else size
      match hRun : extend code ext src size' with
      | none => none
      | some (code', src', size'') =>
        have _hLe := extend_size hRun
        (utf8Turns (pos + ((b :: src).length - src'.length)) src' size'').map
          ((pos, unitsOf code') :: ·)
termination_by size
decreasing_by
  · omega
  · grind

def utf8ToUtf16 (src : List UInt8) (size : Nat) : Option (List UInt16) :=
  (utf8Turns 0 src size).map fun turns => turns.flatMap fun turn => turn.2

end Uboot.Charset
