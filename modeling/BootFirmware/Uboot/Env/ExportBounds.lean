import BootFirmware.Uboot.Env.RoundTrip

/-
  The bytes that the export of the variables writes.

  Pass 1 counts the escapes of a value only if the separator
  is not NUL, while pass 2 writes them with any separator.
  What pass 1 counts twice, two bytes for each entry, hides
  this as long as there are few backslashes.

  Key definitions include:
    * `pass2` and `hexportCounts`
    * `InBounds`
    * `Roomy`

  The main results are:
    * `hexport_in_bounds_iff`
-/

----
-- What Is Written
----

namespace Uboot.Env

/- The bytes that pass 2 writes, with the final NUL. -/
def pass2 (matchEntry : Entry → Bool) (htab : HsearchData) (sep : UInt8) (flag argc : Nat) :
    List UInt8 :=
  (qsort cmpkey (exported matchEntry htab flag argc)).flatMap (entryText sep) ++ [0]

/-
  A call by its return value, which is the size of the buffer
  if it is not negative, and the number of bytes that pass 2
  writes.
-/
def hexportCounts
    (matchEntry : Entry → Bool) (htab : HsearchData) (sep : UInt8) (flag size argc : Nat) :
    Option (Int × Nat) :=
  if 2 ^ 31 - 1 ≤ htab.size then
    none
  else
    let totlen := totlen sep (exported matchEntry htab flag argc)
    if size ≠ 0 ∧ size < totlen + 1 then
      some (-1, 0)
    else
      let size := if size = 0 then totlen + 1 else size
      some ((size : Int), (pass2 matchEntry htab sep flag argc).length)

/-
  The number of bytes written is at most the size of the
  buffer, and a size that is too small for them is refused
  before any is written.
-/
structure InBounds
    (matchEntry : Entry → Bool) (htab : HsearchData) (sep : UInt8)
    (flag size argc : Nat) : Prop where
  written : ∀ ret count, hexportCounts matchEntry htab sep flag size argc = some (ret, count) →
    0 ≤ ret → (count : Int) ≤ ret
  refused : 0 < size → size < (pass2 matchEntry htab sep flag argc).length →
      hexportCounts matchEntry htab sep flag size argc = some (-1, 0)

/-
  The condition.  With NUL, the values of the selected entries
  have at most two backslashes for each entry, or a size is
  given that pass 1 refuses or that leaves room for the others
  as well.  A table of so many slots that pass 1 counts its
  `int` past the largest value is not exported to a size that
  is too small.
-/
structure Roomy
    (matchEntry : Entry → Bool) (htab : HsearchData) (sep : UInt8)
    (flag size argc : Nat) : Prop where
  escapes :
    htab.size < 2 ^ 31 - 1 → sep = 0 →
      let list := exported matchEntry htab flag argc
      backslashes list ≤ 2 * list.length ∨ (0 < size ∧
          (size ≤ totlen sep list ∨ totlen sep list + backslashes list < size + 2 * list.length))
  huge : 2 ^ 31 - 1 ≤ htab.size → size = 0 ∨ (pass2 matchEntry htab sep flag argc).length ≤ size

/- The bytes written, by the count of pass 1. -/
theorem length_pass2
    (matchEntry : Entry → Bool) (htab : HsearchData) (sep : UInt8) (flag argc : Nat) :
    (pass2 matchEntry htab sep flag argc).length + 2 * (exported matchEntry htab flag argc).length =
      totlen sep (exported matchEntry htab flag argc) + (if sep = 0 then
          backslashes (exported matchEntry htab flag argc)
        else 0) + 1 := by
  have hPerm :=
    (qsort_perm cmpkey (exported matchEntry htab flag argc)).flatMap_right (entryText sep)
  have hText := length_text sep (exported matchEntry htab flag argc)
  unfold pass2
  rw [List.length_append, hPerm.length_eq, List.length_singleton]
  omega

/- Where pass 1 ends, what is returned counts the bytes. -/
theorem inBounds_of_counts
    {matchEntry : Entry → Bool} {htab : HsearchData} {sep : UInt8} {flag size argc room : Nat}
    (hCounts :
      hexportCounts matchEntry htab sep flag size argc =
        some ((room : Int), (pass2 matchEntry htab sep flag argc).length))
    (hRoom : 0 < size → room = size) :
    InBounds matchEntry htab sep flag size argc ↔
      (pass2 matchEntry htab sep flag argc).length ≤ room := by
  constructor
  · intro hBounds
    have hLe := hBounds.written _ _ hCounts (Int.natCast_nonneg room)
    omega
  · intro hLe
    refine ⟨?_, ?_⟩
    · intro ret count hSome _
      rw [hCounts] at hSome
      cases hSome
      omega
    · intro hPos hSmall
      omega

/-
  For every table, separator, match list and size, the export
  stays in its buffer if and only if the condition is met.
-/
theorem hexport_in_bounds_iff
    (matchEntry : Entry → Bool) (htab : HsearchData) (sep : UInt8) (flag size argc : Nat) :
    InBounds matchEntry htab sep flag size argc ↔ Roomy matchEntry htab sep flag size argc := by
  have hLength := length_pass2 matchEntry htab sep flag argc
  by_cases hHuge : 2 ^ 31 - 1 ≤ htab.size
  -- Pass 1 does not end.
  · have hNone :
        hexportCounts matchEntry htab sep flag size argc = none := if_pos hHuge
    constructor
    · intro hBounds
      refine ⟨fun hLt => absurd hLt (by omega), fun _ => ?_⟩
      by_contra hNot
      have hSome := hBounds.refused (by omega) (by omega)
      rw [hNone] at hSome
      cases hSome
    · intro hRoomy
      refine ⟨?_, ?_⟩
      · intro ret count hSome
        rw [hNone] at hSome
        cases hSome
      · intro hPos hSmall
        have hCase := hRoomy.huge hHuge
        omega
  by_cases hSmall : size ≠ 0 ∧ size < totlen sep (exported matchEntry htab flag argc) + 1
  · have hRefused : hexportCounts matchEntry htab sep flag size argc = some (-1, 0) := by
      unfold hexportCounts
      rw [if_neg hHuge]
      exact if_pos hSmall
    refine Iff.intro (fun _ => ⟨fun _ _ => ?_, ?_⟩) fun _ => ⟨?_, fun _ _ => hRefused⟩
    · exact Or.inr ⟨by omega, Or.inl (by omega)⟩
    · exact fun h => absurd h hHuge
    · intro ret count hSome hNonneg
      rw [hRefused] at hSome
      cases hSome
      omega
  have hCounts :
      hexportCounts matchEntry htab sep flag size argc = some (((if size = 0 then
            totlen sep (exported matchEntry htab flag argc) + 1
          else size : Nat) : Int), (pass2 matchEntry htab sep flag argc).length) := by
    unfold hexportCounts
    rw [if_neg hHuge]
    exact if_neg hSmall
  rw [inBounds_of_counts hCounts fun hPos =>
    if_neg (Nat.ne_of_gt hPos)]
  constructor
  · intro hLe
    refine ⟨fun _ hNul => ?_, fun h => absurd h hHuge⟩
    rw [if_pos hNul] at hLength
    dsimp only
    by_cases hZero : size = 0
    · rw [if_pos hZero] at hLe
      exact Or.inl (by omega)
    · rw [if_neg hZero] at hLe
      exact Or.inr ⟨by omega, Or.inr (by omega)⟩
  · intro hRoomy
    by_cases hNul : sep = 0
    · have hEscapes := hRoomy.escapes (by omega) hNul
      rw [if_pos hNul] at hLength
      dsimp only at hEscapes
      split
      · omega
      · omega
    · rw [if_neg hNul] at hLength
      split
      · omega
      · omega

/-
  Of the variable with three backslashes pass 2 writes ten
  bytes to a buffer of nine.
-/
theorem hexport_writes_past_buffer :
    hexportCounts (fun _ => false) (oneVariable threeBackslashes) 0 0 0 0 = some (9, 10) ∧
    ¬ InBounds (fun _ => false) (oneVariable threeBackslashes) 0 0 0 0 := by
  have hTotlen :
      totlen 0 (exported (fun _ => false) (oneVariable threeBackslashes) 0 0) = 8 := by decide
  have hEscapes :
      backslashes (exported (fun _ => false) (oneVariable threeBackslashes) 0 0) = 3 := by decide
  have hOne : (exported (fun _ => false) (oneVariable threeBackslashes) 0 0).length = 1 := by decide
  have hLength := length_pass2 (fun _ => false) (oneVariable threeBackslashes) 0 0 0
  rw [hTotlen, hEscapes, hOne, if_pos rfl] at hLength
  have hTen : (pass2 (fun _ => false) (oneVariable threeBackslashes) 0 0 0).length = 10 := by omega
  have hCounts :
      hexportCounts (fun _ => false) (oneVariable threeBackslashes) 0 0 0 0 = some (9, 10) := by
    unfold hexportCounts
    rw [hTotlen, hTen]
    decide
  refine ⟨hCounts, fun hBounds => ?_⟩
  have hLe := hBounds.written 9 10 hCounts (by decide)
  omega

end Uboot.Env
