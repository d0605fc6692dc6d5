import BootFirmware.Lib.Memory

/-
  NOR flash.  A block is erased to ones as a whole, and a
  byte that is programmed only has bits cleared.  A longer
  operation is a list of such steps, and a power cut leaves
  what some first steps of the list leave.

  Key definitions include:
    * `FlashStep` and `runSteps`
    * `eraseSteps` and `programSteps`

  The rules used by the developments built on top are:
    * `runSteps_avoids`
    * `runSteps_eraseSteps`
    * `slice_programSteps`
-/

namespace NorFlash

----
-- Steps
----

inductive FlashStep where
  | erase (addr : Nat)
  | program (addr : Nat) (byte : UInt8)
deriving DecidableEq, Repr

variable (blockSize : Nat)

def FlashStep.run (flash : Memory UInt8) : FlashStep → Memory UInt8
  | .erase addr => fun j =>
    if addr ≤ j ∧ j < addr + blockSize then 255
    else flash j
  | .program addr byte => fun j =>
    if j = addr then flash j &&& byte else flash j

def runSteps (flash : Memory UInt8) (steps : List FlashStep) :
    Memory UInt8 :=
  steps.foldl (FlashStep.run blockSize) flash

/- Erase so many blocks, the lowest first. -/
def eraseSteps : Nat → Nat → List FlashStep
  | _, 0 => []
  | addr, n + 1 => .erase addr :: eraseSteps (addr + blockSize) n

/- Program bytes in order. -/
def programSteps : Nat → List UInt8 → List FlashStep
  | _, [] => []
  | addr, byte :: bytes => .program addr byte :: programSteps (addr + 1) bytes

/- The step leaves the byte at `j` alone. -/
def FlashStep.Avoids (j : Nat) : FlashStep → Prop
  | .erase addr => j < addr ∨ addr + blockSize ≤ j
  | .program addr _ => j ≠ addr

----
-- Rules
----

section Rules

variable {blockSize : Nat} {flash : Memory UInt8} {steps rest : List FlashStep} {addr n j : Nat}
  {bytes : List UInt8}

@[simp] theorem runSteps_append :
    runSteps blockSize flash (steps ++ rest) = runSteps blockSize (runSteps blockSize flash steps)
        rest :=
  List.foldl_append

theorem run_avoids {step : FlashStep} (hAvoids : step.Avoids blockSize j) :
    step.run blockSize flash j = flash j := by
  cases step with
  | erase addr =>
    apply if_neg
    rintro ⟨hLe, hLt⟩
    rcases hAvoids with hBelow | hAbove
    · exact Nat.not_le.mpr hBelow hLe
    · exact Nat.not_le.mpr hLt hAbove
  | program addr byte => exact if_neg hAvoids

/- The frame rule. -/
theorem runSteps_avoids (hAvoid : ∀ step ∈ steps, step.Avoids blockSize j) :
    runSteps blockSize flash steps j = flash j := by
  induction steps generalizing flash with
  | nil => rfl
  | cons step steps ih =>
    have hFirst := hAvoid step List.mem_cons_self
    have hRest := fun next hNext => hAvoid next (List.mem_cons_of_mem step hNext)
    exact (ih hRest).trans (run_avoids hFirst)

theorem avoids_eraseSteps (n : Nat) (hOut : j < addr ∨ addr + n * blockSize ≤ j) :
    ∀ step ∈ eraseSteps blockSize addr n, step.Avoids blockSize j := by
  induction n generalizing addr with
  | zero => nofun
  | succ n ih =>
    rw [Nat.succ_mul] at hOut
    intro step hStep
    rcases List.mem_cons.mp hStep with rfl | hRest
    · exact hOut.imp_right fun hAbove => by omega
    · apply ih ?_ step hRest
      rcases hOut with hBelow | hAbove
      · exact Or.inl (Nat.lt_add_right blockSize hBelow)
      · exact Or.inr (by omega)

theorem avoids_programSteps
    (blockSize : Nat) (bytes : List UInt8) (hOut : j < addr ∨ addr + bytes.length ≤ j) :
    ∀ step ∈ programSteps addr bytes, step.Avoids blockSize j := by
  induction bytes generalizing addr with
  | nil => nofun
  | cons byte bytes ih =>
    rw [List.length_cons] at hOut
    intro step hStep
    rcases List.mem_cons.mp hStep with rfl | hRest
    · intro hEq
      omega
    · apply ih ?_ step hRest
      omega

/- Every byte of the blocks is erased. -/
theorem runSteps_eraseSteps (hIn : addr ≤ j ∧ j < addr + n * blockSize) :
    runSteps blockSize flash (eraseSteps blockSize addr n) j = 255 := by
  induction n generalizing addr flash with
  | zero => omega
  | succ n ih =>
    rw [Nat.succ_mul] at hIn
    by_cases hFirst : j < addr + blockSize
    · have hRest := avoids_eraseSteps n (Or.inl hFirst : _ ∨ addr + blockSize + n * blockSize ≤ j)
      exact (runSteps_avoids hRest).trans (if_pos ⟨hIn.1, hFirst⟩)
    · exact ih ⟨Nat.not_lt.mp hFirst, by omega⟩

/- Bytes that are programmed after an erase are read back. -/
theorem slice_programSteps
    (blockSize : Nat) (flash : Memory UInt8) (addr : Nat) (bytes : List UInt8)
    (hErased : ∀ i, i < bytes.length → flash (addr + i) = 255) :
    (runSteps blockSize flash (programSteps addr bytes)).slice addr bytes.length = bytes := by
  induction bytes generalizing addr flash with
  | nil => rfl
  | cons byte bytes ih =>
    have hFirst : flash addr = 255 := hErased 0 (Nat.succ_pos _)
    have hKept : runSteps blockSize flash (programSteps addr (byte :: bytes)) addr = byte := by
      have hAvoid := avoids_programSteps blockSize bytes (Or.inl (Nat.lt_succ_self addr))
      refine (runSteps_avoids hAvoid).trans ?_
      refine (if_pos rfl).trans ?_
      rw [hFirst]
      exact UInt8.neg_one_and
    have hNext : ∀ i, i < bytes.length →
        FlashStep.run blockSize flash (.program addr byte) (addr + 1 + i) = 255 := by
      intro i hi
      have hThere := hErased (i + 1) (Nat.succ_lt_succ hi)
      refine (if_neg (by omega)).trans ?_
      rwa [Nat.add_assoc, Nat.add_comm 1 i]
    have hRest := ih _ _ hNext
    rw [List.length_cons, Memory.slice_succ, hKept]
    exact congrArg (byte :: ·) hRest

end Rules

end NorFlash
