import BootFirmware.Lib.TransitionSystem
import Mathlib.Logic.Function.Basic
import Mathlib.Data.Nat.Bitwise
import Mathlib.Data.Fintype.Pi

/-
  The bakery lock of Trusted Firmware, one shared-memory
  access per step.

  Every CPU owns one halfword of `lock_data`; bit 0 is the
  choosing flag and bits 1 to 15 hold the ticket.  The model
  runs `bakery_lock_get` and `bakery_lock_release` of
  `bakery_lock_coherent.c` and of `bakery_lock_normal.c`.
  The two differ in one place that the memory can observe:
  the coherent version reads its own halfword while it scans
  for the highest ticket and the normal one skips it.

  Key definitions include:
    * `makeBakeryData`, `bakeryTicketNumber`, `priority`
    * `Pc`
    * `State`
    * `State.step`
    * `bakerySystem`
-/

----
-- The Halfword Encoding
----

namespace Tfa.Bakery

/- The `CHOOSING_TICKET` and `CHOSEN_TICKET` flags. -/
def choosingTicket : Nat := 0x1

def chosenTicket : Nat := 0x0

/- `bakery_is_choosing(info)`. -/
def bakeryIsChoosing (info : Nat) : Bool :=
  info &&& 0x1 != 0

/- `bakery_ticket_number(info)`. -/
def bakeryTicketNumber (info : Nat) : Nat :=
  (info >>> 1) &&& 0x7FFF

/- `make_bakery_data(choosing, number)`. -/
def makeBakeryData (choosing number : Nat) : Nat :=
  ((choosing &&& 0x1) ||| (number <<< 1)) &&& 0xFFFF

/- `PRIORITY(t, pos)`, in 32-bit unsigned arithmetic. -/
def priority (t pos : Nat) : Nat :=
  ((t <<< 8) ||| pos) % 2 ^ 32

/- The largest ticket that fits in bits 1 to 15. -/
def maxTicket : Nat := 0x7FFF

/- Writing the choosing flag clears the ticket. -/
theorem makeBakeryData_choosing : makeBakeryData choosingTicket 0 = 1 := by
  decide

/- A ticket in range is stored without loss. -/
theorem makeBakeryData_chosen {number : Nat} (hRange : number ≤ maxTicket) :
    makeBakeryData chosenTicket number = 2 * number := by
  have hLt : 2 * number < 2 ^ 16 := by
    simp only [maxTicket] at hRange
    omega
  have hMask : 2 * number &&& 0xFFFF = 2 * number % 2 ^ 16 :=
    Nat.and_two_pow_sub_one_eq_mod (2 * number) 16
  simp only [makeBakeryData, chosenTicket, Nat.shiftLeft_eq,
    Nat.zero_and, Nat.zero_or, pow_one, Nat.mul_comm number]
  rw [hMask, Nat.mod_eq_of_lt hLt]

/- Reading back a stored ticket. -/
theorem bakeryTicketNumber_double {number : Nat} (hRange : number ≤ maxTicket) :
    bakeryTicketNumber (2 * number) = number := by
  have hLt : number < 2 ^ 15 := by
    simp only [maxTicket] at hRange
    omega
  have hMask : number &&& 0x7FFF = number % 2 ^ 15 := Nat.and_two_pow_sub_one_eq_mod number 15
  simp only [bakeryTicketNumber, Nat.shiftRight_eq_div_pow, pow_one]
  rw [Nat.mul_div_cancel_left number (by decide), hMask, Nat.mod_eq_of_lt hLt]

/- A stored ticket has its choosing flag clear. -/
theorem bakeryIsChoosing_double (number : Nat) : bakeryIsChoosing (2 * number) = false := by
  have hMask : 2 * number &&& 0x1 = 2 * number % 2 ^ 1 :=
    Nat.and_two_pow_sub_one_eq_mod (2 * number) 1
  simp only [bakeryIsChoosing, hMask, pow_one, Nat.mul_mod_right, bne_self_eq_false]

/- A read ticket is always in range. -/
theorem bakeryTicketNumber_le (info : Nat) : bakeryTicketNumber info ≤ maxTicket :=
  Nat.and_le_right

/-
  Priorities order tickets first and positions second, as
  long as the position fits in the low byte.
-/
theorem priority_eq {t pos : Nat} (hRange : t ≤ maxTicket) (hPos : pos < 256) :
    priority t pos = 256 * t + pos := by
  have hOr : t <<< 8 ||| pos = t <<< 8 + pos := (Nat.shiftLeft_add_eq_or_of_lt hPos t).symm
  have hShift : t <<< 8 = 256 * t := by rw [Nat.shiftLeft_eq, Nat.mul_comm]
  simp only [maxTicket] at hRange
  rw [priority, hOr, hShift, Nat.mod_eq_of_lt (by omega)]

----
-- Program Counters
----

/-
  Where a CPU is in the code of the lock.  Every constructor
  but `idle` and `critical` stands before the one access to
  `lock_data` that its step makes; `idle` stands before the
  call of `bakery_lock_get`, whose first access is the read
  of the recursion assertion, and `critical` before the call
  of `bakery_lock_release`, whose first access is the read
  of the ownership assertion.
-/
inductive Pc (n : Nat) where
  | idle
  | setChoosing
  | scan (they : Fin n) (myTicket : Nat)
  | setTicket (myTicket : Nat)
  | awaitChoice (they : Fin n) (myTicket : Nat)
  | awaitChange (they : Fin n) (myTicket theirTicket : Nat)
  | critical
  | dropTicket
  deriving DecidableEq

/-
  The first index at or after `k`, other than `me`: the
  `continue` of the loops that skip the own entry.
-/
def nextOther {n : Nat} (me : Fin n)
    (k : Nat) : Option (Fin n) :=
  if hk : k < n then
    if k = me.val then
      if hk' : k + 1 < n then some ⟨k + 1, hk'⟩ else none
    else
      some ⟨k, hk⟩
  else
    none

/- The next index of the ticket scan. -/
def nextScan {n : Nat} (coherent : Bool) (me : Fin n)
    (k : Nat) : Option (Fin n) :=
  if coherent then
    if hk : k < n then some ⟨k, hk⟩ else none
  else
    nextOther me k

/-
  Continue the scan at index `k` with the highest ticket
  seen so far; after the last index the ticket is computed.
-/
def Pc.scanFrom {n : Nat} (coherent : Bool) (me : Fin n)
    (k highest : Nat) : Pc n :=
  match nextScan coherent me k with
  | some they => .scan they highest
  | none => .setTicket (highest + 1)

/-
  Continue the contention loop at index `k`; after the last
  index the lock is acquired.
-/
def Pc.contendFrom {n : Nat} (me : Fin n)
    (k myTicket : Nat) : Pc n :=
  match nextOther me k with
  | some they => .awaitChoice they myTicket
  | none => .critical

/- The ticket a CPU has computed and not yet stored. -/
def Pc.computedTicket {n : Nat} : Pc n → Nat
  | .setTicket myTicket => myTicket
  | _ => 0

----
-- Shared State And Steps
----

/- The halfwords of the lock and the CPUs' positions. -/
structure State (n : Nat) where
  lockData : Fin n → Nat
  pc : Fin n → Pc n

namespace State

variable {n : Nat}

/- Nobody holds or wants the lock. -/
def initial : State n where
  lockData _ := 0
  pc _ := .idle

/- Move one CPU without touching memory. -/
def goto (s : State n) (me : Fin n) (pc : Pc n) : State n :=
  { s with pc := Function.update s.pc me pc }

/- Write the own halfword and move on. -/
def write (s : State n) (me : Fin n) (data : Nat)
    (pc : Pc n) : State n where
  lockData := Function.update s.lockData me data
  pc := Function.update s.pc me pc

/-
  One step of a CPU.  `none` stands for a failed assertion
  of the lock code.
-/
def step (coherent : Bool) (s : State n)
    (me : Fin n) : Option (State n) :=
  match s.pc me with
  | .idle =>
    -- assert(!bakery_ticket_number(lock_data[me]))
    if bakeryTicketNumber (s.lockData me) = 0 then
      some (s.goto me .setChoosing)
    else
      none
  | .setChoosing =>
    some (s.write me (makeBakeryData choosingTicket 0) (.scanFrom coherent me 0 0))
  | .scan they highest =>
    let theirTicket := bakeryTicketNumber (s.lockData they)
    let highest :=
      if theirTicket > highest then theirTicket
      else highest
    some (s.goto me (.scanFrom coherent me (they.val + 1) highest))
  | .setTicket myTicket =>
    some (s.write me (makeBakeryData chosenTicket myTicket) (.contendFrom me 0 myTicket))
  | .awaitChoice they myTicket =>
    let theirData := s.lockData they
    if bakeryIsChoosing theirData then
      some s
    else
      let theirTicket := bakeryTicketNumber theirData
      if theirTicket ≠ 0 ∧ priority theirTicket they.val < priority myTicket me.val then
        some (s.goto me (.awaitChange they myTicket theirTicket))
      else
        some (s.goto me (.contendFrom me (they.val + 1) myTicket))
  | .awaitChange they myTicket theirTicket =>
    if theirTicket = bakeryTicketNumber (s.lockData they) then
      some s
    else
      some (s.goto me (.contendFrom me (they.val + 1) myTicket))
  | .critical =>
    -- assert(bakery_ticket_number(lock_data[me]))
    if bakeryTicketNumber (s.lockData me) ≠ 0 then
      some (s.goto me .dropTicket)
    else
      none
  | .dropTicket => some (s.write me 0 .idle)

/-
  Between the return of `bakery_lock_get` and the write of
  `bakery_lock_release`.
-/
def Holds (s : State n) (me : Fin n) : Prop :=
  s.pc me = .critical ∨ s.pc me = .dropTicket

/- No CPU holds a computed ticket above the range. -/
def TicketsInRange (s : State n) : Prop :=
  ∀ me, (s.pc me).computedTicket ≤ maxTicket

instance (s : State n) : Decidable s.TicketsInRange :=
  inferInstanceAs (Decidable (∀ me, (s.pc me).computedTicket ≤ maxTicket))

instance (s : State n) (me : Fin n) : Decidable (s.Holds me) :=
  inferInstanceAs (Decidable (s.pc me = .critical ∨ s.pc me = .dropTicket))

end State

/- All interleavings of the CPUs' steps. -/
def bakerySystem (n : Nat) (coherent : Bool) :
    TransitionSystem (State n) (Fin n) :=
  TransitionSystem.ofStep State.initial (State.step coherent)

end Tfa.Bakery
