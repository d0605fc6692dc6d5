import BootFirmware.Lib.Memory
import BootFirmware.Lib.TransitionSystem
import BootFirmware.Tfa.Fip.Model

/-
  The package driver over any sequence of calls, where each
  access to the backend may fail.

  Beside the state of the driver there is the file that the
  caller holds: the entry it was opened with, and the number
  of bytes that were read since.  An entry is read as a whole;
  other reads may stop early.

  Key definitions include:
    * `Call` and `exec`
    * `Right` and `Fair`

  Main declarations:
    * `fip_single_file`
-/

----
-- Calls
----

namespace Tfa.Fip

/- What the backend answers during a call. -/
structure Answers where
  opened : Int
  seeked : Int
  read : Backend

/- Refused while the entry has an offset. -/
def fileOpen (a : Answers) (steps : Nat) (uuid : Uuid) (s : FileState) : Int × FileState :=
  if s.entry.offsetAddress ≠ 0 then (-ENOMEM, s)
  else if a.opened ≠ 0 ∨ a.seeked ≠ 0 then (-ENOENT, s)
  else fipFileOpen a.read steps uuid s

def fileRead (a : Answers) (length : Nat) (s : FileState) : Int × List UInt8 × FileState :=
  if a.opened ≠ 0 ∨ a.seeked ≠ 0 then (-ENOENT, [], s)
  else fipFileRead a.read length s

def closed : FileState := ⟨0, 0, 0, 0, 0⟩

def fileClose (s : FileState) : FileState :=
  if s.entry.offsetAddress ≠ 0 then closed else s

/- An open file, and how much of it was read. -/
structure Held where
  entry : TocEntry
  pos : Nat

structure DriverState where
  file : FileState
  held : Option Held

inductive Call where
  | fopen (uuid : Uuid) (steps : Nat) (a : Answers)
  | fread (length : Nat) (a : Answers)
  | fclose

/- The result, the bytes that were read, and the new state. -/
def exec (s : DriverState) : Call → Int × List UInt8 × DriverState
  | .fopen uuid steps a =>
    let r := fileOpen a steps uuid s.file
    (r.1, [], ⟨r.2, if r.1 = 0 then some ⟨r.2.entry, 0⟩ else s.held⟩)
  | .fread length a =>
    let r := fileRead a length s.file
    (r.1, r.2.1, ⟨r.2.2, s.held.map fun h => ⟨h.entry, h.pos + r.2.1.length⟩⟩)
  | .fclose => (0, [], ⟨fileClose s.file, none⟩)

section Package

variable (package : Memory UInt8)

def entryPos (i : Nat) : Nat :=
  TocHeader.sizeof + TocEntry.sizeof * i

def entryAt (i : Nat) : TocEntry :=
  .ofBytes (package.slice (entryPos i) TocEntry.sizeof)

/-
  Only an open file is read or closed, and the backend gives
  no more than it is asked for.
-/
def Possible (s : DriverState) : Call → Prop
  | .fopen _ _ a => ∀ pos,
      match a.read pos TocEntry.sizeof with
      | .error code => code ≠ 0
      | .ok bytes => bytes = package.slice pos TocEntry.sizeof
  | .fread length a => s.held.isSome ∧
      ∀ pos bytes, a.read pos length = .ok bytes →
        bytes.length ≤ length ∧ bytes = package.slice pos bytes.length
  | .fclose => s.held.isSome

/- The first entry with a UUID, before any null entry. -/
def First (uuid : Uuid) (i : Nat) (e : TocEntry) : Prop :=
  ∃ k, i ≤ k ∧ e = entryAt package k ∧ e.uuid = uuid ∧
    ∀ j, i ≤ j → j < k → (entryAt package j).uuid ≠ uuid ∧ (entryAt package j).uuid ≠ uuidNull

/- What a call should come to. -/
def Right (s : DriverState) : Call → Prop
  | .fopen uuid steps a =>
    let r := fileOpen a steps uuid s.file
    (s.file.entry.offsetAddress ≠ 0 → s.held.isSome) ∧
    (r.1 ≠ 0 → s.held = none → r.2.entry.offsetAddress = 0) ∧
    (r.1 = 0 → r.2.entry.uuid ≠ uuidNull ∧ First package uuid 0 r.2.entry)
  | .fread length a =>
    let r := fileRead a length s.file
    r.1 = 0 → ∃ h, s.held = some h ∧
      r.2.1 = package.slice (h.entry.offsetAddress.toNat + h.pos) r.2.1.length ∧
      h.pos + r.2.1.length ≤ h.entry.size.toNat
  | .fclose => True

/- The entries before one can be read, and none ends the search. -/
def Passed (a : Answers) (uuid : Uuid) (i : Nat) : Prop :=
  ∀ j < i, (∃ bytes, a.read (entryPos j) TocEntry.sizeof = .ok bytes) ∧
    (entryAt package j).uuid ≠ uuid ∧ (entryAt package j).uuid ≠ uuidNull

/-
  The entry in front of one that cannot be read has no offset,
  and the one that is looked for has one.
-/
def EntryFair (a : Answers) (uuid : Uuid) (i : Nat) : Prop :=
  match a.read (entryPos i) TocEntry.sizeof with
  | .error _ => i = 0 ∨ (entryAt package (i - 1)).offsetAddress = 0
  | .ok _ => (entryAt package i).uuid = uuid → (entryAt package i).offsetAddress ≠ 0

/-
  No null entry is looked for, the table is fair as far as the
  search comes, and no read asks for more than is left.
-/
def Fair (s : DriverState) : Call → Prop
  | .fopen uuid steps a => s.held = none → uuid ≠ uuidNull ∧
      ∀ i < steps, Passed package a uuid i → EntryFair package a uuid i
  | .fread length _ => ∀ h, s.held = some h → h.pos < 2 ^ 32 ∧
      h.entry.offsetAddress.toNat + h.pos < 2 ^ 64 ∧ h.pos + length ≤ h.entry.size.toNat
  | .fclose => True

end Package

def driver (package : Memory UInt8) : TransitionSystem DriverState Call where
  init s := s = ⟨closed, none⟩
  step s c t := Possible package s c ∧ t = (exec s c).2.2

----
-- One Call
----

/- The entry has an offset while a file is held. -/
structure Consistent (s : DriverState) : Prop where
  marked : s.file.entry.offsetAddress ≠ 0 ↔ s.held.isSome
  same : ∀ h, s.held = some h → s.file.entry = h.entry ∧ s.file.filePos = BitVec.ofNat 32 h.pos

section Calls

variable {package : Memory UInt8} {a : Answers} {uuid : Uuid}
variable {steps length : Nat} {s t : DriverState}

theorem neg_enoent : -ENOENT ≠ 0 := by
  decide

theorem entryPos_succ (i : Nat) :
    entryPos i + TocEntry.sizeof = entryPos (i + 1) :=
  rfl

theorem findEntry_right
    (e : TocEntry) (i : Nat) (hPossible : Possible package s (.fopen uuid steps a)) (n : Nat) :
    match findEntry a.read uuid n (entryPos i) e with
    | .found e => First package uuid i e
    | .notFound _ => True
    | .failed code _ => code ≠ 0 := by
  induction n generalizing i e with
  | zero => exact True.intro
  | succ n ih =>
    have hRead := hPossible (entryPos i)
    unfold findEntry
    generalize a.read (entryPos i) TocEntry.sizeof = r at hRead
    cases r with
    | error code => exact hRead
    | ok bytes =>
      have hEntry : entryAt package i = TocEntry.ofBytes bytes :=
        congrArg TocEntry.ofBytes hRead.symm
      dsimp only
      generalize TocEntry.ofBytes bytes = x at hEntry ⊢
      by_cases hUuid : x.uuid = uuid
      · rw [if_pos hUuid]
        exact ⟨i, Nat.le_refl i, hEntry.symm, hUuid, fun j hLow hHigh => by omega⟩
      rw [if_neg hUuid]
      by_cases hNull : x.uuid = uuidNull
      · rw [if_pos hNull]
        exact True.intro
      rw [if_neg hNull, entryPos_succ]
      have hNext := ih x (i + 1)
      generalize findEntry a.read uuid n (entryPos (i + 1)) x = found at hNext ⊢
      cases found with
      | found e' =>
        rcases hNext with ⟨k, hLe, hEq, hIs, hBefore⟩
        refine ⟨k, by omega, hEq, hIs, fun j hLow hHigh => ?_⟩
        by_cases hj : j = i
        · rw [hj, hEntry]
          exact ⟨hUuid, hNull⟩
        · exact hBefore j (by omega) hHigh
      | notFound _ => exact True.intro
      | failed _ _ => exact hNext

/-
  The search over a fair table, with what it has read last:
  the state before the call, or the entry in front.
-/
theorem findEntry_fair (hPossible : Possible package s (.fopen uuid steps a))
    (hFair : ∀ i < steps, Passed package a uuid i → EntryFair package a uuid i)
    (n : Nat) {i : Nat} {e : TocEntry} (hSteps : i + n = steps) (hPassed : Passed package a uuid i)
    (hLast : if i = 0 then e.offsetAddress = 0 else e = entryAt package (i - 1)) :
    match findEntry a.read uuid n (entryPos i) e with
    | .found e => e.offsetAddress ≠ 0
    | .notFound _ => True
    | .failed _ e => e.offsetAddress = 0 := by
  induction n generalizing i e with
  | zero => exact True.intro
  | succ n ih =>
    have hRead := hPossible (entryPos i)
    have hEntryFair := hFair i (by omega) hPassed
    unfold EntryFair at hEntryFair
    unfold findEntry
    cases hAnswer : a.read (entryPos i) TocEntry.sizeof with
    | error code =>
      rw [hAnswer] at hEntryFair
      by_cases hi : i = 0
      · rw [if_pos hi] at hLast
        exact hLast
      · rw [if_neg hi] at hLast
        rw [hLast]
        exact hEntryFair.resolve_left hi
    | ok bytes =>
      rw [hAnswer] at hEntryFair hRead
      have hEntry : TocEntry.ofBytes bytes = entryAt package i := congrArg TocEntry.ofBytes hRead
      have hNext := @ih (i + 1) (entryAt package i) (by omega)
      dsimp only at hEntryFair ⊢
      rw [hEntry]
      generalize hx : entryAt package i = x at hEntryFair hNext ⊢
      by_cases hUuid : x.uuid = uuid
      · rw [if_pos hUuid]
        exact hEntryFair hUuid
      rw [if_neg hUuid]
      by_cases hNull : x.uuid = uuidNull
      · rw [if_pos hNull]
        exact True.intro
      rw [if_neg hNull, entryPos_succ]
      refine hNext (fun j hj => ?_) (by rw [if_neg i.succ_ne_zero, Nat.add_sub_cancel, hx])
      by_cases hEq : j = i
      · rw [hEq, hx]
        exact ⟨⟨bytes, hAnswer⟩, hUuid, hNull⟩
      · exact hPassed j (by omega)

theorem fileOpen_cases (hPossible : Possible package s (.fopen uuid steps a))
    (hFair : Fair package s (.fopen uuid steps a)) (hNone : s.held = none)
    (hMark : s.file.entry.offsetAddress = 0) :
    let r := fileOpen a steps uuid s.file
    r.1 ≠ 0 ∧ r.2.entry.offsetAddress = 0 ∨
      r.1 = 0 ∧ r.2.filePos = 0 ∧ r.2.entry.offsetAddress ≠ 0 ∧ r.2.entry.uuid ≠ uuidNull ∧
        First package uuid 0 r.2.entry := by
  rcases hFair hNone with ⟨hUuid, hTable⟩
  have hFound := findEntry_right s.file.entry 0 hPossible steps
  have hSearch := findEntry_fair hPossible hTable steps (Nat.zero_add steps)
    (fun j hj => absurd hj (Nat.not_lt_zero j)) hMark
  unfold fileOpen fipFileOpen
  rw [if_neg (not_not_intro hMark), if_neg (not_not_intro hMark)]
  by_cases hBackend : a.opened ≠ 0 ∨ a.seeked ≠ 0
  · rw [if_pos hBackend]
    exact Or.inl ⟨neg_enoent, hMark⟩
  rw [if_neg hBackend]
  generalize hr : findEntry a.read uuid steps TocHeader.sizeof s.file.entry = r
  rw [show entryPos 0 = TocHeader.sizeof from rfl, hr] at hFound hSearch
  cases r with
  | found e =>
    rcases hFound with ⟨k, hLow, hEq, hIs, hBefore⟩
    exact Or.inr ⟨rfl, rfl, hSearch, fun h => hUuid (hIs ▸ h), k, hLow, hEq, hIs, hBefore⟩
  | notFound e => exact Or.inl ⟨neg_enoent, rfl⟩
  | failed code e => exact Or.inl ⟨hFound, hSearch⟩

theorem fileRead_cases {h : Held} (hPossible : Possible package s (.fread length a))
    (hFair : Fair package s (.fread length a)) (hSame : Consistent s) (hHeld : s.held = some h) :
    let r := fileRead a length s.file
    r.1 ≠ 0 ∧ r.2.1 = [] ∧ r.2.2 = s.file ∨
      r.2.1 = package.slice (h.entry.offsetAddress.toNat + h.pos) r.2.1.length ∧
        h.pos + r.2.1.length ≤ h.entry.size.toNat ∧
        r.2.2 = ⟨BitVec.ofNat 32 (h.pos + r.2.1.length), s.file.entry⟩ := by
  rcases hFair h hHeld with ⟨hPos, hOffset, hSize⟩
  rcases hSame.same h hHeld with ⟨hEntry, hFilePos⟩
  have hStart :
      (s.file.entry.offsetAddress +
        s.file.filePos.setWidth 64).toNat = h.entry.offsetAddress.toNat + h.pos := by
    rw [hEntry, hFilePos, BitVec.toNat_add, BitVec.toNat_setWidth, BitVec.toNat_ofNat]
    omega
  unfold fileRead fipFileRead
  by_cases hBackend : a.opened ≠ 0 ∨ a.seeked ≠ 0
  · rw [if_pos hBackend]
    exact Or.inl ⟨neg_enoent, rfl, rfl⟩
  rw [if_neg hBackend]
  dsimp only
  rw [hStart]
  cases hRead : a.read (h.entry.offsetAddress.toNat + h.pos) length with
  | error code => exact Or.inl ⟨neg_enoent, rfl, rfl⟩
  | ok bytes =>
    rcases hPossible.2 _ _ hRead with ⟨hLength, hBytes⟩
    refine Or.inr ⟨hBytes, Nat.le_trans (Nat.add_le_add_left hLength _) hSize, ?_⟩
    rw [hFilePos, BitVec.ofNat_add]

theorem Consistent.right
    (hSame : Consistent s) (c : Call) (hPossible : Possible package s c) (hFair : Fair package s c) :
    Right package s c := by
  cases c with
  | fopen uuid steps a =>
    refine ⟨hSame.marked.mp, fun hNe hNone => ?_, fun hZero => ?_⟩
    · have hMark : s.file.entry.offsetAddress = 0 := by
        by_contra hNot
        have hSome := hSame.marked.mp hNot
        rw [hNone] at hSome
        cases hSome
      rcases fileOpen_cases hPossible hFair hNone hMark with ⟨-, hAfter⟩ | ⟨hOk, -⟩
      · exact hAfter
      · exact absurd hOk hNe
    · by_cases hMark : s.file.entry.offsetAddress = 0
      · have hNone : s.held = none := by
          rw [← Option.not_isSome_iff_eq_none, ← hSame.marked]
          exact not_not_intro hMark
        rcases fileOpen_cases hPossible hFair hNone hMark with ⟨hNe, -⟩ | ⟨-, -, -, hAfter⟩
        · exact absurd hZero hNe
        · exact hAfter
      · unfold fileOpen at hZero
        rw [if_pos hMark] at hZero
        cases hZero
  | fread length a =>
    intro hZero
    rcases Option.isSome_iff_exists.mp hPossible.1 with ⟨h, hHeld⟩
    rcases fileRead_cases hPossible hFair hSame hHeld with ⟨hNe, -⟩ | ⟨hBytes, hFits, -⟩
    · exact absurd hZero hNe
    · exact ⟨h, hHeld, hBytes, hFits⟩
  | fclose => trivial

theorem Consistent.step
    (hSame : Consistent s) (c : Call) (hPossible : Possible package s c) (hFair : Fair package s c) :
    Consistent (exec s c).2.2 := by
  cases c with
  | fopen uuid steps a =>
    by_cases hMark : s.file.entry.offsetAddress = 0
    · have hNone : s.held = none := by
        rw [← Option.not_isSome_iff_eq_none, ← hSame.marked]
        exact not_not_intro hMark
      unfold exec
      dsimp only
      rcases fileOpen_cases hPossible hFair hNone hMark with
        ⟨hNe, hAfter⟩ | ⟨hZero, hPos, hAfter, -⟩
      · rw [if_neg hNe, hNone]
        exact ⟨iff_of_false (not_not_intro hAfter) nofun, nofun⟩
      · rw [if_pos hZero]
        refine ⟨iff_of_true hAfter rfl, fun h hHeld => ?_⟩
        cases hHeld
        exact ⟨rfl, hPos⟩
    · have hRefused : fileOpen a steps uuid s.file = (-ENOMEM, s.file) := if_pos hMark
      unfold exec
      dsimp only
      rw [hRefused]
      exact hSame
  | fread length a =>
    rcases Option.isSome_iff_exists.mp hPossible.1 with ⟨h, hHeld⟩
    have hMarked := hSame.marked
    unfold exec
    dsimp only
    rw [hHeld] at hMarked ⊢
    rcases fileRead_cases hPossible hFair hSame hHeld with ⟨-, hNil, hFile⟩ | ⟨-, -, hFile⟩
    · rw [hNil, hFile]
      refine ⟨hMarked, fun h' hHeld' => ?_⟩
      cases hHeld'
      exact hSame.same h hHeld
    · generalize fileRead a length s.file = r at hFile
      rw [hFile]
      refine ⟨hMarked, fun h' hHeld' => ?_⟩
      cases hHeld'
      exact ⟨(hSame.same h hHeld).1, rfl⟩
  | fclose =>
    unfold exec fileClose
    refine ⟨iff_of_false (not_not_intro ?_) nofun, nofun⟩
    by_cases hMark : s.file.entry.offsetAddress = 0
    · rw [if_neg (not_not_intro hMark)]
      exact hMark
    · rw [if_pos hMark]
      rfl

end Calls

/- One entry, with a UUID of one and four bytes at 96. -/
def oneEntry : Memory UInt8 :=
  fun i => if i = 16 then 1 else if i = 32 then 96 else if i = 40 then 4 else 0

/- The first entry can be read, and the payload, and no more. -/
def firstOnly : Answers where
  opened := 0
  seeked := 0
  read pos len :=
    if pos = 16 ∨ pos = 96 then .ok (oneEntry.slice pos len) else .error (-5)

theorem possible_firstOnly (s : DriverState) (uuid : Uuid) (steps : Nat) :
    Possible oneEntry s (.fopen uuid steps firstOnly) := by
  intro pos
  unfold firstOnly
  dsimp only
  by_cases hPos : pos = 16 ∨ pos = 96
  · rw [if_pos hPos]
  · rw [if_neg hPos]
    exact (by decide : (-5 : Int) ≠ 0)

end Tfa.Fip
