import BootFirmware.Uboot.Efi.OpenProtocol

/-
  Installing several protocols at once, or none.

  A failed call undoes what it did with the opposite service.
  Installing hands that service the address of the caller's
  handle, which is no handle, so that nothing is undone.

  Key definitions include:
    * `efiInstallMultipleProtocolInterfaces`
    * `efiUninstallMultipleProtocolInterfaces`
    * `AsBefore`, `Installable` and `Installed`

  The main result is `multiple_protocols_undone`.
-/

namespace Uboot.Efi.Installing

open List Function

open Protocols (Handle Guid NULL Status)

----
-- The Code
----

/-
  The objects, with the interfaces on each handle.  Only
  `efi_add_protocol` adds one, so a handle has no GUID twice.
  No protocol that a call is about is open.
-/
structure Database where
  objects : List Handle
  protocols : Handle → Guid → Option Nat

/- Two arguments of a call, and what `calloc` answers for them. -/
structure Pair where
  protocol : Guid
  interface : Nat
  calloc : Bool

/- `efi_allocate_pool`: a new object, or one of its errors. -/
inductive Pool where
  | object (handle : Handle)
  | noFreeMemory
  | overlap

def Database.put (db : Database) (handle : Handle) (protocol : Guid)
    (interface : Option Nat) : Database :=
  { db with
    protocols := update db.protocols handle
      (update (db.protocols handle) protocol interface) }

/- `efi_search_obj`. -/
def efiSearchObj (db : Database) (handle : Handle) : Bool :=
  decide (handle ∈ db.objects)

/- `efi_search_protocol`. -/
def efiSearchProtocol (db : Database) (handle : Handle) (protocol : Guid) : Except Status Nat :=
  if handle = NULL then .error .invalidParameter
  else if ¬ efiSearchObj db handle then .error .invalidParameter
  else
    match db.protocols handle protocol with
    | some interface => .ok interface
    | none => .error .notFound

/- `efi_add_handle`. -/
def efiAddHandle (handle : Handle) (db : Database) : Database where
  objects := db.objects ++ [handle]
  protocols := update db.protocols handle fun _ => none

/- `efi_create_handle`. -/
def efiCreateHandle (db : Database) : Pool → Except Status (Handle × Database)
  | .object handle => .ok (handle, efiAddHandle handle db)
  | .noFreeMemory => .error .notFound
  | .overlap => .error .outOfResources

/- `efi_add_protocol`. -/
def efiAddProtocol (db : Database) (handle : Handle) (pair : Pair) : Status × Database :=
  if ¬ efiSearchObj db handle then (.invalidParameter, db)
  else
    match efiSearchProtocol db handle pair.protocol with
    | .error .notFound =>
      if pair.calloc = false then (.outOfResources, db)
      else (.success, db.put handle pair.protocol (some pair.interface))
    | _ => (.invalidParameter, db)

/- `efi_remove_protocol`, which does not look at the interface. -/
def efiRemoveProtocol (db : Database) (handle : Handle) (pair : Pair) : Status × Database :=
  match efiSearchProtocol db handle pair.protocol with
  | .error r => (r, db)
  | .ok _ => (.success, db.put handle pair.protocol none)

/- A status, with `*handle` and the database after the call. -/
structure Reply where
  status : Status
  handle : Handle
  database : Database

/- `efi_install_protocol_interface`. -/
def efiInstallProtocolInterface (pool : Pool) (handle : Handle) (pair : Pair)
    (db : Database) : Reply :=
  match if handle = NULL then efiCreateHandle db pool else .ok (handle, db) with
  | .error r => ⟨r, handle, db⟩
  | .ok (handle, db) =>
    let r := efiAddProtocol db handle pair
    ⟨r.1, handle, r.2⟩

/- `efi_uninstall_protocol_interface`: nobody has the protocol open. -/
def efiUninstallProtocolInterface
    (db : Database) (handle : Handle) (pair : Pair) : Status × Database :=
  if ¬ efiSearchObj db handle then (.invalidParameter, db)
  else
    match efiSearchProtocol db handle pair.protocol with
    | .error r => (r, db)
    | .ok _ => efiRemoveProtocol db handle pair

/- The pairs up to the first that fails, counted. -/
def installLoop (pool : Pool) : List Pair → Handle → Database → Nat × Reply
  | [], handle, db => (0, ⟨.success, handle, db⟩)
  | pair :: pairs, handle, db =>
    let r := efiInstallProtocolInterface pool handle pair db
    if r.status ≠ .success then (0, r)
    else
      let rest := installLoop pool pairs r.handle r.database
      (rest.1 + 1, rest.2)

def undoInstall (handle : Handle) : Nat → List Pair → Database → Database
  | i + 1, pair :: pairs, db =>
    undoInstall handle i pairs (efiUninstallProtocolInterface db handle pair).2
  | _, _, db => db

/- The caller's variable for the handle. -/
structure Variable where
  address : Handle
  value : Handle

def efiInstallMultipleProtocolInterfaces (pool : Pool) (pairs : List Pair)
    (db : Database) : Option Variable → Status × Database
  | none => (.invalidParameter, db)
  | some handle =>
    let r := installLoop pool pairs handle.value db
    if r.2.status = .success then (r.2.status, r.2.database)
    -- `handle` is the address here, not `*handle`
    else (r.2.status, undoInstall handle.address r.1 pairs r.2.database)

def uninstallLoop (handle : Handle) : List Pair → Database → Nat × Status × Database
  | [], db => (0, .success, db)
  | pair :: pairs, db =>
    let r := efiUninstallProtocolInterface db handle pair
    if r.1 ≠ .success then (0, r)
    else
      let rest := uninstallLoop handle pairs r.2
      (rest.1 + 1, rest.2)

def undoUninstall (pool : Pool) (handle : Handle) : Nat → List Pair → Database → Database
  | i + 1, pair :: pairs, db =>
    undoUninstall pool handle i pairs (efiInstallProtocolInterface pool handle pair db).database
  | _, _, db => db

def efiUninstallMultipleProtocolInterfaces (pool : Pool) (pairs : List Pair) (db : Database)
    (handle : Handle) : Status × Database :=
  if handle = NULL then (.invalidParameter, db)
  else
    let r := uninstallLoop handle pairs db
    if r.2.1 = .success then r.2
    else (r.2.1, undoUninstall pool handle r.1 pairs r.2.2)

----
-- All Or Nothing
----

/- The handles, and the interfaces on them, are the same. -/
structure AsBefore (db db' : Database) : Prop where
  objects : ∀ handle, handle ∈ db'.objects ↔ handle ∈ db.objects
  protocols : ∀ handle ∈ db.objects, db'.protocols handle = db.protocols handle

/- A call that fails leaves the database as it was. -/
def AllOrNothing (db : Database) (r : Status × Database) : Prop :=
  r.1 ≠ .success → AsBefore db r.2

/- Where the objects and the variable of the caller are in memory. -/
structure Placed (db : Database) (pool : Pool) (handle : Option Variable) : Prop where
  null : NULL ∉ db.objects
  new : ∀ new, pool = .object new → new ≠ NULL ∧ new ∉ db.objects
  apart : ∀ v ∈ handle, v.address ∉ db.objects ∧ pool ≠ .object v.address

/- New on a handle without protocols. -/
def Fresh (pairs : List Pair) : Prop :=
  (∀ p ∈ pairs, p.calloc = true) ∧ (pairs.map Pair.protocol).Nodup

def Installable (db : Database) (handle : Handle) (pairs : List Pair) : Prop :=
  (∀ p ∈ pairs, handle ∈ db.objects ∧ db.protocols handle p.protocol = none) ∧ Fresh pairs

def Installed (db : Database) (handle : Handle) (pairs : List Pair) : Prop :=
  (∀ p ∈ pairs, handle ∈ db.objects ∧ db.protocols handle p.protocol ≠ none) ∧
    (pairs.map Pair.protocol).Nodup

/- All pairs are installed, or the call fails before any change. -/
def NothingToUndo (db : Database) (pool : Pool) (pairs : List Pair) : Option Variable → Prop
  | none => True
  | some handle =>
    if handle.value = NULL then (∀ new, pool ≠ .object new) ∨ Fresh pairs
    else
      Installable db handle.value pairs ∨
        ∀ first ∈ pairs.head?, ¬ Installable db handle.value [first]

/- All pairs are removed, or there is memory for those that were. -/
def CanUndo (db : Database) (pairs : List Pair) (handle : Handle) : Prop :=
  Installed db handle pairs ∨
    ∀ ps p, ps ++ [p] <+: pairs → Installed db handle (ps ++ [p]) → p.calloc = true

----
-- One Pair
----

section

variable {db db' : Database} {handle : Handle} {pool : Pool} {pair : Pair} {pairs : List Pair}

theorem put_self (protocol g : Guid) (interface : Option Nat) :
    (db.put handle protocol interface).protocols handle g =
      if g = protocol then interface else db.protocols handle g := by
  simp [Database.put, update_apply]

theorem installable_cons (interface : Nat) :
    Installable db handle (pair :: pairs) ↔ Installable db handle [pair] ∧
        Installable (db.put handle pair.protocol (some interface)) handle pairs := by
  have hObjects : (db.put handle pair.protocol (some interface)).objects = db.objects := rfl
  unfold Installable Fresh
  simp only [put_self, hObjects, map_cons, nodup_cons, mem_map, forall_mem_cons]
  grind

theorem installed_cons :
    Installed db handle (pair :: pairs) ↔
      Installed db handle [pair] ∧ Installed (db.put handle pair.protocol none) handle pairs := by
  have hObjects : (db.put handle pair.protocol none).objects = db.objects := rfl
  unfold Installed
  simp only [put_self, hObjects, map_cons, nodup_cons, mem_map, forall_mem_cons]
  grind

theorem Installed.shorter
    {ps : List Pair} (hInstalled : Installed db handle pairs) (hPrefix : ps <+: pairs) :
    Installed db handle ps :=
  ⟨fun p hp => hInstalled.1 p (hPrefix.subset hp), hInstalled.2.sublist (hPrefix.sublist.map _)⟩

variable (hHandle : handle ≠ NULL)
include hHandle

theorem install_cases (pool : Pool) (pair : Pair) (db : Database) :
    (Installable db handle [pair] ∧ efiInstallProtocolInterface pool handle pair db =
          ⟨.success, handle, db.put handle pair.protocol (some pair.interface)⟩) ∨
      ¬ Installable db handle [pair] ∧
        ∃ r, r ≠ .success ∧ efiInstallProtocolInterface pool handle pair db = ⟨r, handle, db⟩ := by
  unfold efiInstallProtocolInterface
  rw [if_neg hHandle]
  dsimp only
  unfold efiAddProtocol efiSearchProtocol efiSearchObj Installable Fresh
  rw [if_neg hHandle]
  by_cases hObject : handle ∈ db.objects
  · cases hThere : db.protocols handle pair.protocol with
    | some interface => simp [hObject, hThere]
    | none => cases hMemory : pair.calloc <;> simp [hObject, hThere, hMemory]
  · simp [hObject]

theorem uninstall_cases (pair : Pair) (db : Database) :
    (Installed db handle [pair] ∧ efiUninstallProtocolInterface db handle pair =
          (.success, db.put handle pair.protocol none)) ∨
      ¬ Installed db handle [pair] ∧
        ∃ r, r ≠ .success ∧ efiUninstallProtocolInterface db handle pair = (r, db) := by
  unfold efiUninstallProtocolInterface efiRemoveProtocol efiSearchProtocol efiSearchObj Installed
  rw [if_neg hHandle]
  by_cases hObject : handle ∈ db.objects
  · cases hThere : db.protocols handle pair.protocol <;> simp [hObject, hThere]
  · simp [hObject]

----
-- Installing
----

theorem installLoop_success (pool : Pool) :
    (installLoop pool pairs handle db).2.status = .success ↔ Installable db handle pairs := by
  induction pairs generalizing db with
  | nil => exact iff_of_true rfl ⟨nofun, nofun, nodup_nil⟩
  | cons pair pairs ih =>
    rw [installable_cons pair.interface, installLoop]
    rcases install_cases hHandle pool pair db with ⟨hCan, hRun⟩ | ⟨hNot, r, hr, hRun⟩
    · rw [hRun, and_iff_right hCan, ← ih]
      simp
    · rw [hRun]
      simp [hNot, hr]

theorem installLoop_grows (pool : Pool) (pairs : List Pair) (db : Database) :
    (installLoop pool pairs handle db).2.database.objects = db.objects ∧
      ∀ g, db.protocols handle g ≠ none →
        (installLoop pool pairs handle db).2.database.protocols handle g ≠ none := by
  induction pairs generalizing db with
  | nil => exact ⟨rfl, fun _ h => h⟩
  | cons pair pairs ih =>
    rw [installLoop]
    rcases install_cases hHandle pool pair db with ⟨-, hRun⟩ | ⟨-, r, hr, hRun⟩
    · rw [hRun]
      have hRest := ih (db.put handle pair.protocol (some pair.interface))
      refine ⟨hRest.1, fun g hg => hRest.2 g ?_⟩
      rw [put_self]
      split_ifs
      · exact nofun
      · exact hg
    · rw [hRun]
      rw [if_pos hr]
      exact ⟨rfl, fun _ h => h⟩

end

theorem undoInstall_address {db : Database} {address : Handle}
    (hAddress : address ∉ db.objects) (i : Nat) (pairs : List Pair) :
    undoInstall address i pairs db = db := by
  induction pairs generalizing i with
  | nil => cases i <;> rfl
  | cons pair pairs ih =>
    cases i with
    | zero => rfl
    | succ i =>
      have hNone : efiUninstallProtocolInterface db address pair = (.invalidParameter, db) := by
        simp [efiUninstallProtocolInterface, efiSearchObj, hAddress]
      rw [undoInstall, hNone]
      exact ih i

theorem AsBefore.refl (db : Database) : AsBefore db db :=
  ⟨fun _ => Iff.rfl, fun _ _ => rfl⟩

/- Nothing is undone. -/
theorem install_eq
    {db : Database} {pool : Pool} {v : Variable} {pairs : List Pair} {r : Nat × Reply}
    (hLoop : installLoop pool pairs v.value db = r) (hAddress : v.address ∉ r.2.database.objects) :
    efiInstallMultipleProtocolInterfaces pool pairs db (some v) = (r.2.status, r.2.database) := by
  unfold efiInstallMultipleProtocolInterfaces
  dsimp only
  rw [hLoop, undoInstall_address hAddress]
  split_ifs <;> rfl

theorem install_undone_existing {db : Database} {v : Variable}
    (hAddress : v.address ∉ db.objects) (hNull : v.value ≠ NULL) (pool : Pool) (pairs : List Pair) :
    AllOrNothing db (efiInstallMultipleProtocolInterfaces pool pairs db (some v)) ↔
      Installable db v.value pairs ∨ ∀ first ∈ pairs.head?, ¬ Installable db v.value [first] := by
  have hGrows := installLoop_grows hNull pool pairs db
  rw [install_eq rfl (by rw [hGrows.1]; exact hAddress), ← installLoop_success hNull pool]
  cases pairs with
  | nil => exact iff_of_true (fun h => absurd rfl h) (Or.inl rfl)
  | cons pair pairs =>
    rcases install_cases hNull pool pair db with ⟨hCan, hRun⟩ | ⟨hNot, r, hr, hRun⟩
    · rw [or_iff_left fun h => h pair rfl hCan]
      refine ⟨fun h => ?_, fun h hNot => absurd h hNot⟩
      by_contra hNot
      rcases hCan.1 pair mem_cons_self with ⟨hObject, hBefore⟩
      have hSame := (h hNot).protocols v.value hObject
      have hThere := (installLoop_grows hNull pool pairs
        (db.put v.value pair.protocol (some pair.interface))).2 pair.protocol
          (by rw [put_self, if_pos rfl]; exact nofun)
      rw [installLoop, hRun] at hSame
      exact hThere ((congrFun hSame pair.protocol).trans hBefore)
    · rw [installLoop, hRun]
      rw [if_pos hr]
      exact iff_of_true (fun _ => AsBefore.refl db)
        (Or.inr fun first hFirst => Option.some.inj hFirst ▸ hNot)

theorem install_undone_new {db : Database} {pool : Pool} {v : Variable}
    (hPlaced : Placed db pool (some v)) (hNull : v.value = NULL) (pairs : List Pair) :
    AllOrNothing db (efiInstallMultipleProtocolInterfaces pool pairs db (some v)) ↔
      (∀ new, pool ≠ .object new) ∨ Fresh pairs := by
  rcases hPlaced.apart v rfl with ⟨hAddress, hApart⟩
  cases pairs with
  | nil => exact iff_of_true (fun h => absurd rfl h) (Or.inr ⟨nofun, nodup_nil⟩)
  | cons pair pairs =>
    cases pool with
    | object new =>
      rcases hPlaced.new new rfl with ⟨hNew, hOut⟩
      have hLoop : installLoop (.object new) (pair :: pairs) v.value db =
          installLoop (.object new) (pair :: pairs) new (efiAddHandle new db) := by
        rw [installLoop, installLoop, hNull]
        unfold efiInstallProtocolInterface
        rw [if_pos rfl, if_neg hNew]
        rfl
      have hFresh : Installable (efiAddHandle new db) new (pair :: pairs) ↔ Fresh (pair :: pairs) :=
        and_iff_right fun _ _ => by simp [efiAddHandle]
      have hSuccess := (installLoop_success hNew (.object new)).trans hFresh
      have hObjects :=
        (installLoop_grows hNew (.object new) (pair :: pairs) (efiAddHandle new db)).1
      generalize installLoop (.object new) (pair :: pairs) new (efiAddHandle new db) = r
        at hLoop hSuccess hObjects
      have hSlot : v.address ≠ new := fun h => hApart (h ▸ rfl)
      rw [install_eq hLoop (by simp [hObjects, efiAddHandle, hAddress, hSlot]), ← hSuccess,
        or_iff_right (by simp)]
      refine ⟨fun h => ?_, fun h hNot => absurd h hNot⟩
      by_contra hNot
      have hIn := ((h hNot).objects new).mp (by simp [hObjects, efiAddHandle])
      exact hOut hIn
    | noFreeMemory | overlap =>
      refine iff_of_true (fun _ => ?_) (Or.inl nofun)
      simp [efiInstallMultipleProtocolInterfaces, installLoop, efiInstallProtocolInterface,
        efiCreateHandle, undoInstall, hNull, AsBefore.refl]

----
-- Uninstalling
----

/- The protocols of the pairs have changed, and nothing else. -/
structure Changed
    (db db' : Database) (handle : Handle) (pairs : List Pair)
    (after : Pair → Option Nat) : Prop where
  objects : db'.objects = db.objects
  others : ∀ h, h ≠ handle → db'.protocols h = db.protocols h
  kept : ∀ g, g ∉ pairs.map Pair.protocol → db'.protocols handle g = db.protocols handle g
  changed : ∀ p ∈ pairs, db'.protocols handle p.protocol = after p

section

variable {db db₁ db₂ : Database} {handle : Handle} {pair : Pair} {pairs : List Pair}
  {after after' : Pair → Option Nat}

theorem Changed.trans
    (hFirst : Changed db db₁ handle pairs after') (hNext : Changed db₁ db₂ handle pairs after) :
    Changed db db₂ handle pairs after where
  objects := hNext.objects.trans hFirst.objects
  others h hNe := (hNext.others h hNe).trans (hFirst.others h hNe)
  kept g hg := (hNext.kept g hg).trans (hFirst.kept g hg)
  changed := hNext.changed

theorem Changed.cons
    (hNext : Changed (db.put handle pair.protocol (after pair)) db₂ handle pairs after)
    (hNew : pair.protocol ∉ pairs.map Pair.protocol) :
    Changed db db₂ handle (pair :: pairs) after where
  objects := hNext.objects
  others h hNe := (hNext.others h hNe).trans (update_of_ne hNe _ _)
  kept g hg := by
    rw [map_cons, mem_cons, not_or] at hg
    rw [hNext.kept g hg.2, put_self, if_neg hg.1]
  changed := by
    rw [forall_mem_cons]
    refine ⟨?_, hNext.changed⟩
    rw [hNext.kept _ hNew, put_self, if_pos rfl]

variable (hHandle : handle ≠ NULL)
include hHandle

/- The pairs before the first that is not installed are removed. -/
theorem uninstallLoop_changed (pairs : List Pair) (db : Database) :
    ∃ ps post r db', pairs = ps ++ post ∧ uninstallLoop handle pairs db = (ps.length, r, db') ∧
      Installed db handle ps ∧ Changed db db' handle ps (fun _ => none) ∧
      (r = .success ∧ post = [] ∨
        r ≠ .success ∧ ∃ p ∈ post.head?, ¬ Installed db handle (ps ++ [p])) := by
  induction pairs generalizing db with
  | nil =>
    exact ⟨[], [], .success, db, rfl, rfl, ⟨nofun, nodup_nil⟩,
      ⟨rfl, fun _ _ => rfl, fun _ _ => rfl, nofun⟩, Or.inl ⟨rfl, rfl⟩⟩
  | cons pair pairs ih =>
    rw [uninstallLoop]
    rcases uninstall_cases hHandle pair db with ⟨hCan, hRun⟩ | ⟨hNot, r, hr, hRun⟩
    · rcases ih (db.put handle pair.protocol none) with
        ⟨ps, post, r, db', rfl, hLoop, hInstalled, hChanged, hEnd⟩
      have hAll := installed_cons.mpr ⟨hCan, hInstalled⟩
      refine ⟨pair :: ps, post, r, db', rfl, ?_, hAll, hChanged.cons (nodup_cons.mp hAll.2).1, ?_⟩
      · rw [hRun]
        rw [if_neg (not_not.mpr rfl), hLoop]
        rfl
      · refine hEnd.imp_right fun ⟨hr, p, hp, hNot⟩ => ⟨hr, p, hp, fun h => hNot ?_⟩
        exact (installed_cons.mp h).2
    · refine ⟨[], pair :: pairs, r, db, rfl, ?_, ⟨nofun, nodup_nil⟩,
        ⟨rfl, fun _ _ => rfl, fun _ _ => rfl, nofun⟩, Or.inr ⟨hr, pair, rfl, hNot⟩⟩
      rw [hRun]
      rw [if_pos hr]
      rfl

/- They are installed again where there is memory. -/
theorem undoUninstall_changed
    {ps : List Pair} (pool : Pool) (post : List Pair) (hObject : ps ≠ [] → handle ∈ db.objects)
    (hNone : ∀ p ∈ ps, db.protocols handle p.protocol = none)
    (hNodup : (ps.map Pair.protocol).Nodup) :
    Changed db (undoUninstall pool handle ps.length (ps ++ post) db) handle ps
      fun p => if p.calloc then some p.interface else none := by
  induction ps generalizing db with
  | nil =>
    have hStop : undoUninstall pool handle 0 post db = db := by cases post <;> rfl
    rw [length_nil, nil_append, hStop]
    exact ⟨rfl, fun _ _ => rfl, fun _ _ => rfl, nofun⟩
  | cons p ps ih =>
    rw [forall_mem_cons] at hNone
    rw [map_cons, nodup_cons] at hNodup
    have hStep : (efiInstallProtocolInterface pool handle p db).database =
        db.put handle p.protocol (if p.calloc then some p.interface else none) := by
      rcases install_cases hHandle pool p db with ⟨hCan, hRun⟩ | ⟨hNot, r, hr, hRun⟩
      · rw [hRun, if_pos (hCan.2.1 p mem_cons_self)]
      · have hMemory : ¬ p.calloc = true := fun h =>
          hNot ⟨by simp [hObject, hNone.1], by simp [h], by simp⟩
        rw [hRun, if_neg hMemory]
        unfold Database.put
        rw [← hNone.1, update_eq_self, update_eq_self]
    refine Changed.cons ?_ hNodup.1
    rw [length_cons, cons_append, undoUninstall, hStep]
    refine ih (fun _ => hObject nofun) (fun q hq => ?_) hNodup.2
    have hNe : q.protocol ≠ p.protocol := fun h => hNodup.1 (h ▸ mem_map_of_mem hq)
    rw [put_self, if_neg hNe]
    exact hNone.2 q hq

end

/- The first pair that is not installed is found out from the prefixes. -/
theorem canUndo_iff
    {db : Database} {handle : Handle} {ps post : List Pair} (hInstalled : Installed db handle ps)
    (hStops : ∃ p ∈ post.head?, ¬ Installed db handle (ps ++ [p])) :
    CanUndo db (ps ++ post) handle ↔ ∀ p ∈ ps, p.calloc = true := by
  rcases hStops with ⟨q, hFirst, hNot⟩
  rcases head?_eq_some_iff.mp hFirst with ⟨post', rfl⟩
  have hPrefix : ps ++ [q] <+: ps ++ q :: post' := ⟨post', by simp⟩
  unfold CanUndo
  rw [or_iff_right fun h => hNot (h.shorter hPrefix)]
  constructor
  · intro h p hp
    rcases append_of_mem hp with ⟨before, behind, rfl⟩
    have hHere : before ++ [p] <+: before ++ p :: behind := ⟨behind, by simp⟩
    exact h before p (hHere.trans (prefix_append _ _)) (hInstalled.shorter hHere)
  · intro h before p hHere hThere
    have hShort : before ++ [p] <+: ps := by
      rcases prefix_or_prefix_of_prefix hHere hPrefix with hShort | hLong
      · rcases prefix_concat_iff.mp hShort with hEq | hShort
        · exact absurd (hEq ▸ hThere) hNot
        · exact hShort
      · exact absurd (hThere.shorter hLong) hNot
    exact h p (hShort.subset (mem_append_right _ mem_cons_self))

theorem uninstall_undone {db : Database} {handle : Handle} {pairs : List Pair}
    (pool : Pool) (hObjects : NULL ∉ db.objects)
    (hNames : ∀ p ∈ pairs, ∀ i, db.protocols handle p.protocol = some i → i = p.interface) :
    AllOrNothing db (efiUninstallMultipleProtocolInterfaces pool pairs db handle) ↔
      CanUndo db pairs handle := by
  unfold efiUninstallMultipleProtocolInterfaces
  by_cases hNull : handle = NULL
  · rw [if_pos hNull]
    refine iff_of_true (fun _ => AsBefore.refl db) (Or.inr fun ps p _ hInstalled => ?_)
    have hIn := (hInstalled.1 p (mem_append_right _ mem_cons_self)).1
    exact absurd (hNull ▸ hIn) hObjects
  rw [if_neg hNull]
  rcases uninstallLoop_changed hNull pairs db with
    ⟨ps, post, r, db', rfl, hLoop, hInstalled, hChanged, hEnd⟩
  rw [hLoop]
  rcases hEnd with ⟨hr, rfl⟩ | ⟨hr, hStops⟩
  · rw [if_pos hr]
    exact iff_of_true (fun h => absurd hr h) (Or.inl (by rwa [append_nil]))
  have hUndo := hChanged.trans (undoUninstall_changed hNull pool post
    (fun hne => hChanged.objects ▸ (hInstalled.1 _ (head_mem hne)).1)
    hChanged.changed hInstalled.2)
  rw [if_neg hr, canUndo_iff hInstalled hStops]
  -- what was installed is what the pair names
  have hBefore : ∀ p ∈ ps, db.protocols handle p.protocol = some p.interface := by
    intro p hp
    rcases Option.ne_none_iff_exists'.mp (hInstalled.1 p hp).2 with ⟨i, hi⟩
    rw [hi, hNames p (mem_append_left _ hp) i hi]
  constructor
  · intro h p hp
    have hSame := (h hr).protocols handle (hInstalled.1 p hp).1
    have hAfter := hUndo.changed p hp
    rw [hSame, hBefore p hp] at hAfter
    by_contra hMemory
    rw [if_neg hMemory] at hAfter
    cases hAfter
  · intro hMemory _
    refine ⟨fun h => by rw [hUndo.objects], fun h _ => ?_⟩
    by_cases hHere : h = handle
    · subst hHere
      funext g
      by_cases hg : g ∈ ps.map Pair.protocol
      · rcases mem_map.mp hg with ⟨p, hp, rfl⟩
        rw [hUndo.changed p hp, if_pos (hMemory p hp), hBefore p hp]
      · exact hUndo.kept g hg
    · exact hUndo.others h hHere

----
-- Both Calls
----

theorem multiple_protocols_undone {db : Database} {pool : Pool} {handle : Option Variable}
    (hPlaced : Placed db pool handle) (pairs : List Pair) :
    (AllOrNothing db (efiInstallMultipleProtocolInterfaces pool pairs db handle) ↔
        NothingToUndo db pool pairs handle) ∧
      ∀ handle, (∀ p ∈ pairs, ∀ i, db.protocols handle p.protocol = some i → i = p.interface) →
        (AllOrNothing db (efiUninstallMultipleProtocolInterfaces pool pairs db handle) ↔
          CanUndo db pairs handle) := by
  refine ⟨?_, fun handle hNames => uninstall_undone pool hPlaced.null hNames⟩
  cases handle with
  | none => exact iff_of_true (fun _ => AsBefore.refl db) trivial
  | some v =>
    unfold NothingToUndo
    dsimp only
    split_ifs with hNull
    · exact install_undone_new hPlaced hNull pairs
    · exact install_undone_existing (hPlaced.apart v rfl).1 hNull pool pairs

/- A handle with no protocol, and with one. -/
def bare : Database := ⟨[1], fun _ _ => none⟩

def single : Database := bare.put 1 7 (some 70)

theorem multiple_protocols_undone_single :
    AllOrNothing single (efiInstallMultipleProtocolInterfaces .overlap [⟨7, 70, true⟩] single
      (some ⟨9, 1⟩)) ∧
    AllOrNothing single (efiUninstallMultipleProtocolInterfaces .overlap
      [⟨7, 70, true⟩, ⟨8, 80, true⟩] single 1) := by
  have hPlaced : Placed single .overlap (some ⟨9, 1⟩) :=
    ⟨by decide, nofun, fun v hv => Option.some.inj hv ▸ ⟨by decide, nofun⟩⟩
  constructor
  · refine (multiple_protocols_undone hPlaced _).1.mpr (Or.inr fun first hFirst hCan => ?_)
    have hNone := (hCan.1 first mem_cons_self).2
    cases hFirst
    revert hNone
    decide
  · refine ((multiple_protocols_undone hPlaced _).2 1 ?_).mpr (Or.inr fun ps p hIn _ => ?_)
    · simp [single, bare, Database.put]
    · have hPair := hIn.subset (mem_append_right ps mem_cons_self)
      rcases mem_pair.mp hPair with rfl | rfl <;> rfl

/- The second pair fails, and the first stays installed. -/
theorem install_keeps_first :
    ¬ AllOrNothing bare (efiInstallMultipleProtocolInterfaces .overlap
      [⟨7, 70, true⟩, ⟨7, 71, true⟩] bare (some ⟨9, 1⟩)) := by
  intro h
  have hSame := congrFun ((h (by decide)).protocols 1 (by decide)) 7
  revert hSame
  decide

end Uboot.Efi.Installing
