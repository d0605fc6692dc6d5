import BootFirmware.Uboot.Env.ImportSafety

/-
  The import in its buffer is the import that reads lists.

  Key definitions include:
    * `readBytes` and `ignoredCrs`
    * `importBuffer`

  The main results are:
    * `himportR_loop`
    * `himportR_eq_inPlace`
-/

----
-- Carriage Returns
----

namespace Uboot.Env

open List Option

/- The bytes of the text that the conversion reads. -/
def readBytes (left : Nat) (data : List UInt8) : List UInt8 :=
  (data.take left).takeWhile fun c => c != 0

theorem readBytes_cons {c : UInt8} (hNul : c ≠ 0) (left : Nat) (data : List UInt8) :
    readBytes (left + 1) (c :: data) = c :: readBytes left data := by
  unfold readBytes
  rw [take_succ_cons, takeWhile_cons, if_pos (bne_iff_ne.mpr hNul)]

theorem readBytes_nul (left : Nat) (data : List UInt8) :
    readBytes (left + 1) (0 :: data) = [] := by
  unfold readBytes
  rw [take_succ_cons]
  rfl

theorem length_dropCr_le (left : Nat) (data : List UInt8) :
    (dropCr left data).length ≤ (readBytes left data).length := by
  induction left generalizing data with
  | zero => exact Nat.zero_le _
  | succ left ih =>
    cases data with
    | nil => exact Nat.zero_le _
    | cons c data =>
      have hRest := ih data
      unfold dropCr
      by_cases hNul : c = 0
      · rw [if_pos hNul]
        exact Nat.zero_le _
      rw [if_neg hNul, readBytes_cons hNul, length_cons]
      split
      · omega
      · rw [length_cons]
        omega

theorem length_dropCr_cons (left : Nat) (c : UInt8) (data : List UInt8) :
    (dropCr (left + 1) (c :: data)).length ≤ (dropCr left data).length + 1 := by
  conv_lhs => unfold dropCr
  split
  · exact Nat.zero_le _
  split
  · omega
  · exact Nat.le_refl _

variable {orig kept : List UInt8}

theorem peek_kept {i : Nat} (hLe : kept.length ≤ i) :
    peek (kept ++ orig.drop kept.length) i = orig[i]? := by
  unfold peek
  rw [getElem?_append_right hLe, getElem?_drop]
  congr 1
  omega

/- A byte is moved down behind those that are kept. -/
theorem set_kept (hLt : kept.length < orig.length) (c : UInt8) :
    (kept ++ orig.drop kept.length).set kept.length c =
      (kept ++ [c]) ++ orig.drop (kept ++ [c]).length := by
  rw [set_append_right _ _ (Nat.le_refl _), Nat.sub_self,
    drop_eq_getElem_cons hLt, set_cons_zero, length_append, length_singleton, append_assoc]
  rfl

/- The bytes kept so far, before those not yet moved. -/
theorem crlfLoop_eq {size fuel dp ignoredCrs : Nat}
    (hCount :
      ignoredCrs + ((readBytes (size - dp) (orig.drop dp)).length -
          (dropCr (size - dp) (orig.drop dp)).length) < 2 ^ 32)
    (hLength : size < orig.length) (hKept : kept.length + ignoredCrs = dp) (hLe : dp ≤ size)
    (hFuel : size < dp + fuel) :
    crlfLoop size fuel (kept ++ orig.drop kept.length) dp ignoredCrs =
      some (kept ++ dropCr (size - dp) (orig.drop dp) ++
          orig.drop (kept ++ dropCr (size - dp) (orig.drop dp)).length,
        ignoredCrs + ((readBytes (size - dp) (orig.drop dp)).length -
            (dropCr (size - dp) (orig.drop dp)).length)) := by
  induction fuel generalizing kept dp ignoredCrs with
  | zero => omega
  | succ fuel ih =>
    unfold crlfLoop
    by_cases hEnd : size ≤ dp
    · rw [if_pos hEnd, Nat.sub_eq_zero_of_le hEnd]
      unfold dropCr
      rw [append_nil]
      rfl
    have hIn : dp < orig.length := by omega
    have hNextIn : dp + 1 < orig.length := by omega
    have hDrop := drop_eq_getElem_cons hIn
    have hLeft : size - dp = size - (dp + 1) + 1 := by omega
    have hPeek := @peek_kept orig kept dp (by omega)
    have hNext := @peek_kept orig kept (dp + 1) (by omega)
    rw [getElem?_eq_getElem hIn] at hPeek
    rw [getElem?_eq_getElem hNextIn] at hNext
    have hHead : (orig.drop (dp + 1)).head? = some orig[dp + 1] := by
      rw [head?_drop, getElem?_eq_getElem hNextIn]
    have hFewer := length_dropCr_le (size - (dp + 1)) (orig.drop (dp + 1))
    rw [hLeft, hDrop] at hCount
    rw [if_neg hEnd, hPeek, hLeft, hDrop]
    dsimp only
    by_cases hNul : orig[dp] = 0
    · rw [if_pos hNul, hNul, readBytes_nul]
      unfold dropCr
      rw [if_pos rfl, append_nil]
      rfl
    rw [readBytes_cons hNul, length_cons] at hCount
    rw [if_neg hNul, readBytes_cons hNul]
    have hOne := length_dropCr_cons (size - (dp + 1)) orig[dp] (orig.drop (dp + 1))
    -- A byte that is kept.
    have hMove := @ih (kept ++ [orig[dp]]) (dp + 1) ignoredCrs (by omega)
      (by rw [length_append, length_singleton]
          omega) (by omega) (by omega)
    rw [← set_kept (by omega), append_assoc kept, singleton_append] at hMove
    have hIndex : dp - ignoredCrs = kept.length := by omega
    have hPoke :
        poke (kept ++ orig.drop kept.length) (dp - ignoredCrs) orig[dp] =
          some ((kept ++ orig.drop kept.length).set kept.length orig[dp]) := by
      rw [hIndex]
      refine poke_of_lt ?_ _
      rw [length_append, length_drop]
      omega
    unfold dropCr at hCount ⊢
    rw [if_neg hNul, hHead] at hCount ⊢
    by_cases hCr : orig[dp] = 13 ∧ dp < size - 1
    · rw [if_pos hCr, hNext, map_some]
      by_cases hLf : orig[dp + 1] = 10
      · rw [hLf, if_pos ⟨hCr.1, by omega, rfl⟩] at hCount
        rw [hLf, if_pos ⟨hCr.1, by omega, rfl⟩, beq_self_eq_true]
        dsimp only
        rw [u32_of_lt (by omega), ih (by omega) (by omega) (by omega) (by omega), length_cons]
        congr 2
        omega
      · rw [beq_eq_false_iff_ne.mpr hLf, if_neg (by
          rintro ⟨-, -, hEq⟩
          exact hLf (Option.some.inj hEq))]
        rw [hPoke, bind_some, hMove, length_cons, length_cons, Nat.add_sub_add_right]
    · rw [if_neg hCr, if_neg (by
        rintro ⟨hEq, hPos, -⟩
        exact hCr ⟨hEq, by omega⟩)]
      rw [hPoke, bind_some, hMove, length_cons, length_cons, Nat.add_sub_add_right]

/- The number of bytes that the conversion leaves out. -/
def ignoredCrs (env : List UInt8) : Nat :=
  (readBytes env.length (env ++ [0])).length - (dropCr env.length (env ++ [0])).length

variable {env : List UInt8}

/- The conversion, if the count does not wrap. -/
theorem crlfLoop_eq_crlfToLf (hCount : ignoredCrs env < 2 ^ 32) :
    (crlfLoop env.length (env.length + 1) (env ++ [0]) 0 0).map (fun r => (r.1, env.length - r.2)) =
      some (crlfToLf (env ++ [0]) env.length) := by
  have hLength := length_append_zero env
  have hRun := @crlfLoop_eq (env ++ [0]) [] env.length (env.length + 1) 0 0
    (by rw [drop_zero, Nat.sub_zero, Nat.zero_add]
        exact hCount)
    (by omega) rfl (Nat.zero_le _) (by omega)
  rw [nil_append, length_nil, drop_zero, Nat.sub_zero, nil_append, Nat.zero_add] at hRun
  rw [hRun]
  rfl

----
-- The Import
----

/- What the import does after the loop. -/
def importRest (signed : Bool) (hooks : Hooks) (flag : Nat)
    (ended : Bool × List (Option CString) × HsearchData) :
    Option (Int × HsearchData) :=
  if ended.1 then
    (deleteRest signed hooks flag ended.2.1 ended.2.2).map fun htab => (1, htab)
  else
    some (0, ended.2.2)

theorem importRest_loopEnd (signed : Bool) (hooks : Hooks) (flag : Nat) (ok : Bool) (p : Parse) :
    importRest signed hooks flag (loopEnd ok p) =
      if ok then
        (deleteRest signed hooks flag p.localvars p.htab).map fun htab => (1, htab)
      else
        some (0, p.htab) := by
  cases ok with
  | true => rfl
  | false => rfl

/- The buffer, and the size of the text in it. -/
def importBuffer (env : List UInt8) (crlfIsLf : Bool) :
    List UInt8 × Nat :=
  if crlfIsLf then crlfToLf (env ++ [0]) env.length
  else (env ++ [0], env.length)

theorem himportR_loop (config : Config) (signed : Bool) (hooks : Hooks)
    (htab : Option HsearchData) (env : List UInt8) (sep : UInt8)
    (flag : Nat) (crlfIsLf : Bool) (vars : List CString) :
    himportR config signed hooks htab env env.length sep flag crlfIsLf vars =
      (importTable config htab env.length flag).bind
        fun htab =>
          if env.length = 0 then
            some (1, htab)
          else
            ((importLoop signed hooks sep flag
              ((importBuffer env crlfIsLf).1.length - (importBuffer env crlfIsLf).2)
              ((importBuffer env crlfIsLf).1.length + 1)
              ⟨(importBuffer env crlfIsLf).1, htab, vars.map some⟩).map
                  fun r => loopEnd r.1 r.2).bind (importRest signed hooks flag) := by
  unfold himportR importBuffer
  rw [if_neg (Nat.lt_irrefl _), take_length]
  cases importTable config htab env.length flag with
  | none => rfl
  | some htab =>
    rw [bind_some]
    dsimp only
    by_cases hEmpty : env.length = 0
    · rw [if_pos hEmpty, if_pos hEmpty]
    rw [if_neg hEmpty, if_neg hEmpty]
    generalize
      (if crlfIsLf then crlfToLf (env ++ [0]) env.length
        else (env ++ [0], env.length)) = buffer
    rcases buffer with ⟨data, size⟩
    cases importLoop signed hooks sep flag (data.length - size) (data.length + 1)
        ⟨data, htab, vars.map some⟩ with
    | none => rfl
    | some r =>
      rcases r with ⟨ok, p⟩
      cases ok with
      | true => rfl
      | false => rfl

/-
  The import that reads lists is the one that works in its
  buffer, if its count of carriage returns does not wrap.
-/
theorem himportR_eq_inPlace
    (config : Config) (signed : Bool) (hooks : Hooks) (htab : Option HsearchData) {crlfIsLf : Bool}
    (hCount : crlfIsLf = true → ignoredCrs env < 2 ^ 32)
    (sep : UInt8) (flag : Nat) (vars : List CString) :
    himportR config signed hooks htab env env.length sep flag crlfIsLf vars =
      himportInPlace config signed hooks htab env sep flag crlfIsLf vars := by
  have hLength := length_append_zero env
  have hLast := last_append_zero env
  -- The loop, from any buffer that ends with NUL.
  have hLoop : ∀ data size htab, data.length = env.length + 1 →
      data[env.length]? = some 0 → size ≤ env.length →
      ((importLoop signed hooks sep flag (data.length - size)
        (data.length + 1) ⟨data, htab, vars.map some⟩).map
          fun r => loopEnd r.1 r.2).bind (importRest signed hooks flag) =
        (parseLoop sep size (data.length + 1)
          ⟨data, 0, vars.map some, []⟩).bind fun r =>
            (runCalls signed hooks flag r.2.calls htab).bind
              fun htab =>
                if r.1 then
                  (deleteRest signed hooks flag r.2.localvars htab).map fun htab => (1, htab)
                else
                  some (0, htab) := by
    intro data size htab hData hZero hLe
    rcases parseLoop_buffer sep hData hZero hLe (vars.map some) with ⟨ok, s, hRun, -, hImport⟩
    rw [hRun, bind_some, hImport, bind_map]
    exact bind_congr fun htab' _ => importRest_loopEnd ..
  rw [himportR_loop]
  unfold himportInPlace himportParser importBuffer
  refine bind_congr fun htab _ => ?_
  by_cases hEmpty : env.length = 0
  · rw [if_pos hEmpty, if_pos hEmpty]
  rw [if_neg hEmpty, if_neg hEmpty]
  dsimp only
  cases crlfIsLf with
  | false =>
    rw [if_neg Bool.false_ne_true, if_neg Bool.false_ne_true, bind_some]
    exact hLoop _ _ htab hLength hLast (Nat.le_refl _)
  | true =>
    rcases @crlfLoop_ends _ _ (env.length + 1) 0 0
      hLength hLast (Nat.zero_le _) (by omega) with ⟨data, ignored, hConvert, hData, hZero⟩
    have hSame := crlfLoop_eq_crlfToLf (hCount rfl)
    rw [hConvert, map_some] at hSame
    rw [if_pos rfl, if_pos rfl, hConvert, map_some, bind_some, ← Option.some.inj hSame]
    exact hLoop _ _ htab hData hZero (Nat.sub_le _ _)

end Uboot.Env
