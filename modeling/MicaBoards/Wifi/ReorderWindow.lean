import MicaBoards.Wifi.ReorderAccount

/-
  The reorder buffer on numbers without an end. The window is
  counted on from the first sequence number of the session;
  when its size divides 4096 a number has its list as its
  sequence number has, and the loops of the driver go from
  list to list.

  Key definitions include:
    * `Reorder.start`, `Reorder.Tracks`
    * `Forced`, `Scan`
  Main declarations:
    * `forced_skwReorderForceRelease`
    * `scan_releaseTurn`
-/

------------------------------------------------------------
-- Lists
------------------------------------------------------------

namespace MicaBoards

namespace Wifi

theorem half_snModulo :
    snModulo / 2 + snModulo / 2 = snModulo := by decide

/- Of a number in a u16 the sequence number is left. -/
theorem u16_mod (sn : Nat) :
    u16 sn % snModulo = sn % snModulo :=
  Nat.mod_mod_of_dvd sn (by decide)

/- Near numbers are compared as they are. -/
theorem snLess_iff
    {sn sn' n n' : Nat}
    (hSn : sn % snModulo = n % snModulo)
    (hSn' : sn' % snModulo = n' % snModulo)
    (hBehind : n' - n < snModulo / 2)
    (hAhead : n - n' ≤ snModulo / 2) :
    snLess sn sn' = true ↔ n < n' := by
  have hSame : snLess sn sn' = snLess n n' := by
    unfold snLess
    rw [← SerialNumbers.less_mod, hSn, hSn',
      SerialNumbers.less_mod]
  rw [hSame]
  exact
    SerialNumbers.less_iff_of_near hBehind hAhead half_snModulo

theorem snInc_mod (sn : Nat) :
    snInc sn % snModulo = (sn + 1) % snModulo :=
  Nat.mod_mod (sn + 1) snModulo

theorem add_one_mod
    {sn n : Nat}
    (hSn : sn % snModulo = n % snModulo) :
    (sn + 1) % snModulo = (n + 1) % snModulo := by
  rw [Nat.add_mod, hSn, ← Nat.add_mod]

namespace Reorder

variable {α : Type}
variable {reorder : Reorder α}

/- Two near numbers with one list are the same. -/
theorem eq_of_mod_winSize
    {size n n' : Nat}
    (hSame : n % size = n' % size)
    (hLe : n ≤ n')
    (hNear : n' < n + size) :
    n = n' :=
  SerialNumbers.eq_of_mod_eq hSame (by omega) hNear

theorem slot_setSlot_of_ne
    {sn n : Nat}
    (hOther : n % reorder.winSize ≠ sn % reorder.winSize)
    (slot : Slot α) :
    (reorder.setSlot sn slot).slot n = reorder.slot n := by
  show
    Function.update reorder.reorderBuf (sn % reorder.winSize)
      slot (n % reorder.winSize) = reorder.slot n
  rw [Function.update_of_ne hOther]
  rfl

theorem slot_setSlot_of_eq
    {sn n : Nat}
    (hSame : n % reorder.winSize = sn % reorder.winSize)
    (slot : Slot α) :
    (reorder.setSlot sn slot).slot n = slot := by
  show
    Function.update reorder.reorderBuf (sn % reorder.winSize)
      slot (n % reorder.winSize) = slot
  rw [hSame, Function.update_self]

/- Numbers that are sent alike have one list. -/
theorem slot_congr
    (hRegular : reorder.winSize ∣ snModulo)
    {sn n : Nat}
    (hSame : sn % snModulo = n % snModulo) :
    reorder.slot sn = reorder.slot n := by
  unfold slot
  rw [← Nat.mod_mod_of_dvd sn hRegular, hSame,
    Nat.mod_mod_of_dvd n hRegular]

/- No list has frames. -/
def Vacant (reorder : Reorder α) : Prop :=
  ∀ n, (reorder.slot n).frames = []

/- No list is in use when none is counted. -/
theorem vacant_of_inUse
    (hSize : 0 < reorder.winSize)
    (hUnused : reorder.inUse = 0) :
    reorder.Vacant := by
  intro n
  have hIn :
      n % reorder.winSize ∈ Finset.range reorder.winSize :=
    Finset.mem_range.mpr (Nat.mod_lt n hSize)
  have hWeight := Finset.sum_eq_zero_iff.mp hUnused _ hIn
  by_contra hFrames
  have hUsed : (reorder.slot n).frames.isEmpty = false := by
    rw [Bool.eq_false_iff]
    exact fun hEmpty => hFrames (List.isEmpty_iff.mp hEmpty)
  have hOne := weight_of_not_isEmpty hUsed
  exact absurd (hOne.symm.trans hWeight) Nat.one_ne_zero

theorem Vacant.reorderBuf
    {i : Nat}
    (hVacant : reorder.Vacant)
    (hIn : i < reorder.winSize) :
    (reorder.reorderBuf i).frames = [] := by
  have hFrames := hVacant i
  unfold slot at hFrames
  rwa [Nat.mod_eq_of_lt hIn] at hFrames

theorem buffered_of_vacant
    (hVacant : reorder.Vacant) :
    reorder.buffered = 0 := by
  refine Finset.sum_eq_zero fun i hIn => ?_
  unfold Slot.tags
  rw [hVacant.reorderBuf (Finset.mem_range.mp hIn)]
  rfl

------------------------------------------------------------
-- The Window's Numbers
------------------------------------------------------------

/- The number at which the window starts. -/
def start (ssn : Nat) (reorder : Reorder α) : Nat :=
  ssn + reorder.moved

/-
  The window starts at the sequence number of its number; its
  size is regular, and its lists are counted.
-/
structure Tracks (ssn : Nat) (reorder : Reorder α) : Prop where
  regular : reorder.winSize ∣ snModulo
  small : reorder.winSize < snModulo / 2
  counted : reorder.inUse ≤ reorder.storedNum
  number : reorder.winStart % snModulo =
    reorder.start ssn % snModulo

variable {ssn : Nat}

theorem Tracks.size_pos (hTracks : Tracks ssn reorder) :
    0 < reorder.winSize :=
  Nat.pos_of_dvd_of_pos hTracks.regular snModulo_pos

/- A step that keeps the frames, and the number in step. -/
theorem Tracks.of_keeps
    {after : Reorder α}
    {taken : Multiset α}
    (hTracks : Tracks ssn reorder)
    (hKeeps : Keeps reorder after taken)
    (hNumber :
      after.winStart % snModulo = after.start ssn % snModulo) :
    Tracks ssn after where
  regular := hKeeps.winSize ▸ hTracks.regular
  small := hKeeps.winSize ▸ hTracks.small
  counted := hKeeps.counted hTracks.counted
  number := hNumber

theorem number_advance
    (hNumber :
      reorder.winStart % snModulo =
        reorder.start ssn % snModulo) :
    reorder.advance.winStart % snModulo =
      reorder.advance.start ssn % snModulo :=
  (snInc_mod reorder.winStart).trans (add_one_mod hNumber)

theorem number_moveTo
    (hNumber :
      reorder.winStart % snModulo =
        reorder.start ssn % snModulo)
    (sn : Nat) :
    (reorder.moveTo sn).winStart % snModulo =
      (reorder.moveTo sn).start ssn % snModulo := by
  have hSum :=
    SerialNumbers.add_sub_mod snModulo_pos sn reorder.winStart
  show
    sn % snModulo =
      (ssn + (reorder.moved + snSub sn reorder.winStart)) %
        snModulo
  unfold start at hNumber
  rw [← hSum, Nat.add_mod, hNumber, ← Nat.add_mod, Nat.add_assoc]
  rfl

theorem Tracks.delTimer (hTracks : Tracks ssn reorder) :
    Tracks ssn reorder.delTimer :=
  ⟨hTracks.regular, hTracks.small, hTracks.counted,
    hTracks.number⟩

theorem Tracks.slot_winStart (hTracks : Tracks ssn reorder) :
    reorder.slot reorder.winStart =
      reorder.slot (reorder.start ssn) :=
  slot_congr hTracks.regular hTracks.number

theorem Tracks.vacant
    (hTracks : Tracks ssn reorder)
    (hStored : reorder.storedNum = 0) :
    reorder.Vacant :=
  vacant_of_inUse hTracks.size_pos
    (Nat.eq_zero_of_le_zero (hStored ▸ hTracks.counted))

------------------------------------------------------------
-- The Forced Release
------------------------------------------------------------

/- A list is emptied, and the others stay as they are. -/
structure Cleared
    (n : Nat)
    (before after : Reorder α) : Prop where
  winSize : after.winSize = before.winSize
  emptied : (after.slot n).frames = []
  others :
    ∀ n', n' % before.winSize ≠ n % before.winSize →
      after.slot n' = before.slot n'

theorem cleared_setSlot
    (hRegular : reorder.winSize ∣ snModulo)
    {sn n : Nat}
    (hSame : sn % snModulo = n % snModulo) :
    Cleared n reorder (reorder.setSlot sn .empty) := by
  have hList : n % reorder.winSize = sn % reorder.winSize := by
    rw [← Nat.mod_mod_of_dvd n hRegular, ← hSame,
      Nat.mod_mod_of_dvd sn hRegular]
  refine ⟨rfl, ?_, fun n' hOther => ?_⟩
  · rw [slot_setSlot_of_eq hList]
    rfl
  · exact
      slot_setSlot_of_ne (fun hMod => hOther (hMod.trans hList.symm))
        .empty

theorem Cleared.frames
    {n : Nat}
    {before after : Reorder α}
    (hCleared : Cleared n before after)
    (n' : Nat) :
    after.slot n' = before.slot n' ∨
      (after.slot n').frames = [] := by
  by_cases hOther :
      n' % before.winSize = n % before.winSize
  · refine .inr ?_
    have hSame : after.slot n' = after.slot n := by
      unfold slot
      rw [hCleared.winSize, hOther]
    rw [hSame]
    exact hCleared.emptied
  · exact .inl (hCleared.others n' hOther)

/- No timer is set, and what there is to do is kept. -/
structure Calm (before after : Reorder α) : Prop where
  timer :
    after.timerPending = true → before.timerPending = true
  todo : after.todo = before.todo

theorem Calm.trans
    {first second third : Reorder α}
    (hFirst : Calm first second)
    (hSecond : Calm second third) :
    Calm first third where
  timer hPending := hFirst.timer (hSecond.timer hPending)
  todo := hSecond.todo.trans hFirst.todo

theorem cleared_forceTurn (hTracks : Tracks ssn reorder) :
    Cleared (reorder.start ssn) reorder (forceTurn reorder) ∧
      (forceTurn reorder).winStart = reorder.winStart ∧
      (forceTurn reorder).moved = reorder.moved ∧
      Calm reorder (forceTurn reorder) := by
  have hCleared :=
    cleared_setSlot hTracks.regular hTracks.number
  unfold forceTurn
  simp only
  split_ifs with hEmpty
  · refine ⟨⟨rfl, ?_, fun _ _ => rfl⟩, rfl, rfl, id, rfl⟩
    rw [← hTracks.slot_winStart]
    exact List.isEmpty_iff.mp hEmpty
  · exact
      ⟨⟨rfl, hCleared.emptied, hCleared.others⟩, rfl, rfl, id,
        rfl⟩
  · exact
      ⟨⟨rfl, hCleared.emptied, hCleared.others⟩, rfl, rfl, id,
        rfl⟩

/- The turn after which the window starts one further on. -/
theorem tracks_forceTurn (hTracks : Tracks ssn reorder) :
    Tracks ssn (forceTurn reorder).advance := by
  rcases cleared_forceTurn hTracks with ⟨-, hStart, hMoved, -⟩
  refine
    hTracks.of_keeps
      ((keeps_forceTurn hTracks.size_pos).trans
        (keeps_advance _))
      (number_advance ?_)
  unfold start
  rw [hStart, hMoved]
  exact hTracks.number

/-
  What the loop brings about, up to a number: the lists before
  it are empty. The window starts there, unless the frames
  gave out before.
-/
structure Forced
    (ssn target : Nat)
    (before after : Reorder α) : Prop where
  tracks : Tracks ssn after
  winSize : after.winSize = before.winSize
  watch : Calm before after
  frames :
    ∀ n, after.slot n = before.slot n ∨
      (after.slot n).frames = []
  emptied :
    ∀ n, before.start ssn ≤ n → n < target →
      (after.slot n).frames = []
  forward : before.start ssn ≤ after.start ssn
  reached :
    after.start ssn = target ∨
      after.start ssn + 1 = target ∧ after.Vacant
  held :
    ∀ n, before.start ssn ≤ n →
      n < before.start ssn + before.winSize →
      target ≤ n + 1 → (before.slot n).frames ≠ [] →
      after.start ssn = target

/- There is nothing to do at the number itself. -/
theorem forced_refl
    (hTracks : Tracks ssn reorder) :
    Forced ssn (reorder.start ssn) reorder reorder where
  tracks := hTracks
  winSize := rfl
  watch := ⟨id, rfl⟩
  frames _ := .inl rfl
  emptied _ hLow hHigh := absurd hHigh (Nat.not_lt_of_le hLow)
  forward := Nat.le_refl _
  reached := .inl rfl
  held _ _ _ _ _ := rfl

/- Without frames the window moves at once. -/
theorem forced_moveTo
    {toSn last : Nat}
    (hTracks : Tracks ssn reorder)
    (hToSn : toSn % snModulo = last % snModulo)
    (hAhead : reorder.start ssn ≤ last)
    (hNear : last - reorder.start ssn < snModulo)
    (hStored : reorder.storedNum = 0) :
    Forced ssn (last + 1) reorder (reorder.moveTo toSn) := by
  have hVacant := hTracks.vacant hStored
  have hDistance :
      snSub toSn reorder.winStart = last - reorder.start ssn := by
    unfold snSub
    rw [← SerialNumbers.sub_mod_left,
      ← SerialNumbers.sub_mod_right, hToSn, hTracks.number,
      SerialNumbers.sub_mod_left, SerialNumbers.sub_mod_right,
      SerialNumbers.sub_of_le hAhead hNear]
  have hStart : (reorder.moveTo toSn).start ssn = last := by
    have hMoved :
        (reorder.moveTo toSn).start ssn =
          reorder.start ssn + snSub toSn reorder.winStart :=
      (Nat.add_assoc ..).symm
    rw [hMoved, hDistance]
    omega
  exact
    { tracks :=
        ⟨hTracks.regular, hTracks.small, hTracks.counted,
          number_moveTo hTracks.number toSn⟩
      winSize := rfl
      watch := ⟨id, rfl⟩
      frames := fun _ => .inl rfl
      emptied := fun n _ _ => hVacant n
      forward := hStart ▸ hAhead
      reached := .inr ⟨congrArg (· + 1) hStart, hVacant⟩
      held := fun n _ _ _ hHeld => absurd (hVacant n) hHeld }

/- A turn at the window's start, and then what follows it. -/
theorem Forced.after_turn
    {last : Nat}
    {after : Reorder α}
    (hTracks : Tracks ssn reorder)
    (hAhead : reorder.start ssn ≤ last)
    (hRest :
      Forced ssn (last + 1) (forceTurn reorder).advance after) :
    Forced ssn (last + 1) reorder after := by
  rcases cleared_forceTurn hTracks with
    ⟨hCleared, hWinStart, hMoved, hWatch⟩
  have hStart :
      (forceTurn reorder).advance.start ssn =
        reorder.start ssn + 1 :=
    congrArg (fun moved => ssn + (moved + 1)) hMoved
  have hForward := hRest.forward
  refine
    { tracks := hRest.tracks
      winSize := hRest.winSize.trans hCleared.winSize
      watch :=
        ⟨fun hPending => hWatch.timer (hRest.watch.timer hPending),
          hRest.watch.todo.trans hWatch.todo⟩
      frames := fun n => ?_
      emptied := fun n hLow hHigh => ?_
      forward := by omega
      reached := hRest.reached
      held := fun n hLow hHigh hLast hHeld => ?_ }
  · rcases hRest.frames n with hSame | hEmpty
    · rcases hCleared.frames n with hSlot | hNone
      · exact .inl (hSame.trans hSlot)
      · exact .inr ((congrArg Slot.frames hSame).trans hNone)
    · exact .inr hEmpty
  · by_cases hFirst : n = reorder.start ssn
    · rcases hRest.frames n with hSame | hEmpty
      · rw [hSame, hFirst]
        exact hCleared.emptied
      · exact hEmpty
    · exact hRest.emptied n (by omega) hHigh
  · by_cases hFirst : n = reorder.start ssn
    · -- The turn was the last one.
      rcases hRest.reached with hDone | ⟨hBefore, -⟩
      · exact hDone
      · omega
    · have hOther :
          n % reorder.winSize ≠
            reorder.start ssn % reorder.winSize := fun hMod =>
        hFirst (eq_of_mod_winSize hMod.symm hLow hHigh).symm
      have hSlot := hCleared.others n hOther
      refine hRest.held n (by omega) ?_ hLast ?_
      · have hSize :
            (forceTurn reorder).advance.winSize =
              reorder.winSize := hCleared.winSize
        rw [hSize]
        omega
      · exact fun hNone =>
          hHeld ((congrArg Slot.frames hSlot).symm.trans hNone)

theorem forced_forceLoop
    {toSn last turns : Nat}
    (hTracks : Tracks ssn reorder)
    (hToSn : toSn % snModulo = last % snModulo)
    (hAhead : reorder.start ssn ≤ last + 1)
    (hNear : last + 1 - reorder.start ssn < snModulo / 2)
    (hTurns : last + 1 ≤ reorder.start ssn + turns) :
    Forced ssn (last + 1) reorder
      (forceLoop toSn (snInc toSn) turns reorder) := by
  have hTarget :
      snInc toSn % snModulo = (last + 1) % snModulo :=
    (snInc_mod toSn).trans (add_one_mod hToSn)
  induction turns generalizing reorder with
  | zero =>
      have hThere : last + 1 = reorder.start ssn := by omega
      rw [hThere]
      exact forced_refl hTracks
  | succ turns ih =>
      have hLess :=
        snLess_iff hTracks.number hTarget hNear (by omega)
      unfold forceLoop
      split_ifs with hOn hStored
      · have hLast : reorder.start ssn ≤ last :=
          Nat.le_of_lt_succ (hLess.mp hOn)
        have hHalf := half_snModulo
        exact
          forced_moveTo hTracks hToSn hLast (by omega) hStored
      · have hLast : reorder.start ssn ≤ last :=
          Nat.le_of_lt_succ (hLess.mp hOn)
        rcases cleared_forceTurn hTracks with ⟨-, -, hMoved, -⟩
        have hStart :
            (forceTurn reorder).advance.start ssn =
              reorder.start ssn + 1 :=
          congrArg (fun moved => ssn + (moved + 1)) hMoved
        refine Forced.after_turn hTracks hLast (ih ?_ ?_ ?_ ?_)
        · exact tracks_forceTurn hTracks
        · omega
        · omega
        · omega
      · have hThere : last + 1 = reorder.start ssn := by
          have hNot := mt hLess.mpr hOn
          omega
        rw [hThere]
        exact forced_refl hTracks

/- The timer may go before the loop starts. -/
theorem forced_skwReorderForceRelease
    (current : Bool)
    {toSn last : Nat}
    (hTracks : Tracks ssn reorder)
    (hToSn : toSn % snModulo = last % snModulo)
    (hAhead : reorder.start ssn ≤ last + 1)
    (hNear : last + 1 - reorder.start ssn < snModulo / 2) :
    Forced ssn (last + 1) reorder
      (skwReorderForceRelease current reorder toSn) := by
  have hTurns : last + 1 ≤ reorder.start ssn + snModulo := by
    have hHalf := half_snModulo
    omega
  unfold skwReorderForceRelease
  simp only
  split_ifs
  · have hLoop :=
      @forced_forceLoop α reorder.delTimer ssn toSn last snModulo
        hTracks.delTimer hToSn hAhead hNear hTurns
    exact
      { hLoop with
        watch :=
          ⟨fun hPending =>
            absurd (hLoop.watch.timer hPending) Bool.false_ne_true,
            hLoop.watch.todo⟩ }
  · exact forced_forceLoop hTracks hToSn hAhead hNear hTurns

/- A number that is not behind is less than half ahead. -/
theorem snSub_lt_of_snLess
    {sn winStart : Nat}
    (hLess : snLess winStart (snInc sn) = true) :
    snSub sn winStart + 1 < snModulo / 2 := by
  have hLt := SerialNumbers.sub_lt (a := sn) (b := winStart) snModulo_pos
  have hSum := SerialNumbers.add_sub_mod snModulo_pos sn winStart
  have hHalf := half_snModulo
  have hTarget :
      snInc sn % snModulo =
        (winStart + (snSub sn winStart + 1)) % snModulo := by
    rw [snInc_mod, ← Nat.add_assoc]
    exact add_one_mod hSum.symm
  unfold snLess SerialNumbers.less at hLess
  rw [decide_eq_true_eq, ← SerialNumbers.sub_mod_right, hTarget,
    SerialNumbers.sub_mod_right] at hLess
  by_cases hFull : snSub sn winStart + 1 = snModulo
  · -- A whole turn ahead is no distance at all.
    rw [hFull, ← SerialNumbers.sub_mod_right, Nat.add_mod_right,
      SerialNumbers.sub_mod_right,
      SerialNumbers.sub_of_le (le_refl _) (by omega)] at hLess
    omega
  · have hBelow : snSub sn winStart < snModulo := hLt
    rw [SerialNumbers.sub_of_lt (by omega) (by omega)] at hLess
    omega

/-
  Any number that is not behind the window is the sequence
  number of one that is less than half a turn ahead.
-/
theorem skwReorderForceRelease_cases
    (current : Bool)
    (toSn : Nat)
    (hTracks : Tracks ssn reorder) :
    (∃ last, reorder.start ssn ≤ last ∧
        Forced ssn (last + 1) reorder
          (skwReorderForceRelease current reorder toSn)) ∨
      skwReorderForceRelease current reorder toSn = reorder ∨
      skwReorderForceRelease current reorder toSn =
        reorder.delTimer := by
  cases hLess : snLess reorder.winStart (snInc toSn) with
  | true =>
      have hNear := snSub_lt_of_snLess hLess
      have hToSn :
          toSn % snModulo =
            (reorder.start ssn + snSub toSn reorder.winStart) %
              snModulo := by
        rw [Nat.add_mod, ← hTracks.number, ← Nat.add_mod]
        exact
          (SerialNumbers.add_sub_mod snModulo_pos toSn
            reorder.winStart).symm
      refine
        .inl
          ⟨reorder.start ssn + snSub toSn reorder.winStart,
            Nat.le_add_right _ _, ?_⟩
      exact
        forced_skwReorderForceRelease current hTracks hToSn
          (by omega) (by omega)
  | false =>
      have hStay (reorder' : Reorder α)
          (hSame : reorder'.winStart = reorder.winStart) :
          forceLoop toSn (snInc toSn) snModulo reorder' =
            reorder' := by
        show
          (if snLess reorder'.winStart (snInc toSn) then _
            else reorder') = reorder'
        rw [hSame, hLess]
        rfl
      unfold skwReorderForceRelease
      simp only
      split_ifs
      · exact .inr (.inr (hStay reorder.delTimer rfl))
      · exact .inr (.inl (hStay reorder rfl))

end Reorder

------------------------------------------------------------
-- The Release Loop
------------------------------------------------------------

section Turns

variable {α : Type}

/- What a turn of `skw_reorder_release` finds and does. -/
inductive Turn
    (timeout : Timeout)
    (jiffies : Nat)
    (release : Bool)
    (sn : Nat)
    (reorder : Reorder α) : ReleaseTurn α → Prop
| drained
    (hStored : reorder.storedNum = 0) :
    Turn timeout jiffies release sn reorder
      (.stop reorder.delTimer)
| watched
    (hNone : (reorder.slot sn).frames = [])
    (hPending : reorder.timerPending = true) :
    Turn timeout jiffies release sn reorder (.stop reorder)
| gap
    (hNone : (reorder.slot sn).frames = []) :
    Turn timeout jiffies release sn reorder
      (.next false reorder)
| young
    (hHeld : (reorder.slot sn).frames ≠ [])
    (hYoung :
      isSkwMsduTimeout timeout jiffies (reorder.slot sn) =
        false) :
    Turn timeout jiffies release sn reorder
      (.stop
        (skwSetReorderTimer timeout jiffies reorder (u16 sn)))
| forced
    (hHeld : (reorder.slot sn).frames ≠ [])
    (hGap : release = false) :
    Turn timeout jiffies release sn reorder
      (.next true
        (skwReorderForceRelease true reorder (u16 sn)))
| purged
    (reorder' : Reorder α)
    (hTimer :
      reorder' = reorder ∨ reorder' = reorder.delTimer)
    (hHeld : (reorder.slot sn).frames ≠ [])
    (hLevel : release = true)
    (hTaint : (reorder.slot sn).taint = true) :
    Turn timeout jiffies release sn reorder
      (.next false (reorder'.purgeSlot sn))
| released
    (reorder' : Reorder α)
    (hTimer :
      reorder' = reorder ∨ reorder' = reorder.delTimer)
    (hHeld : (reorder.slot sn).frames ≠ [])
    (hLevel : release = true) :
    Turn timeout jiffies release sn reorder
      (.next true
        ((reorder'.releaseSlot sn).advance.stored
          (reorder'.storedNum - 1)))
| waits
    (reorder' : Reorder α)
    (hTimer :
      reorder' = reorder ∨ reorder' = reorder.delTimer)
    (hHeld : (reorder.slot sn).frames ≠ [])
    (hYoung :
      isSkwMsduTimeout timeout jiffies (reorder.slot sn) =
        false) :
    Turn timeout jiffies release sn reorder
      (.stop
        (skwSetReorderTimer timeout jiffies reorder' (u16 sn)))

variable {timeout : Timeout}
variable {jiffies : Nat}
variable {release : Bool}
variable {sn : Nat}
variable {reorder : Reorder α}

/- A pending timer is left alone. -/
theorem skwSetReorderTimer_of_pending
    (hPending : reorder.timerPending = true) :
    skwSetReorderTimer timeout jiffies reorder sn = reorder :=
  if_pos hPending

theorem turn_releaseHead
    (reorder' : Reorder α)
    (hTimer :
      reorder' = reorder ∨ reorder' = reorder.delTimer)
    (hHeld : (reorder.slot sn).frames ≠ [])
    (hLevel : release = true) :
    Turn timeout jiffies release sn reorder
      (releaseHead timeout jiffies sn reorder') := by
  have hSlot : reorder'.slot sn = reorder.slot sn := by
    rcases hTimer with hSame | hSame
    · rw [hSame]
    · rw [hSame]
      rfl
  unfold releaseHead
  simp only [hSlot]
  split_ifs with hTaint hReady hPending
  · exact .purged reorder' hTimer hHeld hLevel hTaint
  · exact .released reorder' hTimer hHeld hLevel
  · rw [← @skwSetReorderTimer_of_pending α timeout jiffies
      (u16 sn) reorder' hPending]
    refine .waits reorder' hTimer hHeld ?_
    exact Bool.eq_false_iff.mpr fun hOld =>
      hReady ((congrArg _ hOld).trans (Bool.or_true _))
  · refine .waits reorder' hTimer hHeld ?_
    exact Bool.eq_false_iff.mpr fun hOld =>
      hReady ((congrArg _ hOld).trans (Bool.or_true _))

theorem turn_releaseTurn
    (timeout : Timeout)
    (jiffies : Nat)
    (release : Bool)
    (sn : Nat)
    (reorder : Reorder α) :
    Turn timeout jiffies release sn reorder
      (releaseTurn timeout jiffies release sn reorder) := by
  unfold releaseTurn
  simp only
  split_ifs with hStored hNone hPending hGap hYoung
  · exact .drained hStored
  · exact .watched (List.isEmpty_iff.mp hNone) hPending
  · exact .gap (List.isEmpty_iff.mp hNone)
  · exact .young (mt List.isEmpty_iff.mpr hNone) hYoung
  · exact .forced (mt List.isEmpty_iff.mpr hNone) hGap
  · exact
      turn_releaseHead _ (Reorder.delHeadTimer_cases reorder)
        (mt List.isEmpty_iff.mpr hNone)
        (Bool.eq_true_of_not_eq_false hGap)

/-
  The loop from one number on, at another: the lists between
  them are empty, and so the window has not come further. It
  is level with the loop when that releases.
-/
structure Scan
    (ssn first here : Nat)
    (release : Bool)
    (sn : Nat)
    (reorder : Reorder α) : Prop where
  tracks : reorder.Tracks ssn
  number : sn % snModulo = here % snModulo
  low : first ≤ reorder.start ssn
  behind : reorder.start ssn ≤ here
  level : release = true → reorder.start ssn = here
  within : here ≤ first + reorder.winSize
  visited :
    ∀ n, first ≤ n → n < here → (reorder.slot n).frames = []

variable {ssn first here : Nat}

theorem Scan.slot_sn
    (hScan : Scan ssn first here release sn reorder) :
    reorder.slot sn = reorder.slot here :=
  Reorder.slot_congr hScan.tracks.regular hScan.number

theorem Scan.delTimer
    (hScan : Scan ssn first here release sn reorder) :
    Scan ssn first here release sn reorder.delTimer :=
  ⟨hScan.tracks.delTimer, hScan.number, hScan.low, hScan.behind,
    hScan.level, hScan.within, hScan.visited⟩

/- The loop goes on past a list that is empty by then. -/
theorem Scan.next
    {release' : Bool}
    {after : Reorder α}
    (hScan : Scan ssn first here release sn reorder)
    (hWithin : here < first + reorder.winSize)
    (hTracks : after.Tracks ssn)
    (hSize : after.winSize = reorder.winSize)
    (hFrames :
      ∀ n, after.slot n = reorder.slot n ∨
        (after.slot n).frames = [])
    (hEmptied : (after.slot here).frames = [])
    (hLow : first ≤ after.start ssn)
    (hBehind : after.start ssn ≤ here + 1)
    (hLevel : release' = true → after.start ssn = here + 1) :
    Scan ssn first (here + 1) release' (sn + 1) after where
  tracks := hTracks
  number := add_one_mod hScan.number
  low := hLow
  behind := hBehind
  level := hLevel
  within := by
    rw [hSize]
    omega
  visited n hFirst hHere := by
    by_cases hAt : n = here
    · rw [hAt]
      exact hEmptied
    · rcases hFrames n with hSame | hEmpty
      · rw [hSame]
        exact hScan.visited n hFirst (by omega)
      · exact hEmpty

/- The forced release comes to the list, as it is in use. -/
theorem Scan.forced
    (hScan : Scan ssn first here release sn reorder)
    (hWithin : here < first + reorder.winSize)
    (hHeld : (reorder.slot sn).frames ≠ []) :
    Reorder.Forced ssn (here + 1) reorder
        (skwReorderForceRelease true reorder (u16 sn)) ∧
      (skwReorderForceRelease true reorder (u16 sn)).start ssn =
        here + 1 := by
  have hLow := hScan.low
  have hBehind := hScan.behind
  have hSmall := hScan.tracks.small
  have hForced :=
    Reorder.forced_skwReorderForceRelease true hScan.tracks
      ((u16_mod sn).trans hScan.number) (by omega) (by omega)
  refine ⟨hForced, hForced.held here hBehind ?_ (le_refl _) ?_⟩
  · omega
  · rw [← hScan.slot_sn]
    exact hHeld

theorem Scan.timer
    {reorder' : Reorder α}
    (hScan : Scan ssn first here release sn reorder)
    (hTimer :
      reorder' = reorder ∨ reorder' = reorder.delTimer) :
    Scan ssn first here release sn reorder' := by
  rcases hTimer with hSame | hSame
  · exact hSame ▸ hScan
  · exact hSame ▸ hScan.delTimer

theorem Scan.purged
    (hScan : Scan ssn first here release sn reorder)
    (hWithin : here < first + reorder.winSize) :
    Scan ssn first (here + 1) false (sn + 1)
      (reorder.purgeSlot sn) := by
  have hCleared :=
    Reorder.cleared_setSlot hScan.tracks.regular hScan.number
  exact
    hScan.next hWithin
      (hScan.tracks.of_keeps
        (Reorder.keeps_purged hScan.tracks.size_pos sn)
        hScan.tracks.number)
      rfl hCleared.frames hCleared.emptied hScan.low
      (Nat.le_succ_of_le hScan.behind)
      (fun hLevel => absurd hLevel Bool.false_ne_true)

theorem Scan.released
    (hScan : Scan ssn first here release sn reorder)
    (hWithin : here < first + reorder.winSize)
    (hHeld : (reorder.slot sn).frames ≠ [])
    (hLevel : reorder.start ssn = here) :
    Scan ssn first (here + 1) true (sn + 1)
      ((reorder.releaseSlot sn).advance.stored
        (reorder.storedNum - 1)) := by
  have hCleared :=
    Reorder.cleared_setSlot hScan.tracks.regular hScan.number
  have hUsed : (reorder.slot sn).frames.isEmpty = false :=
    Bool.eq_false_iff.mpr (mt List.isEmpty_iff.mp hHeld)
  have hStart : reorder.start ssn + 1 = here + 1 :=
    congrArg (· + 1) hLevel
  have hLow := hScan.low
  exact
    hScan.next hWithin
      (hScan.tracks.of_keeps
        ((Reorder.keeps_releaseSlot hScan.tracks.size_pos
            hUsed).trans (Reorder.keeps_advance _))
        (Reorder.number_advance hScan.tracks.number))
      rfl hCleared.frames hCleared.emptied
      (Nat.le_succ_of_le hLow) (Nat.le_of_eq hStart)
      (fun _ => hStart)

/- A turn that goes on has emptied its list. -/
theorem scan_releaseTurn
    {release' : Bool}
    {after : Reorder α}
    (hScan : Scan ssn first here release sn reorder)
    (hWithin : here < first + reorder.winSize)
    (hNext :
      releaseTurn timeout jiffies release sn reorder =
        .next release' after) :
    Scan ssn first (here + 1) release' (sn + 1) after := by
  have hTurn :=
    turn_releaseTurn timeout jiffies release sn reorder
  have hSlot := hScan.slot_sn
  have hLow := hScan.low
  have hBehind := hScan.behind
  rw [hNext] at hTurn
  cases hTurn with
  | gap hNone =>
      refine
        hScan.next hWithin hScan.tracks rfl (fun _ => .inl rfl)
          ?_ hLow (by omega) ?_
      · rw [← hSlot]
        exact hNone
      · exact fun hLevel => absurd hLevel Bool.false_ne_true
  | forced hHeld hGap =>
      rcases hScan.forced hWithin hHeld with ⟨hForced, hStart⟩
      refine
        hScan.next hWithin hForced.tracks hForced.winSize
          hForced.frames ?_ ?_ (hStart.le) (fun _ => hStart)
      · exact hForced.emptied here hBehind (Nat.lt_succ_self here)
      · omega
  | purged reorder' hTimer hHeld hLevel hTaint =>
      have hScan' := hScan.timer hTimer
      refine hScan'.purged ?_
      rcases hTimer with hSame | hSame
      · exact hSame ▸ hWithin
      · exact hSame ▸ hWithin
  | released reorder' hTimer hHeld hLevel =>
      have hScan' := hScan.timer hTimer
      rcases hTimer with hSame | hSame
      · rw [hSame] at hScan' ⊢
        exact
          hScan'.released hWithin hHeld (hScan.level hLevel)
      · rw [hSame] at hScan' ⊢
        exact
          hScan'.released hWithin hHeld (hScan.level hLevel)

/- The loop starts level with the window. -/
theorem scan_winStart
    (hTracks : reorder.Tracks ssn) :
    Scan ssn (reorder.start ssn) (reorder.start ssn) true
      reorder.winStart reorder where
  tracks := hTracks
  number := hTracks.number
  low := Nat.le_refl _
  behind := Nat.le_refl _
  level _ := rfl
  within := Nat.le_add_right _ _
  visited _ hFirst hHere := absurd hHere (Nat.not_lt_of_le hFirst)

end Turns

------------------------------------------------------------
-- A Frame In Its List
------------------------------------------------------------

section Placing

variable {α : Type}

/- A list with one more frame. -/
inductive Added
    (slot : Slot α)
    (skb : Skb α) : Slot α → Prop
| alone
    (hNone : slot.frames = [])
    (hMsdu : skb.desc.isAmsdu = false) :
    Added slot skb { slot with frames := slot.frames ++ [skb] }
| amsdu
    (hAmsdu : skb.desc.isAmsdu = true)
    (hNew : slot.bitmap &&& amsduBit skb.desc.amsduIdx = 0) :
    Added slot skb (slot.addAmsdu skb)

theorem Added.frames
    {slot after : Slot α}
    {skb : Skb α}
    (hAdded : Added slot skb after) :
    after.frames = slot.frames ++ [skb] := by
  cases hAdded with
  | alone hNone hMsdu => rfl
  | amsdu hAmsdu hNew => rfl

/- What becomes of a frame that the window takes. -/
inductive Placing
    (reorder : Reorder α)
    (release : Bool)
    (skb : Skb α) : Placed α → Prop
| dropped
    (count : Nat) :
    Placing reorder release skb
      ⟨(reorder.stored count).freeSkb skb, release, false⟩
| held
    (slot : Slot α)
    (hAdded : Added (reorder.slot skb.desc.sn) skb slot)
    (count : Nat) :
    Placing reorder release skb
      ⟨(reorder.setSlot skb.desc.sn slot).stored count, release,
        true⟩
| tainted
    (slot : Slot α)
    (hAdded : Added (reorder.slot skb.desc.sn) skb slot)
    (hTaint : slot.taint = true)
    (count : Nat) :
    Placing reorder release skb
      ⟨(((reorder.setSlot skb.desc.sn slot).stored
        count).purgeSlot skb.desc.sn).advance, release, false⟩
| headed
    (slot : Slot α)
    (hAdded : Added (reorder.slot skb.desc.sn) skb slot)
    (hHead : skb.desc.sn = reorder.winStart)
    (count : Nat) :
    Placing reorder release skb
      ⟨(((reorder.setSlot skb.desc.sn slot).stored
        count).releaseSlot skb.desc.sn).delHeadTimer.advance,
        true, true⟩

theorem placing_reorderComplete
    {reorder : Reorder α}
    {release : Bool}
    {skb : Skb α}
    {slot : Slot α}
    (hAdded : Added (reorder.slot skb.desc.sn) skb slot)
    (count : Nat) :
    Placing reorder release skb
      (reorderComplete
        ((reorder.setSlot skb.desc.sn slot).stored count) release
        skb.desc.sn reorder.winStart) := by
  unfold reorderComplete
  split_ifs with hHead
  · exact .headed slot hAdded hHead count
  · exact .held slot hAdded (count + 1)

theorem placing_reorderPlace
    (reorder : Reorder α)
    (release : Bool)
    (skb : Skb α) :
    Placing reorder release skb
      (reorderPlace reorder release skb) := by
  unfold reorderPlace
  split_ifs with hAmsdu
  · unfold reorderAmsdu
    simp only
    obtain ⟨count, hCount⟩ :
        ∃ count,
          (if (reorder.slot skb.desc.sn).frames.isEmpty then
              reorder.stored (reorder.storedNum + 1)
            else reorder) = reorder.stored count := by
      split_ifs
      · exact ⟨_, rfl⟩
      · exact ⟨reorder.storedNum, rfl⟩
    rw [hCount]
    split_ifs with hDup hWait hTaint
    · exact .dropped count
    · exact .held _ (.amsdu hAmsdu (not_not.mp hDup)) count
    · exact
        .tainted _ (.amsdu hAmsdu (not_not.mp hDup)) hTaint
          (count - 1)
    · exact
        placing_reorderComplete (.amsdu hAmsdu (not_not.mp hDup))
          (count - 1)
  · unfold reorderMsdu
    simp only
    split_ifs with hUsed
    · exact .dropped reorder.storedNum
    · rw [Bool.not_eq_false] at hUsed
      exact
        placing_reorderComplete
          (.alone (List.isEmpty_iff.mp hUsed)
            (Bool.eq_false_iff.mpr hAmsdu))
          reorder.storedNum

/- The window is in step, whatever becomes of the frame. -/
theorem tracks_reorderPlace
    {ssn : Nat}
    {reorder : Reorder α}
    (hTracks : reorder.Tracks ssn)
    (release : Bool)
    (skb : Skb α) :
    (reorderPlace reorder release skb).reorder.Tracks ssn := by
  refine
    hTracks.of_keeps
      (Reorder.keeps_reorderPlace hTracks.size_pos release skb) ?_
  have hPlacing := placing_reorderPlace reorder release skb
  generalize reorderPlace reorder release skb = placed
    at hPlacing ⊢
  cases hPlacing with
  | dropped count => exact hTracks.number
  | held slot hAdded count => exact hTracks.number
  | tainted slot hAdded hTaint count =>
      exact Reorder.number_advance hTracks.number
  | headed slot hAdded hHead count =>
      rcases
        Reorder.delHeadTimer_cases
          (((reorder.setSlot skb.desc.sn slot).stored
            count).releaseSlot skb.desc.sn) with
        hSame | hSame
      · rw [hSame]
        exact Reorder.number_advance hTracks.number
      · rw [hSame]
        exact Reorder.number_advance hTracks.number

end Placing

------------------------------------------------------------
-- The Steps
------------------------------------------------------------

section Steps

variable {α : Type}
variable {ssn : Nat}
variable {reorder : Reorder α}

/- The timer does not touch the window. -/
theorem skwSetReorderTimer_window
    (timeout : Timeout)
    (jiffies sn : Nat) :
    (skwSetReorderTimer timeout jiffies reorder sn).winStart =
        reorder.winStart ∧
      (skwSetReorderTimer timeout jiffies reorder sn).moved =
        reorder.moved := by
  unfold skwSetReorderTimer
  cases hPending : reorder.timerPending with
  | true => exact ⟨rfl, rfl⟩
  | false =>
      cases hFrames : (reorder.slot sn).frames with
      | nil => exact ⟨rfl, rfl⟩
      | cons skb rest =>
          simp only [Bool.false_eq_true, if_false]
          split_ifs
          · exact ⟨rfl, rfl⟩
          · exact ⟨rfl, rfl⟩
          · exact ⟨rfl, rfl⟩

theorem tracks_skwSetReorderTimer
    (timeout : Timeout)
    (jiffies sn : Nat)
    (hTracks : reorder.Tracks ssn) :
    (skwSetReorderTimer timeout jiffies reorder sn).Tracks
      ssn := by
  refine
    hTracks.of_keeps
      (Reorder.keeps_skwSetReorderTimer timeout jiffies reorder sn)
      ?_
  rcases @skwSetReorderTimer_window α reorder timeout jiffies sn
    with ⟨hStart, hMoved⟩
  unfold Reorder.start
  rw [hStart, hMoved]
  exact hTracks.number

theorem tracks_stop
    {timeout : Timeout}
    {jiffies : Nat}
    {release : Bool}
    {sn : Nat}
    {after : Reorder α}
    (hTracks : reorder.Tracks ssn)
    (hStop :
      releaseTurn timeout jiffies release sn reorder =
        .stop after) :
    after.Tracks ssn := by
  have hTurn :=
    turn_releaseTurn timeout jiffies release sn reorder
  rw [hStop] at hTurn
  cases hTurn with
  | drained hStored => exact hTracks.delTimer
  | watched hNone hPending => exact hTracks
  | young hHeld hYoung =>
      exact
        tracks_skwSetReorderTimer timeout jiffies (u16 sn) hTracks
  | waits reorder' hTimer hHeld hYoung =>
      refine
        tracks_skwSetReorderTimer timeout jiffies (u16 sn) ?_
      rcases hTimer with hSame | hSame
      · exact hSame ▸ hTracks
      · exact hSame ▸ hTracks.delTimer

/-
  What every turn of the loop keeps, and every stop as well,
  the loop keeps.
-/
theorem releaseLoop_induction
    {timeout : Timeout}
    {jiffies : Nat}
    {I : Bool → Reorder α → Prop}
    {Q : Reorder α → Prop}
    {first : Nat}
    (hNext :
      ∀ here release sn before release' after,
        Scan ssn first here release sn before →
        here < first + before.winSize →
        I release before →
        releaseTurn timeout jiffies release sn before =
          .next release' after →
        I release' after)
    (hStop :
      ∀ here release sn before after,
        Scan ssn first here release sn before →
        I release before →
        releaseTurn timeout jiffies release sn before =
          .stop after →
        Q after)
    (hEnd :
      ∀ release sn before,
        Scan ssn first (first + before.winSize) release sn
          before →
        I release before → Q before)
    {here left sn : Nat}
    {release : Bool}
    (hScan : Scan ssn first here release sn reorder)
    (hLeft : here + left = first + reorder.winSize)
    (hStart : I release reorder) :
    Q (releaseLoop timeout jiffies left release sn reorder) := by
  induction left generalizing here release sn reorder with
  | zero =>
      have hHere : here = first + reorder.winSize := hLeft
      exact hEnd release sn reorder (hHere ▸ hScan) hStart
  | succ left ih =>
      unfold releaseLoop
      cases hTurn :
          releaseTurn timeout jiffies release sn reorder with
      | next release' after =>
          have hSize :=
            (Reorder.keeps_releaseTurn timeout jiffies release sn
              hScan.tracks.size_pos).winSize
          rw [hTurn] at hSize
          have hSame : after.winSize = reorder.winSize := hSize
          exact
            ih (scan_releaseTurn hScan (by omega) hTurn)
              (by omega)
              (hNext here release sn reorder release' after hScan
                (by omega) hStart hTurn)
      | stop after =>
          exact
            hStop here release sn reorder after hScan hStart hTurn

theorem tracks_skwReorderRelease
    (timeout : Timeout)
    (jiffies : Nat)
    (hTracks : reorder.Tracks ssn) :
    (skwReorderRelease timeout jiffies reorder).Tracks ssn := by
  refine
    releaseLoop_induction (I := fun _ _ => True)
      (fun _ _ _ _ _ _ _ _ _ _ => trivial) ?_ ?_
      (scan_winStart hTracks) rfl trivial
  · exact fun _ _ _ _ _ hScan _ hTurn =>
      tracks_stop hScan.tracks hTurn
  · exact fun _ _ _ hScan _ => hScan.tracks

theorem tracks_reorderOut
    (timeout : Timeout)
    (jiffies sn : Nat)
    {placed : Placed α}
    (hTracks : placed.reorder.Tracks ssn) :
    (reorderOut timeout jiffies sn placed).Tracks ssn := by
  unfold reorderOut
  simp only
  split_ifs
  · exact tracks_skwReorderRelease timeout jiffies hTracks
  · exact tracks_skwSetReorderTimer timeout jiffies sn hTracks
  · exact hTracks
  · exact hTracks.delTimer

theorem tracks_skwReorderForceRelease
    (current : Bool)
    (toSn : Nat)
    (hTracks : reorder.Tracks ssn) :
    (skwReorderForceRelease current reorder toSn).Tracks ssn := by
  rcases
    Reorder.skwReorderForceRelease_cases current toSn hTracks with
    ⟨last, -, hForced⟩ | hSame | hSame
  · exact hForced.tracks
  · rw [hSame]
    exact hTracks
  · rw [hSame]
    exact hTracks.delTimer

theorem tracks_reorderWindow
    (timeout : Timeout)
    (jiffies : Nat)
    (skb : Skb α)
    (hTracks : reorder.Tracks ssn) :
    (reorderWindow timeout jiffies reorder skb).Tracks ssn := by
  unfold reorderWindow
  simp only
  split_ifs
  · exact
      ⟨hTracks.regular, hTracks.small, hTracks.counted,
        hTracks.number⟩
  · refine tracks_reorderOut timeout jiffies _ ?_
    exact
      ⟨hTracks.regular, hTracks.small, hTracks.counted,
        hTracks.number⟩
  · exact
      tracks_reorderOut timeout jiffies _
        (tracks_reorderPlace hTracks false skb)
  · exact
      tracks_reorderOut timeout jiffies _
        (tracks_reorderPlace
          (tracks_skwReorderForceRelease true _ hTracks) true skb)

theorem tracks_skwRxTodo
    (timeout : Timeout)
    (jiffies : Nat)
    (hTracks : reorder.Tracks ssn) :
    (skwRxTodo timeout jiffies reorder).Tracks ssn := by
  unfold skwRxTodo
  cases reorder.todo with
  | none => exact hTracks
  | some seq =>
      have hForced :=
        tracks_skwReorderForceRelease true seq hTracks
      exact
        tracks_skwReorderRelease timeout jiffies
          ⟨hForced.regular, hForced.small, hForced.counted,
            hForced.number⟩

theorem tracks_reorderStep
    (timeout : Timeout)
    (hTracks : reorder.Tracks ssn)
    (action : ReorderAction α) :
    (reorderStep timeout reorder action).Tracks ssn := by
  have hSame {after : Reorder α}
      (hSize : after.winSize = reorder.winSize)
      (hInUse : after.inUse = reorder.inUse)
      (hStored : after.storedNum = reorder.storedNum)
      (hStart : after.winStart = reorder.winStart)
      (hMoved : after.moved = reorder.moved) :
      after.Tracks ssn := by
    refine ⟨hSize ▸ hTracks.regular, hSize ▸ hTracks.small, ?_, ?_⟩
    · rw [hInUse, hStored]
      exact hTracks.counted
    · unfold Reorder.start
      rw [hStart, hMoved]
      exact hTracks.number
  cases action with
  | receive jiffies peer skb =>
      simp only [reorderStep, skwAmpduReorder]
      split_ifs
      · exact hSame rfl rfl rfl rfl rfl
      · exact hSame rfl rfl rfl rfl rfl
      · exact hSame rfl rfl rfl rfl rfl
      · exact hSame rfl rfl rfl rfl rfl
      · exact tracks_reorderWindow timeout jiffies skb hTracks
  | timer =>
      simp only [reorderStep, skwReorderTimeout]
      split_ifs
      · exact hSame rfl rfl rfl rfl rfl
      · exact hTracks
  | request ssn' => exact hSame rfl rfl rfl rfl rfl
  | todo jiffies => exact tracks_skwRxTodo timeout jiffies hTracks

/-
  A size for which a number and its sequence number have one
  list, and the end of the window is ahead of its start.
-/
def Regular (bufSize : Nat) : Prop :=
  (skwAddTidRx 0 bufSize : Reorder Unit).winSize ∣ snModulo ∧
    (skwAddTidRx 0 bufSize : Reorder Unit).winSize < snModulo / 2

theorem tracks_skwAddTidRx
    {bufSize : Nat}
    (hRegular : Regular bufSize)
    (ssn : Nat) :
    (skwAddTidRx ssn bufSize : Reorder α).Tracks ssn where
  regular := hRegular.1
  small := hRegular.2
  counted := by
    rw [inUse_skwAddTidRx]
    exact Nat.zero_le _
  number := u16_mod ssn

theorem tracks_run
    (timeout : Timeout)
    {bufSize : Nat}
    (hRegular : Regular bufSize)
    (ssn : Nat)
    (schedule : List (ReorderAction α)) :
    (Schedule.run (reorderStep timeout)
      (skwAddTidRx ssn bufSize) schedule).Tracks ssn :=
  (Schedule.along_true (skwAddTidRx ssn bufSize)
    schedule).invariant (I := Reorder.Tracks ssn)
    (fun _ action hTracks _ =>
      tracks_reorderStep timeout hTracks action)
    (tracks_skwAddTidRx hRegular ssn)

end Steps

end Wifi

end MicaBoards
