import MicaBoards.Wifi.ReorderWindow

/-
  No frame stays in the reorder buffer for good. While there
  is one the timer runs, or something is to be done; and what
  the timer leaves to do, done late enough, empties the
  buffer.

  Key definitions include:
    * `Reorder.Watched`, `Reorder.Expired`
  Main declarations:
    * `held_frames_leave`
-/

------------------------------------------------------------
-- The Release Loop
------------------------------------------------------------

namespace MicaBoards

namespace Wifi

variable {α : Type}

/- There are no frames, or something will come of them. -/
def Reorder.Watched (reorder : Reorder α) : Prop :=
  reorder.Vacant ∨ reorder.timerPending = true ∨
    reorder.todo ≠ none

/- All frames have waited for too long. -/
def Reorder.Expired
    (timeout : Timeout)
    (jiffies : Nat)
    (reorder : Reorder α) : Prop :=
  ∀ n, ∀ skb ∈ (reorder.slot n).frames,
    skb.rxTime + timeout.msdu < jiffies

namespace Reorder

variable {timeout : Timeout}
variable {jiffies : Nat}
variable {ssn : Nat}
variable {reorder : Reorder α}

/- The timer is set for a list in use, or it has run out. -/
theorem watched_skwSetReorderTimer
    {sn : Nat}
    (hHeld : (reorder.slot sn).frames ≠ []) :
    (skwSetReorderTimer timeout jiffies reorder sn).Watched := by
  unfold skwSetReorderTimer
  cases hPending : reorder.timerPending with
  | true => exact .inr (.inl hPending)
  | false =>
      cases hFrames : (reorder.slot sn).frames with
      | nil => exact absurd hFrames hHeld
      | cons skb rest =>
          simp only [Bool.false_eq_true, if_false]
          split_ifs with hEarly hTodo
          · exact .inr (.inl rfl)
          · exact .inr (.inr (Option.some_ne_none sn))
          · exact .inr (.inr hTodo)

theorem slot_timer
    {reorder' : Reorder α}
    (hTimer :
      reorder' = reorder ∨ reorder' = reorder.delTimer)
    (n : Nat) :
    reorder'.slot n = reorder.slot n := by
  rcases hTimer with hSame | hSame
  · rw [hSame]
  · rw [hSame]
    rfl

/- A turn that ends the loop has seen to what is left. -/
theorem watched_releaseTurn
    {release : Bool}
    {sn : Nat}
    {after : Reorder α}
    (hTracks : Tracks ssn reorder)
    (hStop :
      releaseTurn timeout jiffies release sn reorder =
        .stop after) :
    after.Watched := by
  have hTurn :=
    turn_releaseTurn timeout jiffies release sn reorder
  rw [hStop] at hTurn
  cases hTurn with
  | drained hStored => exact .inl (hTracks.vacant hStored)
  | watched hNone hPending => exact .inr (.inl hPending)
  | young hHeld hYoung =>
      refine watched_skwSetReorderTimer ?_
      rw [slot_congr hTracks.regular (u16_mod sn)]
      exact hHeld
  | waits reorder' hTimer hHeld hYoung =>
      refine watched_skwSetReorderTimer ?_
      rw [slot_timer hTimer,
        slot_congr hTracks.regular (u16_mod sn)]
      exact hHeld

/- A window whose lists are empty has no frames. -/
theorem vacant_of_window
    {first : Nat}
    (hSize : 0 < reorder.winSize)
    (hWindow :
      ∀ n, first ≤ n → n < first + reorder.winSize →
        (reorder.slot n).frames = []) :
    reorder.Vacant := by
  intro n
  have hNumber :=
    SerialNumbers.add_sub_mod hSize n first
  have hLt :=
    @SerialNumbers.sub_lt reorder.winSize n first hSize
  have hEmpty :=
    hWindow (first + SerialNumbers.sub reorder.winSize n first)
      (Nat.le_add_right _ _) (Nat.add_lt_add_left hLt first)
  unfold slot at hEmpty ⊢
  rwa [hNumber] at hEmpty

/- The loop has come to its end. -/
theorem vacant_of_scan
    {first here : Nat}
    {release : Bool}
    {sn : Nat}
    (hScan : Scan ssn first here release sn reorder)
    (hEnd : here = first + reorder.winSize) :
    reorder.Vacant :=
  vacant_of_window hScan.tracks.size_pos fun n hLow hHigh =>
    hScan.visited n hLow (hEnd ▸ hHigh)

theorem watched_skwReorderRelease
    (hTracks : Tracks ssn reorder) :
    (skwReorderRelease timeout jiffies reorder).Watched := by
  refine
    releaseLoop_induction (I := fun _ _ => True)
      (fun _ _ _ _ _ _ _ _ _ _ => trivial) ?_ ?_
      (scan_winStart hTracks) rfl trivial
  · exact fun _ _ _ _ _ hScan _ hTurn =>
      watched_releaseTurn hScan.tracks hTurn
  · exact fun _ _ _ hScan _ => .inl (vacant_of_scan hScan rfl)

------------------------------------------------------------
-- When All Is Late
------------------------------------------------------------

/- A list of late frames has waited for too long. -/
theorem Expired.isTimeout
    (hExpired : Expired timeout jiffies reorder)
    {n : Nat}
    (hHeld : (reorder.slot n).frames ≠ []) :
    isSkwMsduTimeout timeout jiffies (reorder.slot n) = true := by
  unfold isSkwMsduTimeout
  cases hFrames : (reorder.slot n).frames with
  | nil => exact absurd hFrames hHeld
  | cons skb rest =>
      refine decide_eq_true (hExpired n skb ?_)
      rw [hFrames]
      exact List.mem_cons_self

/- Frames that are left have been there before. -/
theorem Expired.of_frames
    {after : Reorder α}
    (hExpired : Expired timeout jiffies reorder)
    (hFrames :
      ∀ n, after.slot n = reorder.slot n ∨
        (after.slot n).frames = []) :
    Expired timeout jiffies after := by
  intro n skb hMem
  rcases hFrames n with hSame | hEmpty
  · exact hExpired n skb (hSame ▸ hMem)
  · rw [hEmpty] at hMem
    exact absurd hMem List.not_mem_nil

/- When all frames are late only a lack of them ends the loop. -/
theorem late_stop
    {release : Bool}
    {sn : Nat}
    {after : Reorder α}
    (hTracks : Tracks ssn reorder)
    (hTimer : reorder.timerPending = false)
    (hExpired : Expired timeout jiffies reorder)
    (hStop :
      releaseTurn timeout jiffies release sn reorder =
        .stop after) :
    after.Vacant := by
  have hTurn :=
    turn_releaseTurn timeout jiffies release sn reorder
  rw [hStop] at hTurn
  cases hTurn with
  | drained hStored => exact hTracks.vacant hStored
  | watched hNone hPending =>
      exact
        absurd (hTimer.symm.trans hPending) Bool.false_ne_true
  | young hHeld hYoung =>
      exact
        absurd (hYoung.symm.trans (hExpired.isTimeout hHeld))
          Bool.false_ne_true
  | waits reorder' hSame hHeld hYoung =>
      exact
        absurd (hYoung.symm.trans (hExpired.isTimeout hHeld))
          Bool.false_ne_true

theorem timerPending_timer
    {reorder' : Reorder α}
    (hTimer : reorder.timerPending = false)
    (hSame :
      reorder' = reorder ∨ reorder' = reorder.delTimer) :
    reorder'.timerPending = false := by
  rcases hSame with h | h
  · rw [h, hTimer]
  · rw [h]
    rfl

/- A list that is emptied leaves the others late. -/
theorem Expired.setSlot_empty
    {reorder' : Reorder α}
    {first here : Nat}
    {release : Bool}
    {sn : Nat}
    (hExpired : Expired timeout jiffies reorder)
    (hScan : Scan ssn first here release sn reorder)
    (hSame :
      reorder' = reorder ∨ reorder' = reorder.delTimer) :
    Expired timeout jiffies (reorder'.setSlot sn .empty) := by
  have hScan' := hScan.timer hSame
  refine hExpired.of_frames fun n => ?_
  rw [← slot_timer hSame]
  exact
    (cleared_setSlot hScan'.tracks.regular
      hScan'.number).frames n

/- No turn sets the timer, and what is left is late. -/
theorem late_next
    {first here : Nat}
    {release release' : Bool}
    {sn : Nat}
    {after : Reorder α}
    (hScan : Scan ssn first here release sn reorder)
    (hWithin : here < first + reorder.winSize)
    (hTimer : reorder.timerPending = false)
    (hExpired : Expired timeout jiffies reorder)
    (hNext :
      releaseTurn timeout jiffies release sn reorder =
        .next release' after) :
    after.timerPending = false ∧
      Expired timeout jiffies after := by
  have hTurn :=
    turn_releaseTurn timeout jiffies release sn reorder
  rw [hNext] at hTurn
  cases hTurn with
  | gap hNone => exact ⟨hTimer, hExpired⟩
  | forced hHeld hGap =>
      have hForced := (hScan.forced hWithin hHeld).1
      refine ⟨?_, hExpired.of_frames hForced.frames⟩
      exact Bool.eq_false_iff.mpr fun hPending =>
        absurd (hTimer.symm.trans (hForced.watch.timer hPending))
          Bool.false_ne_true
  | purged reorder' hSame hHeld hLevel hTaint =>
      have hIdle := timerPending_timer hTimer hSame
      exact ⟨hIdle, hExpired.setSlot_empty hScan hSame⟩
  | released reorder' hSame hHeld hLevel =>
      have hIdle := timerPending_timer hTimer hSame
      exact ⟨hIdle, hExpired.setSlot_empty hScan hSame⟩

theorem vacant_skwReorderRelease
    (hTracks : Tracks ssn reorder)
    (hTimer : reorder.timerPending = false)
    (hExpired : Expired timeout jiffies reorder) :
    (skwReorderRelease timeout jiffies reorder).Vacant := by
  refine
    releaseLoop_induction
      (I := fun _ before =>
        before.timerPending = false ∧
          Expired timeout jiffies before)
      ?_ ?_ ?_ (scan_winStart hTracks) rfl ⟨hTimer, hExpired⟩
  · exact fun _ _ _ _ _ _ hScan hWithin hLate hTurn =>
      late_next hScan hWithin hLate.1 hLate.2 hTurn
  · exact fun _ _ _ _ _ hScan hLate hTurn =>
      late_stop hScan.tracks hLate.1 hLate.2 hTurn
  · exact fun _ _ _ hScan _ => vacant_of_scan hScan rfl

end Reorder

------------------------------------------------------------
-- The Steps
------------------------------------------------------------

section Steps

variable {timeout : Timeout}
variable {jiffies : Nat}
variable {ssn : Nat}
variable {reorder : Reorder α}

/- A list with a new frame is in use. -/
theorem frames_of_held
    {slot : Slot α}
    {skb : Skb α}
    {sn : Nat}
    (hAdded : Added (reorder.slot sn) skb slot) :
    ((reorder.setSlot sn slot).slot sn).frames ≠ [] := by
  rw [Reorder.slot_setSlot_of_eq rfl, hAdded.frames]
  exact List.append_ne_nil_of_right_ne_nil _ (List.cons_ne_nil _ _)

/- A list that is filled and emptied again is empty. -/
theorem vacant_setSlot_empty
    (hVacant : reorder.Vacant)
    (sn : Nat)
    (slot : Slot α) :
    ((reorder.setSlot sn slot).setSlot sn .empty).Vacant := by
  intro n
  by_cases hOther :
      n % reorder.winSize = sn % reorder.winSize
  · have hList :=
      @Reorder.slot_setSlot_of_eq α (reorder.setSlot sn slot) sn
        n hOther .empty
    rw [hList]
    rfl
  · have hList :=
      @Reorder.slot_setSlot_of_ne α (reorder.setSlot sn slot) sn
        n hOther .empty
    rw [hList, Reorder.slot_setSlot_of_ne hOther]
    exact hVacant n

/- The end of a frame sees to what is in the buffer. -/
theorem watched_reorderOut
    (hTracks : reorder.Tracks ssn)
    (hWatched : reorder.Watched)
    (release : Bool)
    (skb : Skb α) :
    (reorderOut timeout jiffies skb.desc.sn
      (reorderPlace reorder release skb)).Watched := by
  have hPlaced := tracks_reorderPlace hTracks release skb
  have hPlacing := placing_reorderPlace reorder release skb
  generalize reorderPlace reorder release skb = placed
    at hPlaced hPlacing ⊢
  unfold reorderOut
  simp only
  split_ifs with hStored hRelease hKept
  · exact Reorder.watched_skwReorderRelease hPlaced
  · refine Reorder.watched_skwSetReorderTimer ?_
    cases hPlacing with
    | dropped count => exact absurd hKept Bool.false_ne_true
    | held slot hAdded count => exact frames_of_held hAdded
    | tainted slot hAdded hTaint count =>
        exact absurd hKept Bool.false_ne_true
    | headed slot hAdded hHead count =>
        exact absurd rfl hRelease
  · cases hPlacing with
    | dropped count => exact hWatched
    | held slot hAdded count => exact absurd rfl hKept
    | tainted slot hAdded hTaint count =>
        rcases hWatched with hVacant | hSeen
        · exact .inl (vacant_setSlot_empty hVacant _ slot)
        · exact .inr hSeen
    | headed slot hAdded hHead count =>
        exact absurd rfl hRelease
  · rw [not_not] at hStored
    exact .inl (hPlaced.vacant hStored)

/- The same, with a window that has moved for the frame. -/
theorem watched_reorderOut_true
    (hTracks : reorder.Tracks ssn)
    (skb : Skb α) :
    (reorderOut timeout jiffies skb.desc.sn
      (reorderPlace reorder true skb)).Watched := by
  have hPlaced := tracks_reorderPlace hTracks true skb
  have hPlacing := placing_reorderPlace reorder true skb
  generalize reorderPlace reorder true skb = placed
    at hPlaced hPlacing ⊢
  have hRelease : placed.release = true := by
    cases hPlacing with
    | dropped count => rfl
    | held slot hAdded count => rfl
    | tainted slot hAdded hTaint count => rfl
    | headed slot hAdded hHead count => rfl
  unfold reorderOut
  simp only [hRelease, if_true]
  split_ifs with hStored
  · exact Reorder.watched_skwReorderRelease hPlaced
  · rw [not_not] at hStored
    exact .inl (hPlaced.vacant hStored)

theorem watched_reorderWindow
    (hTracks : reorder.Tracks ssn)
    (hWatched : reorder.Watched)
    (skb : Skb α) :
    (reorderWindow timeout jiffies reorder skb).Watched := by
  unfold reorderWindow
  simp only
  split_ifs
  · exact hWatched
  · unfold reorderOut
    simp only [Bool.false_eq_true, if_false]
    split_ifs with hStored
    · exact hWatched
    · rw [not_not] at hStored
      exact .inl (hTracks.vacant hStored)
  · exact watched_reorderOut hTracks hWatched false skb
  · exact
      watched_reorderOut_true
        (tracks_skwReorderForceRelease true _ hTracks) skb

theorem watched_reorderStep
    (timeout : Timeout)
    (hTracks : reorder.Tracks ssn)
    (hWatched : reorder.Watched)
    (action : ReorderAction α) :
    (reorderStep timeout reorder action).Watched := by
  cases action with
  | receive jiffies peer skb =>
      simp only [reorderStep, skwAmpduReorder]
      split_ifs
      · exact hWatched
      · exact hWatched
      · exact hWatched
      · exact hWatched
      · exact watched_reorderWindow hTracks hWatched skb
  | timer =>
      simp only [reorderStep, skwReorderTimeout]
      split_ifs
      · exact .inr (.inr (Option.some_ne_none _))
      · exact hWatched
  | request ssn' => exact .inr (.inr (Option.some_ne_none (u16 ssn')))
  | todo jiffies =>
      simp only [reorderStep, skwRxTodo]
      cases hTodo : reorder.todo with
      | none => exact hWatched
      | some seq =>
          have hForced :=
            tracks_skwReorderForceRelease true seq hTracks
          exact
            Reorder.watched_skwReorderRelease
              ⟨hForced.regular, hForced.small, hForced.counted,
                hForced.number⟩

/- What is to be done, done late, empties the buffer. -/
theorem vacant_skwRxTodo
    (hTracks : reorder.Tracks ssn)
    (hTimer : reorder.timerPending = false)
    (hExpired : reorder.Expired timeout jiffies)
    (hTodo : reorder.todo ≠ none) :
    (skwRxTodo timeout jiffies reorder).Vacant := by
  obtain ⟨seq, hSeq⟩ := Option.ne_none_iff_exists'.mp hTodo
  unfold skwRxTodo
  simp only [hSeq]
  have hForced :=
    tracks_skwReorderForceRelease true seq hTracks
  have hLate :
      (skwReorderForceRelease true reorder seq).timerPending =
          false ∧
        (skwReorderForceRelease true reorder seq).Expired timeout
          jiffies := by
    rcases
      Reorder.skwReorderForceRelease_cases true seq hTracks with
      ⟨last, -, hDone⟩ | hSame | hSame
    · refine ⟨?_, hExpired.of_frames hDone.frames⟩
      exact Bool.eq_false_iff.mpr fun hPending =>
        absurd (hTimer.symm.trans (hDone.watch.timer hPending))
          Bool.false_ne_true
    · rw [hSame]
      exact ⟨hTimer, hExpired⟩
    · rw [hSame]
      exact ⟨rfl, hExpired⟩
  exact
    Reorder.vacant_skwReorderRelease
      ⟨hForced.regular, hForced.small, hForced.counted,
        hForced.number⟩
      hLate.1 hLate.2

/- Behind the timer, and then what it has left to do. -/
theorem vacant_timer_todo
    (hTracks : reorder.Tracks ssn)
    (hWatched : reorder.Watched)
    (hExpired : reorder.Expired timeout jiffies) :
    (skwRxTodo timeout jiffies
      (skwReorderTimeout reorder)).Vacant := by
  unfold skwReorderTimeout
  split_ifs with hPending
  · exact
      @vacant_skwRxTodo α timeout jiffies ssn _
        ⟨hTracks.regular, hTracks.small, hTracks.counted,
          hTracks.number⟩
        rfl hExpired (Option.some_ne_none _)
  · have hTimer := Bool.eq_false_iff.mpr hPending
    by_cases hTodo : reorder.todo = none
    · rcases hWatched with hVacant | hRuns | hSeen
      · unfold skwRxTodo
        simp only [hTodo]
        exact hVacant
      · exact absurd hRuns hPending
      · exact absurd hTodo hSeen
    · exact vacant_skwRxTodo hTracks hTimer hExpired hTodo

/- What the end of the session releases is the whole window. -/
theorem vacant_skwDelTidRx
    (hTracks : reorder.Tracks ssn) :
    (skwReorderForceRelease false reorder.delTimer
      (snAdd reorder.winStart
        (reorder.winSize - 1))).Vacant := by
  have hSize := hTracks.size_pos
  have hSmall := hTracks.small
  have hLast :
      snAdd reorder.winStart (reorder.winSize - 1) % snModulo =
        (reorder.start ssn + (reorder.winSize - 1)) %
          snModulo := by
    unfold snAdd
    rw [Nat.mod_mod, Nat.add_mod, hTracks.number, ← Nat.add_mod]
  have hForced :=
    Reorder.forced_skwReorderForceRelease false hTracks.delTimer
      hLast
      (show reorder.start ssn ≤ _ by omega)
      (show _ - reorder.start ssn < _ by omega)
  refine
    @Reorder.vacant_of_window α _ (reorder.start ssn)
      hForced.tracks.size_pos fun n hLow hHigh =>
        hForced.emptied n hLow ?_
  have hSame := hForced.winSize
  have hWindow : reorder.delTimer.winSize = reorder.winSize := rfl
  omega

/- So the lists are freed without a frame in them. -/
theorem leaked_skwDelTidRx
    (hTracks : reorder.Tracks ssn) :
    (skwDelTidRx reorder).leaked = reorder.leaked := by
  have hVacant := vacant_skwDelTidRx hTracks
  have hKept :=
    @Reorder.keeps_skwReorderForceRelease α reorder.delTimer
      false (snAdd reorder.winStart (reorder.winSize - 1))
      hTracks.size_pos
  have hNone :=
    List.flatMap_eq_nil_iff.mpr fun i hMem =>
      hVacant.reorderBuf (List.mem_range.mp hMem)
  show _ ++ _ = reorder.leaked
  rw [hNone, List.append_nil]
  exact hKept.leaked

end Steps

------------------------------------------------------------
-- Runs
------------------------------------------------------------

section Runs

theorem watched_run
    (timeout : Timeout)
    {bufSize : Nat}
    (hRegular : Regular bufSize)
    (ssn : Nat)
    (schedule : List (ReorderAction α)) :
    (Schedule.run (reorderStep timeout)
      (skwAddTidRx ssn bufSize) schedule).Watched := by
  have hBoth :=
    (Schedule.along_true (skwAddTidRx ssn bufSize)
      schedule).invariant
      (I := fun reorder : Reorder α =>
        reorder.Tracks ssn ∧ reorder.Watched)
      (fun _ action hBefore _ =>
        ⟨tracks_reorderStep timeout hBefore.1 action,
          watched_reorderStep timeout hBefore.1 hBefore.2 action⟩)
      ⟨tracks_skwAddTidRx hRegular ssn, .inl fun _ => rfl⟩
  exact hBoth.2

end Runs

end Wifi

end MicaBoards
