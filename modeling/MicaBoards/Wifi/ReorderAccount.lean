import MicaBoards.Wifi.Reorder
import MicaBoards.Foundations.Schedule
import Mathlib.Algebra.BigOperators.Group.Finset.Basic
import Mathlib.Algebra.Order.BigOperators.Group.Finset
import Mathlib.Data.Multiset.AddSub
import Mathlib.Tactic.Abel

/-
  No frame is lost or doubled by the reorder buffer in a run:
  each one that has been received was released, or freed, or
  is in one list of the buffer. At the end of the session it
  can be lost with its list. The count of the lists in use is
  kept.

  Key definitions include:
    * `Reorder.account`, `Reorder.Keeps`
  Main declarations:
    * `frames_accounted`
-/

------------------------------------------------------------
-- Sums Over The Lists
------------------------------------------------------------

namespace MicaBoards

namespace Wifi

/- A sum in which one term changes. -/
theorem sum_range_update
    {M : Type}
    [AddCommMonoid M]
    {α : Type}
    (weight : α → M)
    (f : Nat → α)
    {n j : Nat}
    (hMem : j < n)
    (value : α) :
    (∑ i ∈ Finset.range n, weight (Function.update f j value i)) +
        weight (f j) =
      (∑ i ∈ Finset.range n, weight (f i)) + weight value := by
  have hIn : j ∈ Finset.range n := Finset.mem_range.mpr hMem
  have hOthers :
      ∑ i ∈ (Finset.range n).erase j,
          weight (Function.update f j value i) =
        ∑ i ∈ (Finset.range n).erase j, weight (f i) := by
    refine Finset.sum_congr rfl fun i hErase => ?_
    rw [Function.update_of_ne (Finset.ne_of_mem_erase hErase)]
  rw [← Finset.add_sum_erase _ _ hIn,
    ← Finset.add_sum_erase _ (fun i => weight (f i)) hIn,
    hOthers, Function.update_self]
  rw [add_right_comm, add_comm (weight value), add_right_comm]

------------------------------------------------------------
-- Where The Frames Are
------------------------------------------------------------

/- The frames of a list, and whether it is in use. -/
def Slot.tags {α : Type} (slot : Slot α) : Multiset α :=
  (slot.frames.map Skb.tag : List α)

def Slot.weight {α : Type} (slot : Slot α) : Nat :=
  if slot.frames.isEmpty then 0 else 1

namespace Reorder

variable {α : Type}

def buffered (reorder : Reorder α) : Multiset α :=
  ∑ i ∈ Finset.range reorder.winSize,
    (reorder.reorderBuf i).tags

/- All frames, wherever they are. -/
def account (reorder : Reorder α) : Multiset α :=
  (reorder.released.map Skb.tag : List α) +
    (reorder.freed.map Skb.tag : List α) +
    (reorder.leaked.map Skb.tag : List α) + reorder.buffered

/- How many lists are in use. -/
def inUse (reorder : Reorder α) : Nat :=
  ∑ i ∈ Finset.range reorder.winSize,
    (reorder.reorderBuf i).weight

variable {reorder : Reorder α}

theorem buffered_setSlot
    (hSize : 0 < reorder.winSize)
    (sn : Nat)
    (slot : Slot α) :
    (reorder.setSlot sn slot).buffered +
        (reorder.slot sn).tags =
      reorder.buffered + slot.tags :=
  sum_range_update Slot.tags reorder.reorderBuf
    (Nat.mod_lt sn hSize) slot

theorem inUse_setSlot
    (hSize : 0 < reorder.winSize)
    (sn : Nat)
    (slot : Slot α) :
    (reorder.setSlot sn slot).inUse + (reorder.slot sn).weight =
      reorder.inUse + slot.weight :=
  sum_range_update Slot.weight reorder.reorderBuf
    (Nat.mod_lt sn hSize) slot

/- A list is released or purged as a whole. -/
theorem account_releaseSlot
    (hSize : 0 < reorder.winSize)
    (sn : Nat) :
    (reorder.releaseSlot sn).account = reorder.account := by
  have hSlot := buffered_setSlot hSize sn (.empty : Slot α)
  have hEmpty : (Slot.empty : Slot α).tags = 0 := rfl
  have hReleased :
      ((reorder.releaseSlot sn).released.map Skb.tag : List α) =
        ((reorder.released.map Skb.tag : List α) : Multiset α) +
          (reorder.slot sn).tags := by
    rw [releaseSlot, List.map_append, ← Multiset.coe_add]
    rfl
  have hBuffered :
      (reorder.releaseSlot sn).buffered =
        (reorder.setSlot sn .empty).buffered := rfl
  have hFreed : (reorder.releaseSlot sn).freed = reorder.freed :=
    rfl
  have hLeaked :
      (reorder.releaseSlot sn).leaked = reorder.leaked := rfl
  rw [hEmpty, add_zero] at hSlot
  rw [account, account, hReleased, hBuffered, hFreed, hLeaked,
    ← hSlot]
  abel

theorem account_purgeSlot
    (hSize : 0 < reorder.winSize)
    (sn : Nat) :
    (reorder.purgeSlot sn).account = reorder.account := by
  have hSlot := buffered_setSlot hSize sn (.empty : Slot α)
  have hEmpty : (Slot.empty : Slot α).tags = 0 := rfl
  have hFreed :
      ((reorder.purgeSlot sn).freed.map Skb.tag : List α) =
        ((reorder.freed.map Skb.tag : List α) : Multiset α) +
          (reorder.slot sn).tags := by
    rw [purgeSlot, List.map_append, ← Multiset.coe_add]
    rfl
  have hBuffered :
      (reorder.purgeSlot sn).buffered =
        (reorder.setSlot sn .empty).buffered := rfl
  have hReleased :
      (reorder.purgeSlot sn).released = reorder.released := rfl
  have hLeaked :
      (reorder.purgeSlot sn).leaked = reorder.leaked := rfl
  rw [hEmpty, add_zero] at hSlot
  rw [account, account, hReleased, hBuffered, hFreed, hLeaked,
    ← hSlot]
  abel

/- A frame is put behind a list. -/
theorem account_setSlot
    (hSize : 0 < reorder.winSize)
    {slot : Slot α}
    {skb : Skb α}
    (sn : Nat)
    (hFrames :
      slot.frames = (reorder.slot sn).frames ++ [skb]) :
    (reorder.setSlot sn slot).account =
      reorder.account + {skb.tag} := by
  have hSlot := buffered_setSlot hSize sn slot
  have hTags : slot.tags = (reorder.slot sn).tags + {skb.tag} := by
    rw [Slot.tags, hFrames, List.map_append, ← Multiset.coe_add]
    rfl
  have hBuffered :
      (reorder.setSlot sn slot).buffered =
        reorder.buffered + {skb.tag} := by
    rw [hTags, ← add_assoc, add_right_comm] at hSlot
    exact add_right_cancel hSlot
  have hReleased :
      (reorder.setSlot sn slot).released = reorder.released := rfl
  have hFreed :
      (reorder.setSlot sn slot).freed = reorder.freed := rfl
  have hLeaked :
      (reorder.setSlot sn slot).leaked = reorder.leaked := rfl
  rw [account, account, hReleased, hFreed, hLeaked, hBuffered]
  abel

/- A frame goes past the buffer. -/
theorem account_releaseSkb (skb : Skb α) :
    (reorder.releaseSkb skb).account =
      reorder.account + {skb.tag} := by
  have hReleased :
      ((reorder.releaseSkb skb).released.map Skb.tag : List α) =
        ((reorder.released.map Skb.tag : List α) : Multiset α) +
          {skb.tag} := by
    rw [releaseSkb, List.map_append, ← Multiset.coe_add]
    rfl
  have hBuffered :
      (reorder.releaseSkb skb).buffered = reorder.buffered := rfl
  have hFreed : (reorder.releaseSkb skb).freed = reorder.freed :=
    rfl
  have hLeaked :
      (reorder.releaseSkb skb).leaked = reorder.leaked := rfl
  rw [account, account, hReleased, hBuffered, hFreed, hLeaked]
  abel

theorem account_freeSkb (skb : Skb α) :
    (reorder.freeSkb skb).account =
      reorder.account + {skb.tag} := by
  have hFreed :
      ((reorder.freeSkb skb).freed.map Skb.tag : List α) =
        ((reorder.freed.map Skb.tag : List α) : Multiset α) +
          {skb.tag} := by
    rw [freeSkb, List.map_append, ← Multiset.coe_add]
    rfl
  have hBuffered :
      (reorder.freeSkb skb).buffered = reorder.buffered := rfl
  have hReleased :
      (reorder.freeSkb skb).released = reorder.released := rfl
  have hLeaked : (reorder.freeSkb skb).leaked = reorder.leaked :=
    rfl
  rw [account, account, hReleased, hBuffered, hFreed, hLeaked]
  abel

/- The frames of the lists, one list behind the other. -/
theorem tags_flatMap
    (lists : Nat → Slot α)
    (size : Nat) :
    ((((List.range size).flatMap fun i =>
        (lists i).frames).map Skb.tag : List α) : Multiset α) =
      ∑ i ∈ Finset.range size, (lists i).tags := by
  induction size with
  | zero => rfl
  | succ size ih =>
      rw [Finset.sum_range_succ, ← ih, List.range_succ,
        List.flatMap_append, List.map_append, ← Multiset.coe_add,
        List.flatMap_singleton]
      rfl

theorem buffered_freeBuffer (reorder : Reorder α) :
    reorder.freeBuffer.buffered = 0 :=
  Finset.sum_eq_zero fun _ _ => rfl

/- The frames of the lists are lost with them. -/
theorem account_freeBuffer (reorder : Reorder α) :
    reorder.freeBuffer.account = reorder.account := by
  have hLeaked :
      (reorder.freeBuffer.leaked.map Skb.tag : List α) =
        ((reorder.leaked.map Skb.tag : List α) : Multiset α) +
          reorder.buffered := by
    rw [freeBuffer, List.map_append, ← Multiset.coe_add,
      tags_flatMap]
    rfl
  have hReleased :
      reorder.freeBuffer.released = reorder.released := rfl
  have hFreed : reorder.freeBuffer.freed = reorder.freed := rfl
  rw [account, account, hReleased, hFreed, hLeaked,
    buffered_freeBuffer, add_zero, ← add_assoc]

/- An emptied list is not in use. -/
theorem inUse_emptySlot
    (hSize : 0 < reorder.winSize)
    (sn : Nat) :
    (reorder.setSlot sn .empty).inUse + (reorder.slot sn).weight =
      reorder.inUse :=
  inUse_setSlot hSize sn .empty

theorem weight_of_isEmpty
    {slot : Slot α}
    (hEmpty : slot.frames.isEmpty = true) :
    slot.weight = 0 :=
  if_pos hEmpty

theorem weight_of_not_isEmpty
    {slot : Slot α}
    (hUsed : slot.frames.isEmpty = false) :
    slot.weight = 1 :=
  if_neg (ne_true_of_eq_false hUsed)

------------------------------------------------------------
-- What A Step Keeps
------------------------------------------------------------

/-
  A step loses and doubles no frame, and counts the lists; with
  the frames it takes from outside.
-/
structure Keeps
    (before after : Reorder α)
    (taken : Multiset α) : Prop where
  winSize : after.winSize = before.winSize
  account : after.account = before.account + taken
  leaked : after.leaked = before.leaked
  counted :
    before.inUse ≤ before.storedNum →
      after.inUse ≤ after.storedNum

theorem keeps_refl (reorder : Reorder α) :
    Keeps reorder reorder 0 :=
  ⟨rfl, (add_zero _).symm, rfl, id⟩

theorem Keeps.trans
    {first second third : Reorder α}
    {taken : Multiset α}
    (hFirst : Keeps first second taken)
    (hSecond : Keeps second third 0) :
    Keeps first third taken where
  winSize := hSecond.winSize.trans hFirst.winSize
  account := by
    rw [hSecond.account, hFirst.account, add_zero]
  leaked := hSecond.leaked.trans hFirst.leaked
  counted hCounted := hSecond.counted (hFirst.counted hCounted)

theorem keeps_advance (reorder : Reorder α) :
    Keeps reorder reorder.advance 0 :=
  ⟨rfl, (add_zero _).symm, rfl, id⟩

theorem keeps_delTimer (reorder : Reorder α) :
    Keeps reorder reorder.delTimer 0 :=
  ⟨rfl, (add_zero _).symm, rfl, id⟩

theorem delHeadTimer_cases (reorder : Reorder α) :
    reorder.delHeadTimer = reorder ∨
      reorder.delHeadTimer = reorder.delTimer := by
  unfold delHeadTimer
  split_ifs
  · exact .inr rfl
  · exact .inl rfl

theorem keeps_delHeadTimer (reorder : Reorder α) :
    Keeps reorder reorder.delHeadTimer 0 := by
  rcases delHeadTimer_cases reorder with hSame | hSame
  · rw [hSame]
    exact keeps_refl reorder
  · rw [hSame]
    exact keeps_delTimer reorder

theorem keeps_skwSetReorderTimer
    (timeout : Timeout)
    (jiffies : Nat)
    (reorder : Reorder α)
    (sn : Nat) :
    Keeps reorder
      (skwSetReorderTimer timeout jiffies reorder sn) 0 := by
  unfold skwSetReorderTimer
  cases hPending : reorder.timerPending with
  | true => exact keeps_refl reorder
  | false =>
      cases hFrames : (reorder.slot sn).frames with
      | nil => exact keeps_refl reorder
      | cons skb rest =>
          simp only [Bool.false_eq_true, if_false]
          split_ifs
          · exact ⟨rfl, (add_zero _).symm, rfl, id⟩
          · exact ⟨rfl, (add_zero _).symm, rfl, id⟩
          · exact keeps_refl reorder

/- A list in use is emptied, and counted no more. -/
theorem keeps_releaseSlot
    (hSize : 0 < reorder.winSize)
    {sn : Nat}
    (hUsed : (reorder.slot sn).frames.isEmpty = false) :
    Keeps reorder
      ((reorder.releaseSlot sn).stored (reorder.storedNum - 1))
      0 := by
  refine ⟨rfl, ?_, rfl, fun hCounted => ?_⟩
  · rw [add_zero]
    exact account_releaseSlot hSize sn
  · have hInUse := inUse_emptySlot hSize sn
    rw [weight_of_not_isEmpty hUsed] at hInUse
    show (reorder.setSlot sn .empty).inUse ≤ reorder.storedNum - 1
    omega

theorem keeps_purgeSlot
    (hSize : 0 < reorder.winSize)
    {sn : Nat}
    (hUsed : (reorder.slot sn).frames.isEmpty = false) :
    Keeps reorder
      ((reorder.purgeSlot sn).stored (reorder.storedNum - 1))
      0 := by
  refine ⟨rfl, ?_, rfl, fun hCounted => ?_⟩
  · rw [add_zero]
    exact account_purgeSlot hSize sn
  · have hInUse := inUse_emptySlot hSize sn
    rw [weight_of_not_isEmpty hUsed] at hInUse
    show (reorder.setSlot sn .empty).inUse ≤ reorder.storedNum - 1
    omega

theorem keeps_forceTurn
    (hSize : 0 < reorder.winSize) :
    Keeps reorder (forceTurn reorder) 0 := by
  unfold forceTurn
  simp only
  split_ifs with hEmpty hTaint
  · exact keeps_refl reorder
  · exact keeps_purgeSlot hSize (Bool.eq_false_iff.mpr hEmpty)
  · exact keeps_releaseSlot hSize (Bool.eq_false_iff.mpr hEmpty)

theorem keeps_forceLoop
    (toSn target turns : Nat)
    (hSize : 0 < reorder.winSize) :
    Keeps reorder (forceLoop toSn target turns reorder) 0 := by
  induction turns generalizing reorder with
  | zero => exact keeps_refl reorder
  | succ turns ih =>
      have hTurn := keeps_forceTurn hSize
      have hOn := hTurn.trans (keeps_advance _)
      unfold forceLoop
      split_ifs
      · exact ⟨rfl, (add_zero _).symm, rfl, id⟩
      · exact hOn.trans (ih (hOn.winSize ▸ hSize))
      · exact keeps_refl reorder

theorem keeps_skwReorderForceRelease
    (current : Bool)
    (toSn : Nat)
    (hSize : 0 < reorder.winSize) :
    Keeps reorder
      (skwReorderForceRelease current reorder toSn) 0 := by
  unfold skwReorderForceRelease
  simp only
  split_ifs
  · exact
      (keeps_delTimer reorder).trans
        (keeps_forceLoop toSn _ snModulo hSize)
  · exact keeps_forceLoop toSn _ snModulo hSize

end Reorder

/- What a turn of `skw_reorder_release` leaves. -/
def ReleaseTurn.reorder {α : Type} :
    ReleaseTurn α → Reorder α
| .next _ reorder => reorder
| .stop reorder => reorder

namespace Reorder

variable {α : Type}
variable {reorder : Reorder α}

/- A list that is purged is still counted. -/
theorem keeps_purged
    (hSize : 0 < reorder.winSize)
    (sn : Nat) :
    Keeps reorder (reorder.purgeSlot sn) 0 := by
  refine ⟨rfl, ?_, rfl, fun hCounted => ?_⟩
  · rw [add_zero]
    exact account_purgeSlot hSize sn
  · have hInUse := inUse_emptySlot hSize sn
    show (reorder.setSlot sn .empty).inUse ≤ reorder.storedNum
    omega

theorem keeps_releaseHead
    (timeout : Timeout)
    (jiffies : Nat)
    (hSize : 0 < reorder.winSize)
    {sn : Nat}
    (hUsed : (reorder.slot sn).frames.isEmpty = false) :
    Keeps reorder
      (releaseHead timeout jiffies sn reorder).reorder 0 := by
  have hReleased := keeps_releaseSlot hSize hUsed
  unfold releaseHead
  simp only
  split_ifs
  · exact keeps_purged hSize sn
  · exact hReleased.trans (keeps_advance _)
  · exact keeps_refl reorder
  · exact
      keeps_skwSetReorderTimer timeout jiffies reorder (u16 sn)

theorem keeps_releaseTurn
    (timeout : Timeout)
    (jiffies : Nat)
    (release : Bool)
    (sn : Nat)
    (hSize : 0 < reorder.winSize) :
    Keeps reorder
      (releaseTurn timeout jiffies release sn reorder).reorder
      0 := by
  unfold releaseTurn
  simp only
  split_ifs with hNone hEmpty
  · exact keeps_delTimer reorder
  · exact keeps_refl reorder
  · exact keeps_refl reorder
  · exact
      keeps_skwSetReorderTimer timeout jiffies reorder (u16 sn)
  · exact keeps_skwReorderForceRelease true (u16 sn) hSize
  · have hTimer := keeps_delHeadTimer reorder
    have hSame :
        reorder.delHeadTimer.slot sn = reorder.slot sn := by
      rcases delHeadTimer_cases reorder with h | h
      · rw [h]
      · rw [h]
        rfl
    refine
      hTimer.trans
        (keeps_releaseHead timeout jiffies
          (hTimer.winSize ▸ hSize) ?_)
    rw [hSame]
    exact Bool.eq_false_iff.mpr hEmpty

theorem keeps_releaseLoop
    (timeout : Timeout)
    (jiffies : Nat)
    (left : Nat)
    (release : Bool)
    (sn : Nat)
    (hSize : 0 < reorder.winSize) :
    Keeps reorder
      (releaseLoop timeout jiffies left release sn reorder)
      0 := by
  induction left generalizing release sn reorder with
  | zero => exact keeps_refl reorder
  | succ left ih =>
      have hTurn :=
        keeps_releaseTurn timeout jiffies release sn hSize
      unfold releaseLoop
      cases hNext :
          releaseTurn timeout jiffies release sn reorder with
      | next again after =>
          rw [hNext] at hTurn
          exact
            hTurn.trans (ih again (sn + 1) (hTurn.winSize ▸ hSize))
      | stop after =>
          rw [hNext] at hTurn
          exact hTurn

theorem keeps_skwReorderRelease
    (timeout : Timeout)
    (jiffies : Nat)
    (hSize : 0 < reorder.winSize) :
    Keeps reorder (skwReorderRelease timeout jiffies reorder)
      0 :=
  keeps_releaseLoop timeout jiffies reorder.winSize true
    reorder.winStart hSize

/- What is left to do for a frame that has been placed. -/
theorem keeps_reorderOut
    (timeout : Timeout)
    (jiffies : Nat)
    (sn : Nat)
    (placed : Placed α)
    (hSize : 0 < placed.reorder.winSize) :
    Keeps placed.reorder
      (reorderOut timeout jiffies sn placed) 0 := by
  unfold reorderOut
  simp only
  split_ifs
  · exact keeps_skwReorderRelease timeout jiffies hSize
  · exact keeps_skwSetReorderTimer timeout jiffies _ sn
  · exact keeps_refl _
  · exact keeps_delTimer _

------------------------------------------------------------
-- A Frame
------------------------------------------------------------

/- Its list is in use, and is counted by it or not. -/
theorem reorderComplete_keeps
    (hSize : 0 < reorder.winSize)
    (release : Bool)
    {sn winStart : Nat}
    (hUsed : (reorder.slot sn).frames.isEmpty = false) :
    (reorderComplete reorder release sn winStart).reorder.winSize =
        reorder.winSize ∧
      (reorderComplete reorder release sn
          winStart).reorder.account =
        reorder.account ∧
      (reorderComplete reorder release sn winStart).reorder.leaked =
        reorder.leaked ∧
      (reorder.inUse ≤ reorder.storedNum + 1 →
        (reorderComplete reorder release sn
            winStart).reorder.inUse ≤
          (reorderComplete reorder release sn
            winStart).reorder.storedNum) := by
  unfold reorderComplete
  split_ifs
  · have hTimer := keeps_delHeadTimer (reorder.releaseSlot sn)
    refine ⟨hTimer.winSize, ?_, hTimer.leaked, fun hCounted => ?_⟩
    · have hSame :
          (reorder.releaseSlot sn).delHeadTimer.advance.account =
            (reorder.releaseSlot sn).delHeadTimer.account := rfl
      rw [hSame, hTimer.account, add_zero]
      exact account_releaseSlot hSize sn
    · refine hTimer.counted ?_
      have hInUse := inUse_emptySlot hSize sn
      rw [weight_of_not_isEmpty hUsed] at hInUse
      show (reorder.setSlot sn .empty).inUse ≤ reorder.storedNum
      omega
  · exact ⟨rfl, rfl, rfl, id⟩

@[simp] theorem slot_setSlot
    (reorder : Reorder α)
    (sn : Nat)
    (slot : Slot α) :
    (reorder.setSlot sn slot).slot sn = slot :=
  Function.update_self _ _ _

/- A frame is freed instead of being placed. -/
theorem keeps_freeSkb
    (reorder : Reorder α)
    (skb : Skb α) :
    Keeps reorder (reorder.freeSkb skb) {skb.tag} :=
  ⟨rfl, account_freeSkb skb, rfl, id⟩

theorem keeps_releaseSkb
    (reorder : Reorder α)
    (skb : Skb α) :
    Keeps reorder (reorder.releaseSkb skb) {skb.tag} :=
  ⟨rfl, account_releaseSkb skb, rfl, id⟩

/- A frame alone in its list. -/
theorem keeps_reorderMsdu
    (hSize : 0 < reorder.winSize)
    (release : Bool)
    (winStart : Nat)
    (skb : Skb α) :
    Keeps reorder
      (reorderMsdu reorder release winStart skb).reorder
      {skb.tag} := by
  unfold reorderMsdu
  simp only
  split_ifs with hUsed
  · exact keeps_freeSkb reorder skb
  · rw [Bool.not_eq_false] at hUsed
    generalize hSlot :
      ({ reorder.slot skb.desc.sn with
          frames :=
            (reorder.slot skb.desc.sn).frames ++ [skb] } :
        Slot α) = slot
    have hFrames :
        slot.frames =
          (reorder.slot skb.desc.sn).frames ++ [skb] := by
      rw [← hSlot]
    have hFull : slot.frames.isEmpty = false := by
      rw [hFrames]
      simp
    have hInUse := inUse_setSlot hSize skb.desc.sn slot
    rw [weight_of_isEmpty hUsed, weight_of_not_isEmpty hFull]
      at hInUse
    rcases
      @reorderComplete_keeps α
        (reorder.setSlot skb.desc.sn slot) hSize release
        skb.desc.sn winStart (by rw [slot_setSlot, hFull]) with
      ⟨hWin, hAccount, hLeaked, hCounted⟩
    refine ⟨hWin, ?_, hLeaked, fun hBefore => hCounted ?_⟩
    · rw [hAccount]
      exact account_setSlot hSize skb.desc.sn hFrames
    · show (reorder.setSlot _ slot).inUse ≤ reorder.storedNum + 1
      omega

theorem weight_le_one (slot : Slot α) : slot.weight ≤ 1 := by
  unfold Slot.weight
  split_ifs
  · exact Nat.zero_le 1
  · exact le_refl 1

/- A frame of an A-MSDU, behind the others. -/
theorem keeps_reorderAmsdu
    (hSize : 0 < reorder.winSize)
    (release : Bool)
    (winStart : Nat)
    (skb : Skb α) :
    Keeps reorder
      (reorderAmsdu reorder release winStart skb).reorder
      {skb.tag} := by
  unfold reorderAmsdu
  simp only
  obtain ⟨count, hCount, hWeight⟩ :
      ∃ count,
        (if (reorder.slot skb.desc.sn).frames.isEmpty then
            reorder.stored (reorder.storedNum + 1)
          else reorder) = reorder.stored count ∧
          count + (reorder.slot skb.desc.sn).weight =
            reorder.storedNum + 1 := by
    split_ifs with hEmpty
    · exact ⟨_, rfl, by rw [weight_of_isEmpty hEmpty]⟩
    · rw [Bool.not_eq_true] at hEmpty
      exact
        ⟨reorder.storedNum, rfl, by
          rw [weight_of_not_isEmpty hEmpty]⟩
  rw [hCount]
  generalize hSlot :
    (reorder.slot skb.desc.sn).addAmsdu skb = slot
  have hFrames :
      slot.frames = (reorder.slot skb.desc.sn).frames ++ [skb] := by
    rw [← hSlot]
    rfl
  have hFull : slot.frames.isEmpty = false := by
    rw [hFrames]
    simp
  have hInUse := inUse_setSlot hSize skb.desc.sn slot
  rw [weight_of_not_isEmpty hFull] at hInUse
  have hAccount := account_setSlot hSize skb.desc.sn hFrames
  have hPlaced :
      reorder.inUse ≤ reorder.storedNum →
        (reorder.setSlot skb.desc.sn slot).inUse ≤ count := by
    intro hCounted
    omega
  have hUsed :
      ((reorder.setSlot skb.desc.sn slot).slot
        skb.desc.sn).frames.isEmpty = false := by
    rw [slot_setSlot]
    exact hFull
  split_ifs with hDup hWait hTaint
  · refine ⟨rfl, account_freeSkb skb, rfl, fun hCounted => ?_⟩
    show reorder.inUse ≤ count
    have hLess := weight_le_one (reorder.slot skb.desc.sn)
    omega
  · exact ⟨rfl, hAccount, rfl, hPlaced⟩
  · have hPurged :=
      @keeps_purgeSlot α
        ((reorder.setSlot skb.desc.sn slot).stored count) hSize
        skb.desc.sn hUsed
    refine ⟨rfl, ?_, rfl, fun hCounted => hPurged.counted ?_⟩
    · exact (hPurged.account.trans (add_zero _)).trans hAccount
    · exact hPlaced hCounted
  · rcases
      @reorderComplete_keeps α
        ((reorder.setSlot skb.desc.sn slot).stored (count - 1))
        hSize release skb.desc.sn winStart hUsed with
      ⟨hWin, hSame, hLeaked, hCounted⟩
    refine
      ⟨hWin, hSame.trans hAccount, hLeaked, fun hBefore =>
        hCounted ?_⟩
    have hLess := hPlaced hBefore
    show (reorder.setSlot _ slot).inUse ≤ count - 1 + 1
    omega

theorem keeps_reorderPlace
    (hSize : 0 < reorder.winSize)
    (release : Bool)
    (skb : Skb α) :
    Keeps reorder (reorderPlace reorder release skb).reorder
      {skb.tag} := by
  unfold reorderPlace
  split_ifs
  · exact keeps_reorderAmsdu hSize release reorder.winStart skb
  · exact keeps_reorderMsdu hSize release reorder.winStart skb

/- It comes after what makes room for it, and before the end. -/
theorem keeps_placed
    (timeout : Timeout)
    (jiffies sn : Nat)
    (hSize : 0 < reorder.winSize)
    (release : Bool)
    (skb : Skb α) :
    Keeps reorder
      (reorderOut timeout jiffies sn
        (reorderPlace reorder release skb))
      {skb.tag} := by
  have hPlace := keeps_reorderPlace hSize release skb
  exact
    hPlace.trans
      (keeps_reorderOut timeout jiffies sn _
        (hPlace.winSize ▸ hSize))

theorem keeps_reorderWindow
    (timeout : Timeout)
    (jiffies : Nat)
    (hSize : 0 < reorder.winSize)
    (skb : Skb α) :
    Keeps reorder (reorderWindow timeout jiffies reorder skb)
      {skb.tag} := by
  unfold reorderWindow
  simp only
  split_ifs
  · exact
      keeps_releaseSkb reorder { skb with skipReplayDetect := true }
  · exact
      (keeps_freeSkb reorder skb).trans
        (keeps_reorderOut timeout jiffies _
          ⟨reorder.freeSkb skb, false, false⟩ hSize)
  · exact keeps_placed timeout jiffies _ hSize false skb
  · have hForce :=
      keeps_skwReorderForceRelease true
        (snSub skb.desc.sn reorder.winSize) hSize
    have hPlaced :=
      keeps_placed timeout jiffies skb.desc.sn
        (hForce.winSize ▸ hSize) true skb
    exact
      ⟨hPlaced.winSize.trans hForce.winSize,
        by rw [hPlaced.account, hForce.account, add_zero],
        hPlaced.leaked.trans hForce.leaked,
        fun hCounted => hPlaced.counted (hForce.counted hCounted)⟩

theorem keeps_skwAmpduReorder
    (timeout : Timeout)
    (jiffies : Nat)
    (peer : PeerState)
    (hSize : 0 < reorder.winSize)
    (skb : Skb α) :
    Keeps reorder
      (skwAmpduReorder timeout jiffies peer reorder skb)
      {skb.tag} := by
  unfold skwAmpduReorder
  simp only
  split_ifs
  · exact keeps_releaseSkb reorder skb
  · exact keeps_freeSkb reorder skb
  · exact keeps_releaseSkb reorder skb
  · exact keeps_releaseSkb reorder skb
  · exact keeps_reorderWindow timeout jiffies hSize skb

theorem keeps_skwRxTodo
    (timeout : Timeout)
    (jiffies : Nat)
    (hSize : 0 < reorder.winSize) :
    Keeps reorder (skwRxTodo timeout jiffies reorder) 0 := by
  unfold skwRxTodo
  cases reorder.todo with
  | none => exact keeps_refl reorder
  | some seq =>
      have hForce := keeps_skwReorderForceRelease true seq hSize
      have hDone :
          Keeps reorder
            { skwReorderForceRelease true reorder seq with
              todo := none } 0 :=
        hForce.trans ⟨rfl, (add_zero _).symm, rfl, id⟩
      exact
        hDone.trans
          (keeps_skwReorderRelease timeout jiffies
            (hDone.winSize ▸ hSize))

end Reorder

------------------------------------------------------------
-- Runs
------------------------------------------------------------

section Runs

variable {α : Type}

theorem snModulo_pos : 0 < snModulo := by decide

/- A frame of one MSDU, with its number. -/
def msduSkb (number : Nat) : Skb Nat where
  tag := number
  desc :=
    { sn := ⟨number % snModulo, Nat.mod_lt number snModulo_pos⟩
      fragNum := 0
      moreFrag := false
      isMcAddr := false
      isAmsdu := false
      isQosData := true
      msduFilter := 0
      amsduIdx := 0
      amsduFirstIdx := false
      amsduLastIdx := false }
  data := []
  rxTime := 0
  skipReplayDetect := false

/- The frame of an action. -/
def ReorderAction.taken : ReorderAction α → Multiset α
| .receive _ _ skb => {skb.tag}
| _ => 0

/- The frames of a schedule. -/
def received (schedule : List (ReorderAction α)) : Multiset α :=
  (schedule.map ReorderAction.taken).sum

theorem keeps_reorderStep
    (timeout : Timeout)
    {reorder : Reorder α}
    (hSize : 0 < reorder.winSize)
    (action : ReorderAction α) :
    Reorder.Keeps reorder (reorderStep timeout reorder action)
      action.taken := by
  cases action with
  | receive jiffies peer skb =>
      exact
        Reorder.keeps_skwAmpduReorder timeout jiffies peer hSize
          skb
  | timer =>
      simp only [reorderStep, skwReorderTimeout]
      split_ifs
      · exact ⟨rfl, (add_zero _).symm, rfl, id⟩
      · exact Reorder.keeps_refl reorder
  | request ssn => exact ⟨rfl, (add_zero _).symm, rfl, id⟩
  | todo jiffies =>
      exact Reorder.keeps_skwRxTodo timeout jiffies hSize

theorem keeps_run
    (timeout : Timeout)
    {reorder : Reorder α}
    (hSize : 0 < reorder.winSize)
    (schedule : List (ReorderAction α)) :
    Reorder.Keeps reorder
      (Schedule.run (reorderStep timeout) reorder schedule)
      (received schedule) := by
  induction schedule generalizing reorder with
  | nil => exact Reorder.keeps_refl reorder
  | cons action rest ih =>
      have hStep := keeps_reorderStep timeout hSize action
      have hRest := ih (hStep.winSize ▸ hSize)
      refine
        ⟨hRest.winSize.trans hStep.winSize, ?_,
          hRest.leaked.trans hStep.leaked,
          fun hCounted => hRest.counted (hStep.counted hCounted)⟩
      rw [Schedule.run_cons, hRest.account, hStep.account,
        add_assoc]
      rfl

/- The size that has no lists is the one that doubles to 2^16. -/
theorem winSize_skwAddTidRx
    (ssn : Nat)
    {bufSize : Nat}
    (hWord : bufSize < 65536)
    (hBuffer : bufSize ≠ 32768) :
    0 < (skwAddTidRx ssn bufSize : Reorder α).winSize := by
  simp only [skwAddTidRx, u16]
  split_ifs <;> omega

/- The buffer starts without frames. -/
theorem account_skwAddTidRx
    (ssn bufSize : Nat) :
    (skwAddTidRx ssn bufSize : Reorder α).account = 0 := by
  simp only [Reorder.account, Reorder.buffered, skwAddTidRx]
  refine (zero_add _).trans (Finset.sum_eq_zero fun i _ => ?_)
  rfl

theorem inUse_skwAddTidRx
    (ssn bufSize : Nat) :
    (skwAddTidRx ssn bufSize : Reorder α).inUse = 0 := by
  simp only [Reorder.inUse, skwAddTidRx]
  exact Finset.sum_eq_zero fun i _ => rfl

/-
  In every run each frame that has been received was released
  once, or freed once, or is in the buffer once, and nothing
  else is. Behind the end of the session it is not in the
  buffer, but it may be lost with it. The lists in use are
  counted.
-/
theorem frames_accounted
    (timeout : Timeout)
    (ssn : Nat)
    {bufSize : Nat}
    (hWord : bufSize < 65536)
    (hBuffer : bufSize ≠ 32768)
    (schedule : List (ReorderAction α)) :
    let reorder :=
      Schedule.run (reorderStep timeout)
        (skwAddTidRx ssn bufSize) schedule
    (reorder.account = received schedule ∧ reorder.leaked = []) ∧
      ((skwDelTidRx reorder).account = received schedule ∧
        (skwDelTidRx reorder).buffered = 0) ∧
      reorder.inUse ≤ reorder.storedNum := by
  have hSize := @winSize_skwAddTidRx α ssn bufSize hWord hBuffer
  have hRun := keeps_run timeout hSize schedule
  have hAccount := hRun.account
  rw [account_skwAddTidRx, zero_add] at hAccount
  have hDel :=
    @Reorder.keeps_skwReorderForceRelease α
      (Schedule.run (reorderStep timeout)
        (skwAddTidRx ssn bufSize) schedule).delTimer
      false
      (snAdd
        (Schedule.run (reorderStep timeout)
          (skwAddTidRx ssn bufSize) schedule).winStart
        ((Schedule.run (reorderStep timeout)
          (skwAddTidRx ssn bufSize) schedule).winSize - 1))
      (hRun.winSize ▸ hSize)
  refine
    ⟨⟨hAccount, hRun.leaked⟩,
      ⟨?_, Reorder.buffered_freeBuffer _⟩, hRun.counted ?_⟩
  · rw [skwDelTidRx, Reorder.account_freeBuffer]
    exact (hDel.account.trans (add_zero _)).trans hAccount
  · rw [inUse_skwAddTidRx]
    exact Nat.zero_le _

/-
  In a window of 2048 the end of the session comes before the
  window's start: a frame behind a gap is lost.
-/
theorem frames_accounted_gap :
    let reorder :=
      Schedule.run (reorderStep ⟨100, 100⟩)
        (skwAddTidRx 0 1024 : Reorder Nat)
        [.receive 1 ⟨true, true, 0⟩ (msduSkb 0),
          .receive 2 ⟨true, true, 0⟩ (msduSkb 2)]
    reorder.released.map Skb.tag = [0] ∧
      (skwDelTidRx reorder).account = {0, 2} ∧
      (skwDelTidRx reorder).leaked.map Skb.tag = [2] :=
  ⟨by decide +kernel,
    (frames_accounted ⟨100, 100⟩ 0 (by decide) (by decide)
      [.receive 1 ⟨true, true, 0⟩ (msduSkb 0),
        .receive 2 ⟨true, true, 0⟩ (msduSkb 2)]).2.1.1,
    by decide +kernel⟩

end Runs

end Wifi

end MicaBoards
