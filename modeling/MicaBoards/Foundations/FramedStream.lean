import Mathlib.Data.List.Basic
import Mathlib.Data.Nat.Init

/-
  Streams of frames that arrive in pieces.

  A framing tells from the bytes at hand whether a frame is
  complete, and its answers do not change when more bytes
  follow. Then decoding piece by piece, with the undecoded
  rest kept for the next piece, gives the frames of decoding
  the whole stream at once.

  Main declarations:
    * `Framing`
    * `Framing.split`
    * `Framing.split_append`
    * `Framing.FedAs.feed`
    * `Framing.split_flatten`
-/

------------------------------------------------------------
-- Framings
------------------------------------------------------------

namespace MicaBoards

/- What the bytes at hand say about the first frame. -/
inductive Verdict where
| invalid
| incomplete
| complete (size : Nat)
deriving DecidableEq, Repr

/- A verdict that more bytes do not change. -/
structure Framing (α : Type) where
  verdict : List α → Verdict
  bounds : ∀ {xs size},
    verdict xs = .complete size →
    0 < size ∧ size ≤ xs.length
  append_complete : ∀ {xs size} (ys : List α),
    verdict xs = .complete size →
    verdict (xs ++ ys) = .complete size
  append_invalid : ∀ {xs} (ys : List α),
    verdict xs = .invalid →
    verdict (xs ++ ys) = .invalid
  take_complete : ∀ {xs size},
    verdict xs = .complete size →
    verdict (xs.take size) = .complete size

/-
  The frames of some bytes, the bytes after them, and
  whether those may still begin a frame.
-/
structure Split (α : Type) where
  frames : List (List α)
  rest : List α
  valid : Bool
deriving DecidableEq, Repr

namespace Framing

variable {α : Type}

variable (F : Framing α)

/- The frames of the bytes, up to the first invalid one. -/
def split (xs : List α) : Split α :=
  match _hVerdict : F.verdict xs with
  | .invalid => ⟨[], xs, false⟩
  | .incomplete => ⟨[], xs, true⟩
  | .complete size =>
      let tail := split (xs.drop size)
      ⟨xs.take size :: tail.frames, tail.rest, tail.valid⟩
termination_by xs.length
decreasing_by
  have hBounds := F.bounds _hVerdict
  rw [List.length_drop]
  omega

/- Bytes that begin no frame. -/
theorem split_of_invalid
    {xs : List α}
    (hVerdict : F.verdict xs = .invalid) :
    F.split xs = ⟨[], xs, false⟩ := by
  rw [split]
  split <;> simp_all

/- Bytes that are not yet a frame. -/
theorem split_of_incomplete
    {xs : List α}
    (hVerdict : F.verdict xs = .incomplete) :
    F.split xs = ⟨[], xs, true⟩ := by
  rw [split]
  split <;> simp_all

/- Bytes that begin with a frame. -/
theorem split_of_complete
    {xs : List α}
    {size : Nat}
    (hVerdict : F.verdict xs = .complete size) :
    F.split xs =
      ⟨xs.take size :: (F.split (xs.drop size)).frames,
        (F.split (xs.drop size)).rest,
        (F.split (xs.drop size)).valid⟩ := by
  rw [split]
  split
  · rename_i hOther
    rw [hVerdict] at hOther
    cases hOther
  · rename_i hOther
    rw [hVerdict] at hOther
    cases hOther
  · rename_i other hOther
    rw [hVerdict] at hOther
    cases hOther
    rfl

/-
  To prove something of all bytes, prove it of bytes that
  begin no frame, that are not yet one, and that begin with
  one, from what follows it.
-/
theorem induction_on
    {motive : List α → Prop}
    (invalid : ∀ xs,
      F.verdict xs = .invalid → motive xs)
    (incomplete : ∀ xs,
      F.verdict xs = .incomplete → motive xs)
    (complete : ∀ xs size,
      F.verdict xs = .complete size →
      motive (xs.drop size) →
      motive xs)
    (xs : List α) :
    motive xs := by
  induction hLength : xs.length using Nat.strong_induction_on
    generalizing xs with
  | _ length ih =>
      cases hVerdict : F.verdict xs with
      | invalid => exact invalid xs hVerdict
      | incomplete => exact incomplete xs hVerdict
      | complete size =>
          have hBounds := F.bounds hVerdict
          have hShorter : (xs.drop size).length < length := by
            rw [List.length_drop]
            omega
          exact
            complete xs size hVerdict
              (ih _ hShorter (xs.drop size) rfl)

/- A frame of the split is a whole frame. -/
theorem verdict_of_mem_frames
    {xs frame : List α}
    (hFrame : frame ∈ (F.split xs).frames) :
    F.verdict frame = .complete frame.length := by
  induction xs using F.induction_on with
  | invalid xs hVerdict =>
      simp [F.split_of_invalid hVerdict] at hFrame
  | incomplete xs hVerdict =>
      simp [F.split_of_incomplete hVerdict] at hFrame
  | complete xs size hVerdict ih =>
      rw [F.split_of_complete hVerdict, List.mem_cons] at hFrame
      rcases hFrame with rfl | hFrame
      · rw [List.length_take,
          Nat.min_eq_left (F.bounds hVerdict).2]
        exact F.take_complete hVerdict
      · exact ih hFrame

/- What is left begins no complete frame. -/
theorem verdict_rest (xs : List α) :
    F.verdict (F.split xs).rest =
      if (F.split xs).valid then .incomplete else .invalid := by
  induction xs using F.induction_on with
  | invalid xs hVerdict =>
      simp [F.split_of_invalid hVerdict, hVerdict]
  | incomplete xs hVerdict =>
      simp [F.split_of_incomplete hVerdict, hVerdict]
  | complete xs size hVerdict ih =>
      simpa [F.split_of_complete hVerdict] using ih

------------------------------------------------------------
-- Pieces
------------------------------------------------------------

/- More bytes after valid ones are decoded after the rest. -/
theorem split_append
    (xs ys : List α) :
    (F.split (xs ++ ys)).frames =
        (if (F.split xs).valid then
          (F.split xs).frames ++
            (F.split ((F.split xs).rest ++ ys)).frames
        else
          (F.split xs).frames) ∧
      (F.split (xs ++ ys)).valid =
        (if (F.split xs).valid then
          (F.split ((F.split xs).rest ++ ys)).valid
        else
          false) ∧
      ((F.split xs).valid = true →
        (F.split (xs ++ ys)).rest =
          (F.split ((F.split xs).rest ++ ys)).rest) := by
  induction xs using F.induction_on with
  | invalid xs hVerdict =>
      have hAppend := F.append_invalid ys hVerdict
      simp [F.split_of_invalid hVerdict,
        F.split_of_invalid hAppend]
  | incomplete xs hVerdict =>
      simp [F.split_of_incomplete hVerdict]
  | complete xs size hVerdict ih =>
      have hAppend := F.append_complete ys hVerdict
      have hSize := (F.bounds hVerdict).2
      have hTake : (xs ++ ys).take size = xs.take size :=
        List.take_append_of_le_length hSize
      have hDrop :
          (xs ++ ys).drop size = xs.drop size ++ ys :=
        List.drop_append_of_le_length hSize
      rw [F.split_of_complete hVerdict,
        F.split_of_complete hAppend, hTake, hDrop]
      rcases ih with ⟨hFrames, hValid, hRest⟩
      refine ⟨?_, hValid, hRest⟩
      rw [hFrames]
      split_ifs <;> rfl

/- One more piece, after the rest of the earlier ones. -/
def feed (fed : Split α) (piece : List α) : Split α :=
  if fed.valid then
    let next := F.split (fed.rest ++ piece)
    ⟨fed.frames ++ next.frames, next.rest, next.valid⟩
  else
    fed

/- Nothing fed so far. -/
def start : Split α := ⟨[], [], true⟩

/- Bytes that have been decoded, as if fed at once. -/
structure FedAs (fed : Split α) (xs : List α) : Prop where
  frames : fed.frames = (F.split xs).frames
  valid : fed.valid = (F.split xs).valid
  rest : fed.valid = true → fed.rest = (F.split xs).rest

/- One piece more. -/
theorem FedAs.feed
    {fed : Split α}
    {xs : List α}
    (hFed : F.FedAs fed xs)
    (piece : List α) :
    F.FedAs (F.feed fed piece) (xs ++ piece) := by
  rcases F.split_append xs piece with
    ⟨hFrames, hValid, hRest⟩
  have hSame := hFed.valid
  unfold Framing.feed
  split_ifs with hOpen
  · rw [hOpen] at hSame
    rw [← hSame, if_pos rfl] at hFrames hValid
    have hKept := hFed.rest hOpen
    refine ⟨?_, ?_, fun _ => ?_⟩
    · simp only [hFrames, hFed.frames, hKept]
    · simp only [hValid, hKept]
    · simp only [hRest hSame.symm, hKept]
  · have hClosed : fed.valid = false := by simpa using hOpen
    rw [hClosed] at hSame
    rw [← hSame, if_neg (by simp)] at hFrames hValid
    exact
      ⟨by rw [hFed.frames, hFrames], by rw [hClosed, hValid],
        fun h => absurd h hOpen⟩

/- Nothing fed is no bytes. -/
theorem fedAs_start
    (hNil : F.verdict [] = .incomplete) :
    F.FedAs (start : Split α) [] := by
  rw [start]
  constructor <;> simp [F.split_of_incomplete hNil]

/- Whole frames in a row are the frames. -/
theorem split_flatten
    (hNil : F.verdict [] = .incomplete)
    {frames : List (List α)}
    (hFrames : ∀ frame ∈ frames,
      F.verdict frame = .complete frame.length) :
    F.split frames.flatten = ⟨frames, [], true⟩ := by
  induction frames with
  | nil => simpa using F.split_of_incomplete hNil
  | cons frame frames ih =>
      have hFirst :=
        F.append_complete frames.flatten
          (hFrames frame (by simp))
      have hRest :=
        ih fun frame hFrame => hFrames frame (by simp [hFrame])
      rw [List.flatten_cons, F.split_of_complete hFirst,
        List.take_left, List.drop_left, hRest]

/- The frames and what is left are the bytes. -/
theorem flatten_frames_append_rest (xs : List α) :
    (F.split xs).frames.flatten ++ (F.split xs).rest = xs := by
  induction xs using F.induction_on with
  | invalid xs hVerdict =>
      rw [F.split_of_invalid hVerdict]
      rfl
  | incomplete xs hVerdict =>
      rw [F.split_of_incomplete hVerdict]
      rfl
  | complete xs size hVerdict ih =>
      rw [F.split_of_complete hVerdict, List.flatten_cons,
        List.append_assoc, ih, List.take_append_drop]

/- The frames of the beginning come first. -/
theorem frames_prefix
    {xs ys : List α}
    (hPrefix : xs <+: ys) :
    (F.split xs).frames <+: (F.split ys).frames := by
  rcases hPrefix with ⟨later, rfl⟩
  rw [(F.split_append xs later).1]
  split_ifs
  · exact List.prefix_append _ _
  · exact List.prefix_rfl

/- Whole frames come first. -/
theorem split_flatten_append
    (hNil : F.verdict [] = .incomplete)
    {frames : List (List α)}
    (hFrames : ∀ frame ∈ frames,
      F.verdict frame = .complete frame.length)
    (xs : List α) :
    (F.split (frames.flatten ++ xs)).frames =
      frames ++ (F.split xs).frames := by
  rw [(F.split_append frames.flatten xs).1,
    F.split_flatten hNil hFrames]
  rfl

/- The beginning of whole frames is valid. -/
theorem split_of_prefix_flatten
    (hNil : F.verdict [] = .incomplete)
    {frames : List (List α)}
    (hFrames : ∀ frame ∈ frames,
      F.verdict frame = .complete frame.length)
    {xs : List α}
    (hPrefix : xs <+: frames.flatten) :
    (F.split xs).valid = true ∧
      (F.split xs).frames <+: frames := by
  rcases hPrefix with ⟨later, hLater⟩
  rcases F.split_append xs later with ⟨hSplit, hValid, _⟩
  rw [hLater, F.split_flatten hNil hFrames] at hSplit hValid
  cases hOpen : (F.split xs).valid with
  | false =>
      rw [hOpen] at hValid
      cases hValid
  | true =>
      rw [hOpen, if_pos rfl] at hSplit
      exact ⟨rfl, ⟨_, hSplit.symm⟩⟩

/- Bytes that begin with whole frames have these. -/
theorem prefix_frames_of_flatten
    (hNil : F.verdict [] = .incomplete)
    {frames : List (List α)}
    (hFrames : ∀ frame ∈ frames,
      F.verdict frame = .complete frame.length)
    {xs : List α}
    (hPrefix : frames.flatten <+: xs) :
    frames <+: (F.split xs).frames := by
  rcases hPrefix with ⟨later, rfl⟩
  rw [F.split_flatten_append hNil hFrames]
  exact List.prefix_append _ _

end Framing

end MicaBoards
