import MicaBoards.Foundations.Tally
import MicaBoards.Foundations.WeightedMean
import Mathlib.Data.List.Lex
import Mathlib.Data.List.Sort

/-
  The colours of the boot logo
  (`common/kernel/mklogo.py`): `quantise`, a median cut.

  A program that would stop with an error, a division by zero
  or a missing key, has no result.

  Key definitions include:
    * `Colour` and `Image`
    * `bestBox` and `splitBoxes`
    * `cutLoop`
    * `quantise`
-/

------------------------------------------------------------
-- Colours
------------------------------------------------------------

namespace MicaBoards

namespace Logo

/- A pixel, `(r, g, b)`. -/
structure Colour where
  r : Nat
  g : Nat
  b : Nat
deriving DecidableEq, Repr

/- `range(3)` -/
inductive Channel where
| r
| g
| b
deriving DecidableEq, Repr

namespace Colour

/- The tuple, as Python compares it. -/
def tuple (c : Colour) : List Nat :=
  [c.r, c.g, c.b]

/- `c[ch]` -/
def channel (c : Colour) (ch : Channel) : Nat :=
  match ch with
  | .r => c.r
  | .g => c.g
  | .b => c.b

end Colour

/- Rows of pixels. -/
abbrev Image := List (List Colour)

abbrev Box := List Colour

/- `min(c[ch] for c in box)` -/
def least (box : Box) (ch : Channel) : Nat :=
  (box.map (·.channel ch)).min?.getD 0

/- `max(c[ch] for c in box)` -/
def greatest (box : Box) (ch : Channel) : Nat :=
  (box.map (·.channel ch)).max?.getD 0

/- How far the colours of a box are apart in a channel. -/
def extent (box : Box) (ch : Channel) : Nat :=
  greatest box ch - least box ch

/- `sorted(hist.keys())` -/
def sortColours (colours : List Colour) : List Colour :=
  colours.insertionSort fun c d => c.tuple ≤ d.tuple

/- `sorted(box, key=lambda c: (c[ch], c))` -/
def sortByChannel (ch : Channel) (box : Box) : Box :=
  box.insertionSort fun c d =>
    c.channel ch :: c.tuple ≤ d.channel ch :: d.tuple

------------------------------------------------------------
-- Choosing A Box
------------------------------------------------------------

section Counts

/- `hist[c]` -/
variable (count : Colour → Nat)

/- `sum(hist[c] for c in box)` -/
def population (box : Box) : Nat :=
  WeightedMean.weightOf count box

/- `key`: the spread, the population, and `-i` -/
structure BoxKey where
  spread : Nat
  population : Nat
  minusI : Int
deriving DecidableEq, Repr

/- The key of the box at an index. -/
def boxKey (box : Box) (i : Nat) : BoxKey where
  spread :=
    max (max (extent box .r) (extent box .g)) (extent box .b)
  population := population count box
  minusI := -i

/- `key > best_key` -/
def BoxKey.above (key best : BoxKey) : Bool :=
  best.spread < key.spread ∨
    (best.spread = key.spread ∧
      (best.population < key.population ∨
        (best.population = key.population ∧
          best.minusI < key.minusI)))

/- One turn of the loop over the boxes. -/
def betterBox
    (best : Option (Nat × BoxKey))
    (entry : Box × Nat) : Option (Nat × BoxKey) :=
  if entry.1.length < 2 then
    best
  else
    let key := boxKey count entry.1 entry.2
    match best with
    | none => some (entry.2, key)
    | some (i, bestKey) =>
        if key.above bestKey then some (entry.2, key)
        else some (i, bestKey)

/- `best`, none if no box can be split -/
def bestBox (boxes : List Box) : Option Nat :=
  (boxes.zipIdx.foldl (betterBox count) none).map Prod.fst

------------------------------------------------------------
-- Splitting
------------------------------------------------------------

/-
  `max(range(3), key=lambda k: (extent of k, -k))`: the first
  of the channels that are widest.
-/
def widestChannel (box : Box) : Channel :=
  let first : Channel :=
    if extent box .r < extent box .g then .g else .r
  if extent box first < extent box .b then .b else first

/-
  The loop that looks for `cut`, from a colour on: its index
  `j`, and the colours from it on.
-/
def cutFrom
    (total len : Nat)
    (run j : Nat) : Box → Nat
| [] => 1
| c :: rest =>
    if total ≤ (run + count c) * 2 then
      min (max j 1) (len - 1)
    else
      cutFrom total len (run + count c) (j + 1) rest

/- The two boxes that a box is split into. -/
def splitBox (box : Box) : Box × Box :=
  let sorted := sortByChannel (widestChannel box) box
  let total := population count sorted
  let cut := cutFrom count total sorted.length 0 0 sorted
  (sorted.take cut, sorted.drop cut)

/- `boxes[best:best + 1] = [box[:cut], box[cut:]]` -/
def splitBoxes (boxes : List Box) (best : Nat) : List Box :=
  let halves := splitBox count (boxes.getD best [])
  boxes.take best ++ [halves.1, halves.2] ++
    boxes.drop (best + 1)

/- What the loop over the boxes has is one of them. -/
theorem foldl_betterBox
    {entries : List (Box × Nat)}
    {best : Option (Nat × BoxKey)}
    {i : Nat}
    {key : BoxKey}
    (hFold :
      entries.foldl (betterBox count) best = some (i, key)) :
    (∃ old, best = some (i, old)) ∨
      ∃ box, (box, i) ∈ entries ∧ 2 ≤ box.length := by
  induction entries generalizing best with
  | nil => exact Or.inl ⟨key, hFold⟩
  | cons entry entries ih =>
      rcases ih hFold with ⟨old, hOld⟩ | ⟨box, hMem, hLength⟩
      · rw [betterBox] at hOld
        split_ifs at hOld with hSmall
        · exact Or.inl ⟨old, hOld⟩
        have hThis :
            i = entry.2 →
            ∃ box, (box, i) ∈ entry :: entries ∧
              2 ≤ box.length := by
          rintro rfl
          exact ⟨entry.1, List.mem_cons_self,
            Nat.le_of_not_lt hSmall⟩
        cases best with
        | none =>
            cases hOld
            exact Or.inr (hThis rfl)
        | some other =>
            simp only at hOld
            split_ifs at hOld with hAbove
            · cases hOld
              exact Or.inr (hThis rfl)
            · cases hOld
              exact Or.inl ⟨_, rfl⟩
      · exact Or.inr
          ⟨box, List.mem_cons_of_mem _ hMem, hLength⟩

/- A box that is chosen is one that can be split. -/
theorem bestBox_eq_some
    {boxes : List Box}
    {best : Nat}
    (hBest : bestBox count boxes = some best) :
    ∃ box, boxes[best]? = some box ∧ 2 ≤ box.length := by
  rcases Option.map_eq_some_iff.mp hBest with
    ⟨⟨i, key⟩, hFold, rfl⟩
  rcases foldl_betterBox count hFold with
    ⟨old, hNone⟩ | ⟨box, hMem, hLength⟩
  · cases hNone
  · exact ⟨box, List.mk_mem_zipIdx_iff_getElem?.mp hMem, hLength⟩

theorem length_splitBoxes
    {boxes : List Box}
    {best : Nat}
    (hBest : bestBox count boxes = some best) :
    (splitBoxes count boxes best).length = boxes.length + 1 := by
  rcases bestBox_eq_some count hBest with ⟨box, hBox, _⟩
  have hIndex := (List.getElem?_eq_some_iff.mp hBox).1
  unfold splitBoxes
  simp only [List.length_append, List.length_take,
    List.length_cons, List.length_nil, List.length_drop]
  omega

/- `while len(boxes) < limit`, with its `break` -/
def cutLoop (limit : Nat) (boxes : List Box) : List Box :=
  if _hMore : boxes.length < limit then
    match _hBest : bestBox count boxes with
    | none => boxes
    | some best => cutLoop limit (splitBoxes count boxes best)
  else
    boxes
termination_by limit - boxes.length
decreasing_by
  rw [length_splitBoxes count _hBest]
  omega

------------------------------------------------------------
-- Mapping
------------------------------------------------------------

/- `rep`, none where it divides by zero -/
def representative (box : Box) : Option Colour :=
  let n := population count box
  if n = 0 then
    none
  else
    some
      { r := WeightedMean.total (·.r) count box / n
        g := WeightedMean.total (·.g) count box / n
        b := WeightedMean.total (·.b) count box / n }

/- `mapping[c] = rep`, for each colour of the boxes -/
def mappingOf :
    List Box → (Colour → Option Colour) →
    Option (Colour → Option Colour)
| [], mapping => some mapping
| box :: boxes, mapping =>
    match representative count box with
    | none => none
    | some rep =>
        mappingOf boxes
          (box.foldl
            (fun mapping c => fun d =>
              if d = c then some rep else mapping d)
            mapping)

end Counts

/- `boxes`, after the loop -/
def finalBoxes (hist : Tally Colour) (limit : Nat) : List Box :=
  cutLoop hist.get limit [sortColours hist.keys]

/- `quantise`, with the histogram that it has built -/
def quantiseWith
    (hist : Tally Colour)
    (rows : Image)
    (limit : Nat) : Option Image :=
  if hist.length ≤ limit then
    some rows
  else
    match mappingOf hist.get (finalBoxes hist limit)
        (fun _ => none) with
    | none => none
    | some mapping => rows.mapM fun row => row.mapM mapping

/- `quantise` -/
def quantise (rows : Image) (limit : Nat) : Option Image :=
  quantiseWith (Tally.of rows.flatten) rows limit

end Logo

end MicaBoards
