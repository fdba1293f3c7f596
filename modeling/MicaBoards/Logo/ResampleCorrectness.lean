import MicaBoards.Foundations.Loops
import MicaBoards.Logo.Resample
import Mathlib.Algebra.BigOperators.Ring.List

/-
  The resampler is an exact area average: what it reads for a
  pixel has the weight of the source, and what it reads of a
  pixel the weight of the destination.

  Key definitions include:
    * `reads`
    * `AreaAverage`
  Main declarations:
    * `resample_areaAverage`
-/

------------------------------------------------------------
-- Reads
------------------------------------------------------------

namespace MicaBoards

namespace Logo

open Grid (overlap cellsOf)

section Sizes

variable (src : Image)

variable (sw sh dw dh : Nat)

/- A pixel that is read, and its weight. -/
structure Read where
  sy : Nat
  sx : Nat
  weight : Nat
deriving DecidableEq, Repr

/- What the loops read for a pixel of the result, in order. -/
def reads (dy dx : Nat) : List Read :=
  ((cellsOf sh dh dy).filter (overlap sh dh dy · ≠ 0)).flatMap
    fun sy =>
      ((cellsOf sw dw dx).filter (overlap sw dw dx · ≠ 0)).map
        fun sx =>
          ⟨sy, sx, overlap sw dw dx sx * overlap sh dh dy sy⟩

/- A pixel of the source. -/
def pixel (sy sx : Nat) : Colour :=
  (src.getD sy []).getD sx ⟨0, 0, 0⟩

/- The value of a pixel that is read in a channel. -/
def readValue (ch : Channel) (read : Read) : Nat :=
  (pixel src read.sy read.sx).channel ch

/- How much a pixel of the source counts for another. -/
def readWeight (sy sx dy dx : Nat) : Nat :=
  ((reads sw sh dw dh dy dx).map fun read =>
    if read.sy = sy ∧ read.sx = sx then read.weight else 0).sum

end Sizes

/- The source is an image of this size. -/
def HasSize (image : Image) (w h : Nat) : Prop :=
  image.length = h ∧ ∀ row ∈ image, row.length = w

/-
  The weighted mean, rounded to the nearest number and a half
  up, and not outside of the values.
-/
structure IsMean
    (value : Read → Nat)
    (reads : List Read)
    (mean : Nat) : Prop where
  below :
    2 * WeightedMean.total value Read.weight reads <
      (2 * mean + 1) * WeightedMean.weightOf Read.weight reads
  above :
    2 * mean * WeightedMean.weightOf Read.weight reads ≤
      2 * WeightedMean.total value Read.weight reads +
        WeightedMean.weightOf Read.weight reads
  between : ∀ lo hi,
    (∀ read ∈ reads, lo ≤ value read ∧ value read ≤ hi) →
    lo ≤ mean ∧ mean ≤ hi

/- What is promised of the image that `resample` makes. -/
structure AreaAverage
    (src : Image)
    (sw sh dw dh : Nat)
    (out : Image) : Prop where
  result : resample src sw sh dw dh = some out
  size : HasSize out dw dh
  inside : ∀ dy < dh, ∀ dx < dw,
    ∀ read ∈ reads sw sh dw dh dy dx,
      read.sy < sh ∧ read.sx < sw
  area : ∀ dy < dh, ∀ dx < dw,
    WeightedMean.weightOf Read.weight
      (reads sw sh dw dh dy dx) = sw * sh
  share : ∀ sy < sh, ∀ sx < sw,
    ((List.range dh).map fun dy =>
      ((List.range dw).map fun dx =>
        readWeight sw sh dw dh sy sx dy dx).sum).sum = dw * dh
  mean : ∀ dy < dh, ∀ dx < dw, ∀ ch,
    IsMean (readValue src ch) (reads sw sh dw dh dy dx)
      ((pixel out dy dx).channel ch)
  same : dw = sw → dh = sh → out = src

------------------------------------------------------------
-- Weights
------------------------------------------------------------

section Sizes

variable {sw sh dw dh dy dx : Nat}

/- Cells that are not met add nothing. -/
theorem sum_filter_overlap
    (s d i : Nat)
    (f : Nat → Nat) :
    (((cellsOf s d i).filter (overlap s d i · ≠ 0)).map fun j =>
      f j * overlap s d i j).sum =
      ((cellsOf s d i).map fun j => f j * overlap s d i j).sum := by
  induction cellsOf s d i with
  | nil => rfl
  | cons j cells ih =>
      rw [List.filter_cons]
      split_ifs with hMet
      · rw [List.map_cons, List.map_cons, List.sum_cons,
          List.sum_cons, ih]
      · have hZero : overlap s d i j = 0 := by simpa using hMet
        rw [List.map_cons, List.sum_cons, ih, hZero,
          Nat.mul_zero, Nat.zero_add]

/- Sums over the reads are products of sums over the cells. -/
theorem sum_reads
    (f g : Nat → Nat) :
    ((reads sw sh dw dh dy dx).map fun read =>
      f read.sy * g read.sx * read.weight).sum =
      ((cellsOf sh dh dy).map fun sy =>
          f sy * overlap sh dh dy sy).sum *
        ((cellsOf sw dw dx).map fun sx =>
          g sx * overlap sw dw dx sx).sum := by
  rw [← sum_filter_overlap sh dh dy f,
    ← sum_filter_overlap sw dw dx g]
  unfold reads
  induction (cellsOf sh dh dy).filter (overlap sh dh dy · ≠ 0)
    with
  | nil => simp
  | cons sy rows ih =>
      rw [List.flatMap_cons, List.map_append, List.sum_append,
        ih, List.map_cons, List.sum_cons, Nat.add_mul]
      congr 1
      rw [List.map_map, ← List.sum_map_mul_left]
      congr 1
      apply List.map_congr_left
      intro sx _
      rw [Function.comp_apply, Nat.mul_comm (overlap sw dw dx sx),
        Nat.mul_mul_mul_comm]

/- The weights of a pixel of the result are the source's. -/
theorem weightOf_reads
    (hWidth : 0 < dw)
    (hHeight : 0 < dh) :
    WeightedMean.weightOf Read.weight
      (reads sw sh dw dh dy dx) = sw * sh := by
  have hSum :=
    @sum_reads sw sh dw dh dy dx (fun _ => 1) (fun _ => 1)
  simp only [Nat.one_mul] at hSum
  rw [Grid.sum_overlap sh hHeight, Grid.sum_overlap sw hWidth]
    at hSum
  rw [WeightedMean.weightOf, hSum, Nat.mul_comm]

theorem readWeight_eq
    (hWidth : 0 < dw)
    (hHeight : 0 < dh)
    (sy sx : Nat) :
    readWeight sw sh dw dh sy sx dy dx =
      overlap sh dh dy sy * overlap sw dw dx sx := by
  have hSum :=
    @sum_reads sw sh dw dh dy dx
      (fun k => if k = sy then 1 else 0)
      (fun k => if k = sx then 1 else 0)
  rw [Grid.sum_overlap_at sh hHeight, Grid.sum_overlap_at sw hWidth]
    at hSum
  rw [← hSum, readWeight]
  congr 1
  apply List.map_congr_left
  intro read _
  by_cases hY : read.sy = sy
  · by_cases hX : read.sx = sx
    · rw [if_pos ⟨hY, hX⟩, if_pos hY, if_pos hX, Nat.one_mul]
    · rw [if_neg (fun hBoth => hX hBoth.2), if_neg hX,
        Nat.mul_zero, Nat.zero_mul]
  · rw [if_neg (fun hBoth => hY hBoth.1), if_neg hY,
      Nat.zero_mul, Nat.zero_mul]

/- The weights of a pixel of the source are the destination's. -/
theorem sum_readWeight
    {sy sx : Nat}
    (hWidth : 0 < dw)
    (hHeight : 0 < dh)
    (hY : sy < sh)
    (hX : sx < sw) :
    ((List.range dh).map fun dy =>
      ((List.range dw).map fun dx =>
        readWeight sw sh dw dh sy sx dy dx).sum).sum =
      dw * dh := by
  simp only [readWeight_eq hWidth hHeight, List.sum_map_mul_left,
    Grid.sum_overlap_cells hX, List.sum_map_mul_right,
    Grid.sum_overlap_cells hY]
  exact Nat.mul_comm dh dw

theorem mem_reads
    {read : Read}
    (hRead : read ∈ reads sw sh dw dh dy dx) :
    overlap sh dh dy read.sy ≠ 0 ∧
      overlap sw dw dx read.sx ≠ 0 := by
  unfold reads at hRead
  simp only [List.mem_flatMap, List.mem_map, List.mem_filter]
    at hRead
  rcases hRead with ⟨sy, ⟨_, hY⟩, sx, ⟨_, hX⟩, rfl⟩
  exact ⟨of_decide_eq_true hY, of_decide_eq_true hX⟩

/- What is read is inside of the source. -/
theorem reads_inside
    (hX : dx < dw)
    (hY : dy < dh) :
    ∀ read ∈ reads sw sh dw dh dy dx,
      read.sy < sh ∧ read.sx < sw := by
  intro read hRead
  have hMet := mem_reads hRead
  exact ⟨Grid.lt_of_overlap hY hMet.1, Grid.lt_of_overlap hX hMet.2⟩

end Sizes

------------------------------------------------------------
-- The Loops
------------------------------------------------------------

section Loops

variable {src : Image} {sw sh dw dh dy dx : Nat}

/- One row adds what is read of it. -/
theorem readRow_eq
    {srow : List Colour}
    (hRow : srow.length = sw)
    (hX : dx < dw)
    (wy : Nat)
    (acc : Acc) :
    readRow sw dw srow wy dx acc =
      some
        (((cellsOf sw dw dx).filter
          (overlap sw dw dx · ≠ 0)).foldl
          (fun acc sx =>
            acc.add (srow.getD sx ⟨0, 0, 0⟩)
              (overlap sw dw dx sx * wy))
          acc) := by
  rw [List.foldl_filter]
  apply Loops.foldlM_eq_some
  intro sx _ acc
  by_cases hZero : overlap sw dw dx sx = 0
  · simp [hZero]
  · have hIndex : sx < srow.length := by
      rw [hRow]
      exact Grid.lt_of_overlap hX hZero
    simp [hZero, List.getD_eq_getElem?_getD,
      List.getElem?_eq_getElem hIndex]

/- The loops add all that is read. -/
theorem readRows_eq
    (hSize : HasSize src sw sh)
    (hX : dx < dw)
    (hY : dy < dh) :
    readRows src sw sh dw dh dy dx =
      some
        ((reads sw sh dw dh dy dx).foldl
          (fun acc read =>
            acc.add (pixel src read.sy read.sx) read.weight)
          ⟨0, 0, 0, 0⟩) := by
  unfold reads
  rw [List.foldl_flatMap, List.foldl_filter]
  apply Loops.foldlM_eq_some
  intro sy _ acc
  by_cases hZero : overlap sh dh dy sy = 0
  · simp [hZero]
  · have hIndex : sy < src.length := by
      rw [hSize.1]
      exact Grid.lt_of_overlap hY hZero
    have hRow := hSize.2 _ (List.getElem_mem hIndex)
    simp [hZero, pixel, List.getD_eq_getElem?_getD,
      List.getElem?_eq_getElem hIndex, List.foldl_map,
      readRow_eq hRow hX]

/- What a fold has added, channel by channel. -/
theorem foldl_add
    (reads : List Read)
    (acc : Acc) :
    reads.foldl
        (fun acc read =>
          acc.add (pixel src read.sy read.sx) read.weight)
        acc =
      { r := acc.r +
          WeightedMean.total (readValue src .r) Read.weight reads
        g := acc.g +
          WeightedMean.total (readValue src .g) Read.weight reads
        b := acc.b +
          WeightedMean.total (readValue src .b) Read.weight reads
        area := acc.area +
          WeightedMean.weightOf Read.weight reads } := by
  induction reads generalizing acc with
  | nil => rfl
  | cons read reads ih =>
      rw [List.foldl_cons, ih]
      simp only [Acc.add, WeightedMean.total,
        WeightedMean.weightOf, List.map_cons, List.sum_cons,
        Nat.add_assoc, Acc.mk.injEq]
      exact ⟨rfl, rfl, rfl, trivial⟩

/- A mean that is rounded as the resampler does. -/
theorem isMean_rounded
    {value : Read → Nat}
    {reads : List Read}
    (hPos : 0 < WeightedMean.weightOf Read.weight reads) :
    IsMean value reads
      ((WeightedMean.total value Read.weight reads +
          WeightedMean.weightOf Read.weight reads / 2) /
        WeightedMean.weightOf Read.weight reads) where
  below := (WeightedMean.rounded_nearest hPos).1
  above := (WeightedMean.rounded_nearest hPos).2
  between _ _ hBounds :=
    WeightedMean.rounded_bounds hBounds hPos

/- A pixel of the result is the mean of what is read. -/
theorem resamplePixel_spec
    (hSize : HasSize src sw sh)
    (hSource : 0 < sw * sh)
    (hX : dx < dw)
    (hY : dy < dh) :
    ∃ c, resamplePixel src sw sh dw dh dy dx = some c ∧
      ∀ ch, IsMean (readValue src ch) (reads sw sh dw dh dy dx)
        (c.channel ch) := by
  have hArea :=
    @weightOf_reads sw sh dw dh dy dx (Nat.zero_lt_of_lt hX)
      (Nat.zero_lt_of_lt hY)
  have hPos :
      0 < WeightedMean.weightOf Read.weight
        (reads sw sh dw dh dy dx) := by
    rw [hArea]
    exact hSource
  unfold resamplePixel
  rw [readRows_eq hSize hX hY, foldl_add]
  simp only [Nat.zero_add]
  refine ⟨_, if_neg hPos.ne', ?_⟩
  intro ch
  cases ch with
  | r => exact isMean_rounded hPos
  | g => exact isMean_rounded hPos
  | b => exact isMean_rounded hPos

end Loops

/- A colour is its channels. -/
theorem eq_of_channel
    {c d : Colour}
    (hSame : ∀ ch, c.channel ch = d.channel ch) :
    c = d := by
  cases c
  cases d
  have hR := hSame .r
  have hG := hSame .g
  have hB := hSame .b
  simp only [Colour.channel] at hR hG hB
  subst hR hG hB
  rfl

/- An image that is made pixel by pixel. -/
def table (w h : Nat) (f : Nat → Nat → Colour) : Image :=
  (List.range h).map fun y => (List.range w).map (f y)

theorem hasSize_table
    (w h : Nat)
    (f : Nat → Nat → Colour) :
    HasSize (table w h f) w h := by
  constructor
  · rw [table, List.length_map, List.length_range]
  · intro row hRow
    rcases List.mem_map.mp hRow with ⟨y, _, rfl⟩
    rw [List.length_map, List.length_range]

theorem pixel_table
    {w h y x : Nat}
    (f : Nat → Nat → Colour)
    (hY : y < h)
    (hX : x < w) :
    pixel (table w h f) y x = f y x := by
  simp [pixel, table, List.getD_eq_getElem?_getD, hY, hX]

/- Images of one size with the same pixels are the same. -/
theorem HasSize.ext
    {first second : Image}
    {w h : Nat}
    (hFirst : HasSize first w h)
    (hSecond : HasSize second w h)
    (hPixels : ∀ y < h, ∀ x < w,
      pixel first y x = pixel second y x) :
    first = second := by
  apply List.ext_getElem (hFirst.1.trans hSecond.1.symm)
  intro y hY hY'
  have hRow : y < h := by
    rw [← hFirst.1]
    exact hY
  apply List.ext_getElem
  · rw [hFirst.2 _ (List.getElem_mem hY),
      hSecond.2 _ (List.getElem_mem hY')]
  · intro x hX hX'
    have hColumn : x < w := by
      rw [← hFirst.2 _ (List.getElem_mem hY)]
      exact hX
    have hSame := hPixels y hRow x hColumn
    simpa [pixel, List.getD_eq_getElem?_getD, hY, hY', hX, hX']
      using hSame

/-
  For every image and all sizes of at least 1 the resampler
  has a result, and it is an exact area average.
-/
theorem resample_areaAverage
    (src : Image)
    (sw sh dw dh : Nat)
    (hSource : 1 ≤ sw ∧ 1 ≤ sh)
    (hResult : 1 ≤ dw ∧ 1 ≤ dh)
    (hSize : HasSize src sw sh) :
    ∃ out, AreaAverage src sw sh dw dh out := by
  have hPos : 0 < sw * sh := Nat.mul_pos hSource.1 hSource.2
  have hPixel := fun (dy : Nat) (hY : dy < dh) (dx : Nat)
    (hX : dx < dw) => resamplePixel_spec hSize hPos hX hY
  generalize hMean :
    (fun dy dx =>
      (resamplePixel src sw sh dw dh dy dx).getD ⟨0, 0, 0⟩) =
    mean
  have hMeans : ∀ dy < dh, ∀ dx < dw,
      resamplePixel src sw sh dw dh dy dx = some (mean dy dx) ∧
        ∀ ch, IsMean (readValue src ch)
          (reads sw sh dw dh dy dx) ((mean dy dx).channel ch) := by
    intro dy hY dx hX
    rcases hPixel dy hY dx hX with ⟨c, hSome, hIsMean⟩
    have hValue : mean dy dx = c := by
      rw [← hMean]
      change (resamplePixel src sw sh dw dh dy dx).getD _ = c
      rw [hSome]
      rfl
    rw [hValue]
    exact ⟨hSome, hIsMean⟩
  refine ⟨table dw dh mean, ?_⟩
  constructor
  · apply Loops.mapM_eq_some
    intro dy hY
    apply Loops.mapM_eq_some
    intro dx hX
    exact (hMeans dy (List.mem_range.mp hY) dx
      (List.mem_range.mp hX)).1
  · exact hasSize_table dw dh mean
  · exact fun dy hY dx hX => reads_inside hX hY
  · exact fun dy _ dx _ => weightOf_reads hResult.1 hResult.2
  · exact fun sy hY sx hX =>
      sum_readWeight hResult.1 hResult.2 hY hX
  · intro dy hY dx hX
    rw [pixel_table mean hY hX]
    exact (hMeans dy hY dx hX).2
  · rintro rfl rfl
    apply (hasSize_table dw dh mean).ext hSize
    intro y hY x hX
    rw [pixel_table mean hY hX]
    apply eq_of_channel
    intro ch
    -- no pixel but its own is read
    have hOwn : ∀ read ∈ reads dw dh dw dh y x,
        (pixel src y x).channel ch ≤ readValue src ch read ∧
          readValue src ch read ≤ (pixel src y x).channel ch := by
      intro read hRead
      have hMet := mem_reads hRead
      have hRow := Grid.eq_of_overlap_self hMet.1
      have hColumn := Grid.eq_of_overlap_self hMet.2
      rw [readValue, ← hRow, ← hColumn]
      exact ⟨Nat.le_refl _, Nat.le_refl _⟩
    have hBetween :=
      ((hMeans y hY x hX).2 ch).between _ _ hOwn
    exact Nat.le_antisymm hBetween.2 hBetween.1

/- Three columns that become two, and two rows that become one. -/
def sixPixels : Image :=
  [[⟨0, 10, 255⟩, ⟨60, 20, 0⟩, ⟨120, 30, 1⟩],
    [⟨6, 40, 7⟩, ⟨66, 50, 8⟩, ⟨126, 60, 9⟩]]

theorem resample_areaAverage_sixPixels :
    AreaAverage sixPixels 3 2 2 1
      [[⟨23, 28, 89⟩, ⟨103, 42, 5⟩]] := by
  have hRows : ∀ row ∈ sixPixels, row.length = 3 := by decide
  rcases
    resample_areaAverage sixPixels 3 2 2 1
      ⟨by decide, by decide⟩ ⟨by decide, by decide⟩
      ⟨rfl, hRows⟩ with
    ⟨out, hOut⟩
  have hPixels :
      resample sixPixels 3 2 2 1 =
        some [[⟨23, 28, 89⟩, ⟨103, 42, 5⟩]] := by
    decide +kernel
  have hSame := Option.some.inj (hOut.result.symm.trans hPixels)
  rwa [hSame] at hOut

end Logo

end MicaBoards
