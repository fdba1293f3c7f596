import MicaBoards.Foundations.Loops
import MicaBoards.Logo.Quantise
import Mathlib.Data.Finset.Dedup
import Mathlib.Data.Finset.Card

/-
  The quantiser is a median cut: its boxes divide the colours
  of the image, and each colour goes to one within its box.

  Key definitions include:
    * `Partition`
    * `CutsTo`
    * `MedianCut`
  Main declarations:
    * `quantise_medianCut`
-/

------------------------------------------------------------
-- Cuts
------------------------------------------------------------

namespace MicaBoards

namespace Logo

/- Boxes that hold each colour once, and none is empty. -/
structure Partition
    (colours : List Colour)
    (boxes : List Box) : Prop where
  nonempty : ∀ box ∈ boxes, box ≠ []
  perm : boxes.flatten.Perm colours

section Counts

variable {count : Colour → Nat}

/- The cut leaves colours on both sides. -/
theorem cutFrom_bounds
    {total len run j : Nat}
    (hLength : 2 ≤ len)
    (box : Box) :
    1 ≤ cutFrom count total len run j box ∧
      cutFrom count total len run j box ≤ len - 1 := by
  induction box generalizing run j with
  | nil =>
      unfold cutFrom
      omega
  | cons c box ih =>
      unfold cutFrom
      split_ifs
      · omega
      · exact ih

theorem perm_sortByChannel
    (ch : Channel)
    (box : Box) :
    (sortByChannel ch box).Perm box :=
  List.perm_insertionSort _ box

/- A box is split into its colours, some on each side. -/
theorem splitBox_spec
    {box : Box}
    (hLength : 2 ≤ box.length) :
    (splitBox count box).1 ≠ [] ∧ (splitBox count box).2 ≠ [] ∧
      ((splitBox count box).1 ++ (splitBox count box).2).Perm
        box := by
  have hPerm := perm_sortByChannel (widestChannel box) box
  unfold splitBox
  simp only
  generalize sortByChannel (widestChannel box) box = sorted at *
  have hSorted : 2 ≤ sorted.length := by
    rw [hPerm.length_eq]
    exact hLength
  have hCut :=
    @cutFrom_bounds count (population count sorted) _ 0 0 hSorted
      sorted
  generalize cutFrom count _ _ _ _ sorted = cut at *
  refine ⟨?_, ?_, ?_⟩
  · apply List.ne_nil_of_length_pos
    rw [List.length_take]
    omega
  · apply List.ne_nil_of_length_pos
    rw [List.length_drop]
    omega
  · rw [List.take_append_drop]
    exact hPerm

/- A cut divides one box. -/
theorem Partition.splitBoxes
    {colours : List Colour}
    {boxes : List Box}
    (hPartition : Partition colours boxes)
    {best : Nat}
    (hBest : bestBox count boxes = some best) :
    Partition colours (splitBoxes count boxes best) := by
  rcases bestBox_eq_some count hBest with ⟨box, hBox, hLength⟩
  rcases List.getElem?_eq_some_iff.mp hBox with ⟨hIndex, hGet⟩
  have hBoxes :
      boxes = boxes.take best ++ box :: boxes.drop (best + 1) := by
    rw [← hGet, ← List.drop_eq_getElem_cons hIndex,
      List.take_append_drop]
  have hHalves := @splitBox_spec count box hLength
  have hGetD : boxes.getD best [] = box := by
    rw [List.getD_eq_getElem?_getD, hBox]
    rfl
  unfold Logo.splitBoxes
  rw [hGetD]
  generalize splitBox count box = halves at hHalves ⊢
  constructor
  · intro other hMem
    rw [List.mem_append, List.mem_append, List.mem_pair] at hMem
    rcases hMem with (hFront | rfl | rfl) | hBack
    · exact hPartition.nonempty other (List.mem_of_mem_take hFront)
    · exact hHalves.1
    · exact hHalves.2.1
    · exact hPartition.nonempty other (List.mem_of_mem_drop hBack)
  · refine List.Perm.trans ?_ hPartition.perm
    conv_rhs => rw [hBoxes]
    simp only [List.flatten_append, List.flatten_cons,
      List.flatten_nil, List.append_nil, List.append_assoc]
    apply List.Perm.append_left
    rw [← List.append_assoc]
    exact hHalves.2.2.append_right _

variable (count) in
/- The boxes that the loop comes to from others. -/
inductive CutsTo (limit : Nat) : List Box → List Box → Prop
| done (boxes : List Box) : CutsTo limit boxes boxes
| cut
    {boxes later : List Box}
    {best : Nat}
    (hMore : boxes.length < limit)
    (hBest : bestBox count boxes = some best)
    (hLater : CutsTo limit (Logo.splitBoxes count boxes best) later) :
    CutsTo limit boxes later

/- Every cut keeps a partition. -/
theorem Partition.cutsTo
    {colours : List Colour}
    {limit : Nat}
    {boxes later : List Box}
    (hPartition : Partition colours boxes)
    (hCuts : CutsTo count limit boxes later) :
    Partition colours later := by
  induction hCuts with
  | done => exact hPartition
  | cut hMore hBest hLater ih =>
      exact ih (hPartition.splitBoxes hBest)

theorem CutsTo.length_le
    {limit : Nat}
    {boxes later : List Box}
    (hCuts : CutsTo count limit boxes later)
    (hLength : boxes.length ≤ limit) :
    later.length ≤ limit := by
  induction hCuts with
  | done => exact hLength
  | cut hMore hBest hLater ih =>
      apply ih
      rw [length_splitBoxes count hBest]
      exact hMore

/- The loop comes to boxes of which it splits no more. -/
theorem cutsTo_cutLoop
    (limit : Nat)
    (boxes : List Box) :
    CutsTo count limit boxes (cutLoop count limit boxes) ∧
      (limit ≤ (cutLoop count limit boxes).length ∨
        bestBox count (cutLoop count limit boxes) = none) := by
  fun_induction cutLoop count limit boxes with
  | case1 boxes hMore hNone =>
      exact ⟨.done boxes, Or.inr hNone⟩
  | case2 boxes hMore best hBest ih =>
      exact ⟨.cut hMore hBest ih.1, ih.2⟩
  | case3 boxes hMore =>
      exact ⟨.done boxes, Or.inl (Nat.le_of_not_lt hMore)⟩

/- With no box that could be split, each has one colour. -/
theorem foldl_betterBox_eq_none
    {entries : List (Box × Nat)}
    {best : Option (Nat × BoxKey)}
    (hFold :
      entries.foldl (betterBox count) best = none) :
    best = none ∧ ∀ entry ∈ entries, entry.1.length < 2 := by
  induction entries generalizing best with
  | nil => exact ⟨hFold, fun _ hMem => by cases hMem⟩
  | cons entry entries ih =>
      rcases ih hFold with ⟨hBest, hSmall⟩
      rw [betterBox] at hBest
      split_ifs at hBest with hLength
      · exact ⟨hBest, List.forall_mem_cons.mpr
          ⟨hLength, hSmall⟩⟩
      · cases best with
        | none => cases hBest
        | some other =>
            simp only at hBest
            split_ifs at hBest

theorem bestBox_eq_none
    {boxes : List Box}
    (hNone : bestBox count boxes = none) :
    ∀ box ∈ boxes, box.length < 2 := by
  intro box hMem
  have hFold := Option.map_eq_none_iff.mp hNone
  have hSmall := (foldl_betterBox_eq_none hFold).2
  rcases List.getElem_of_mem hMem with ⟨i, hIndex, rfl⟩
  apply hSmall (boxes[i], i)
  apply List.mk_mem_zipIdx_iff_getElem?.mpr
  exact List.getElem?_eq_getElem hIndex

------------------------------------------------------------
-- Representatives
------------------------------------------------------------

/- The values of a box in a channel are within its bounds. -/
theorem channel_bounds
    (box : Box)
    (ch : Channel) :
    ∀ c ∈ box,
      least box ch ≤ c.channel ch ∧
        c.channel ch ≤ greatest box ch := by
  intro c hMem
  have hValue : c.channel ch ∈ box.map (·.channel ch) :=
    List.mem_map_of_mem hMem
  unfold least greatest
  generalize box.map (·.channel ch) = values at hValue
  constructor
  · cases hMin : values.min? with
    | none =>
        rw [List.min?_eq_none_iff] at hMin
        rw [hMin] at hValue
        cases hValue
    | some low =>
        exact (List.min?_eq_some_iff.mp hMin).2 _ hValue
  · cases hMax : values.max? with
    | none =>
        rw [List.max?_eq_none_iff] at hMax
        rw [hMax] at hValue
        cases hValue
    | some high =>
        exact (List.max?_eq_some_iff.mp hMax).2 _ hValue

/- A box of colours that occur has pixels. -/
theorem population_pos
    {box : Box}
    (hNonempty : box ≠ [])
    (hCount : ∀ c ∈ box, 0 < count c) :
    0 < population count box := by
  rcases List.exists_mem_of_ne_nil box hNonempty with ⟨c, hMem⟩
  apply List.sum_pos_iff_exists_pos_nat.mpr
  exact ⟨count c, List.mem_map_of_mem hMem, hCount c hMem⟩

/- The colour of a box is there, and within its bounds. -/
theorem representative_spec
    {box : Box}
    (hNonempty : box ≠ [])
    (hCount : ∀ c ∈ box, 0 < count c) :
    ∃ rep, representative count box = some rep ∧
      ∀ ch, least box ch ≤ rep.channel ch ∧
        rep.channel ch ≤ greatest box ch := by
  have hPos := population_pos hNonempty hCount
  unfold representative
  refine ⟨_, if_neg hPos.ne', ?_⟩
  intro ch
  cases ch with
  | r => exact WeightedMean.bounds (channel_bounds box .r) hPos
  | g => exact WeightedMean.bounds (channel_bounds box .g) hPos
  | b => exact WeightedMean.bounds (channel_bounds box .b) hPos

/- The colours of a box are mapped to its representative. -/
theorem foldl_mapping
    (box : Box)
    (rep : Colour)
    (mapping : Colour → Option Colour)
    (c : Colour) :
    box.foldl
        (fun mapping c => fun d =>
          if d = c then some rep else mapping d)
        mapping c =
      if c ∈ box then some rep else mapping c := by
  induction box generalizing mapping with
  | nil => rfl
  | cons d box ih =>
      rw [List.foldl_cons, ih]
      by_cases hMem : c ∈ box
      · rw [if_pos hMem, if_pos (List.mem_cons_of_mem d hMem)]
      · rw [if_neg hMem]
        apply if_congr _ rfl rfl
        rw [List.mem_cons]
        exact (or_iff_left hMem).symm

/- A colour of the boxes has the colour of one that holds it. -/
theorem mappingOf_spec
    {boxes : List Box}
    (hReps : ∀ box ∈ boxes,
      ∃ rep, representative count box = some rep)
    (mapping : Colour → Option Colour) :
    ∃ final, mappingOf count boxes mapping = some final ∧
      ∀ c, (final c = mapping c ∧ ∀ box ∈ boxes, c ∉ box) ∨
        ∃ box ∈ boxes,
          c ∈ box ∧ final c = representative count box := by
  induction boxes generalizing mapping with
  | nil =>
      exact ⟨mapping, rfl, fun c =>
        Or.inl ⟨rfl, fun _ hMem => by cases hMem⟩⟩
  | cons box boxes ih =>
      rcases List.forall_mem_cons.mp hReps with
        ⟨⟨rep, hRep⟩, hRest⟩
      rcases ih hRest (box.foldl _ mapping) with
        ⟨final, hFinal, hSpec⟩
      refine ⟨final, ?_, ?_⟩
      · rw [mappingOf, hRep]
        exact hFinal
      · intro c
        rcases hSpec c with ⟨hSame, hNone⟩ | ⟨other, hMem, hIn⟩
        · rw [foldl_mapping box rep mapping c] at hSame
          by_cases hBox : c ∈ box
          · rw [if_pos hBox] at hSame
            exact Or.inr ⟨box, List.mem_cons_self, hBox,
              hSame.trans hRep.symm⟩
          · rw [if_neg hBox] at hSame
            exact Or.inl ⟨hSame, List.forall_mem_cons.mpr
              ⟨hBox, hNone⟩⟩
        · exact Or.inr
            ⟨other, List.mem_cons_of_mem _ hMem, hIn⟩

end Counts

------------------------------------------------------------
-- The Quantiser
------------------------------------------------------------

/- The histogram of an image. -/
def histogram (rows : Image) : Tally Colour :=
  Tally.of rows.flatten

/- The colours of an image. -/
def colours (rows : Image) : Finset Colour :=
  rows.flatten.toFinset

/-
  What is promised of the image that `quantise` makes. Where
  it has few colours it has no boxes.
-/
structure MedianCut
    (rows : Image)
    (limit : Nat)
    (out : Image) : Prop where
  result : quantise rows limit = some out
  dimensions : out.map List.length = rows.map List.length
  few : (colours out).card ≤ limit
  unchanged : (colours rows).card ≤ limit → out = rows
  partitions :
    limit < (colours rows).card →
    ∀ boxes,
      CutsTo (histogram rows).get limit
        [sortColours (histogram rows).keys] boxes →
      Partition (histogram rows).keys boxes
  ends :
    limit < (colours rows).card →
    CutsTo (histogram rows).get limit
        [sortColours (histogram rows).keys]
        (finalBoxes (histogram rows) limit) ∧
      (finalBoxes (histogram rows) limit).length = limit
  mapped : ∃ rep : Colour → Colour,
    out = rows.map (List.map rep) ∧
      (limit < (colours rows).card →
        ∀ c ∈ colours rows,
          ∃ box ∈ finalBoxes (histogram rows) limit,
            c ∈ box ∧
              ∀ ch, least box ch ≤ (rep c).channel ch ∧
                (rep c).channel ch ≤ greatest box ch)
  anyOrder : ∀ pixels : List Colour,
    pixels.Perm rows.flatten →
    quantiseWith (Tally.of pixels) rows limit = some out

/- The keys of the histogram are the colours. -/
theorem length_histogram (rows : Image) :
    (histogram rows).length = (colours rows).card := by
  have hNodup := Tally.nodup_keys_of rows.flatten
  have hSame :
      (Tally.of rows.flatten).keys.toFinset = colours rows := by
    ext c
    rw [colours, List.mem_toFinset, List.mem_toFinset,
      Tally.mem_keys_of]
  rw [← hSame, List.toFinset_card_of_nodup hNodup, Tally.keys,
    List.length_map]
  rfl

instance sortColours_total :
    Std.Total fun c d : Colour => c.tuple ≤ d.tuple where
  total _ _ := le_total _ _

instance sortColours_trans :
    IsTrans Colour fun c d => c.tuple ≤ d.tuple where
  trans _ _ _ := le_trans

/- The sorted colours do not depend on their order. -/
theorem sortColours_eq_of_perm
    {xs ys : List Colour}
    (hPerm : xs.Perm ys) :
    sortColours xs = sortColours ys := by
  unfold sortColours
  apply @List.Perm.eq_of_pairwise _
    (fun c d : Colour => c.tuple ≤ d.tuple)
  · intro c d _ _ hLe hGe
    have hTuple := le_antisymm hLe hGe
    cases c
    cases d
    cases hTuple
    rfl
  · exact List.pairwise_insertionSort _ xs
  · exact List.pairwise_insertionSort _ ys
  · exact (List.perm_insertionSort _ xs).trans
      (hPerm.trans (List.perm_insertionSort _ ys).symm)

/- The histogram may be built in any order. -/
theorem quantiseWith_perm
    {pixels : List Colour}
    {rows : Image}
    (hPerm : pixels.Perm rows.flatten)
    (limit : Nat) :
    quantiseWith (Tally.of pixels) rows limit =
      quantise rows limit := by
  have hKeys := Tally.keys_of_perm hPerm
  have hGet :
      (Tally.of pixels).get = (Tally.of rows.flatten).get := by
    funext c
    rw [Tally.get_of, Tally.get_of, hPerm.count_eq]
  have hLength :
      (Tally.of pixels).length =
        (Tally.of rows.flatten).length := by
    have hSame := hKeys.length_eq
    rw [Tally.keys, Tally.keys, List.length_map,
      List.length_map] at hSame
    exact hSame
  unfold quantise quantiseWith finalBoxes
  rw [hGet, hLength, sortColours_eq_of_perm hKeys]

section Many

variable {rows : Image} {limit : Nat}

/- The loop begins with a box of all colours. -/
theorem partition_start
    (hMany : limit < (colours rows).card) :
    Partition (histogram rows).keys
      [sortColours (histogram rows).keys] := by
  have hPerm :
      (sortColours (histogram rows).keys).Perm
        (histogram rows).keys :=
    List.perm_insertionSort _ _
  constructor
  · intro box hMem
    rw [List.mem_singleton.mp hMem]
    apply List.ne_nil_of_length_pos
    rw [hPerm.length_eq, Tally.keys, List.length_map,
      length_histogram]
    exact Nat.zero_lt_of_lt hMany
  · rw [List.flatten_singleton]
    exact hPerm

theorem cutsTo_finalBoxes :
    CutsTo (histogram rows).get limit
      [sortColours (histogram rows).keys]
      (finalBoxes (histogram rows) limit) :=
  (cutsTo_cutLoop limit _).1

theorem partition_finalBoxes
    (hMany : limit < (colours rows).card) :
    Partition (histogram rows).keys
      (finalBoxes (histogram rows) limit) :=
  (partition_start hMany).cutsTo (@cutsTo_finalBoxes rows limit)

/- Boxes of one colour each are as many as the colours. -/
theorem length_flatten_of_small
    {boxes : List Box}
    (hNonempty : ∀ box ∈ boxes, box ≠ [])
    (hSmall : ∀ box ∈ boxes, box.length < 2) :
    boxes.flatten.length = boxes.length := by
  induction boxes with
  | nil => rfl
  | cons box boxes ih =>
      rcases List.forall_mem_cons.mp hNonempty with
        ⟨hBox, hBoxes⟩
      rcases List.forall_mem_cons.mp hSmall with ⟨hOne, hOnes⟩
      have hPos := List.length_pos_of_ne_nil hBox
      rw [List.flatten_cons, List.length_append,
        ih hBoxes hOnes, List.length_cons]
      omega

/- The loop makes as many boxes as it may. -/
theorem length_finalBoxes
    (hLimit : 1 ≤ limit)
    (hMany : limit < (colours rows).card) :
    (finalBoxes (histogram rows) limit).length = limit := by
  have hPartition := partition_finalBoxes hMany
  have hAtMost := (@cutsTo_finalBoxes rows limit).length_le hLimit
  apply Nat.le_antisymm hAtMost
  rcases (cutsTo_cutLoop limit
    [sortColours (histogram rows).keys]).2 with hFull | hNone
  · exact hFull
  · have hOnes := length_flatten_of_small hPartition.nonempty
      (bestBox_eq_none hNone)
    rw [hPartition.perm.length_eq, Tally.keys, List.length_map,
      length_histogram] at hOnes
    omega

/- Every final box has a colour within its bounds. -/
theorem representative_finalBoxes
    (hMany : limit < (colours rows).card) :
    ∀ box ∈ finalBoxes (histogram rows) limit,
      ∃ rep,
        representative (histogram rows).get box = some rep ∧
        ∀ ch, least box ch ≤ rep.channel ch ∧
          rep.channel ch ≤ greatest box ch := by
  have hPartition := partition_finalBoxes hMany
  intro box hBox
  apply representative_spec (hPartition.nonempty box hBox)
  intro c hMem
  have hKey :=
    hPartition.perm.mem_iff.mp
      (List.mem_flatten.mpr ⟨box, hBox, hMem⟩)
  rw [histogram, Tally.get_of]
  exact List.count_pos_iff.mpr (Tally.mem_keys_of.mp hKey)

/- Each colour of a large image goes to one of its box. -/
theorem exists_rep
    (hMany : limit < (colours rows).card) :
    ∃ rep : Colour → Colour,
      quantise rows limit = some (rows.map (List.map rep)) ∧
        ∀ c ∈ colours rows,
          ∃ box ∈ finalBoxes (histogram rows) limit,
            c ∈ box ∧
              representative (histogram rows).get box =
                some (rep c) := by
  have hReps := representative_finalBoxes hMany
  have hPartition := partition_finalBoxes hMany
  rcases mappingOf_spec
    (fun box hBox => (hReps box hBox).imp fun _ hRep => hRep.1)
    (fun _ => none) with ⟨mapping, hMapping, hSpec⟩
  have hColour : ∀ c ∈ colours rows,
      ∃ box ∈ finalBoxes (histogram rows) limit,
        c ∈ box ∧
          representative (histogram rows).get box =
            some ((mapping c).getD c) := by
    intro c hMem
    have hKey : c ∈ (histogram rows).keys :=
      Tally.mem_keys_of.mpr (List.mem_toFinset.mp hMem)
    rcases List.mem_flatten.mp
      (hPartition.perm.mem_iff.mpr hKey) with ⟨box, hBox, hIn⟩
    rcases hSpec c with ⟨_, hNone⟩ | ⟨other, hOther, hC, hRep⟩
    · exact absurd hIn (hNone box hBox)
    · rcases hReps other hOther with ⟨rep, hSome, _⟩
      rw [hSome] at hRep
      exact ⟨other, hOther, hC, by rw [hSome, hRep]; rfl⟩
  refine ⟨fun c => (mapping c).getD c, ?_, hColour⟩
  have hFew : ¬ (histogram rows).length ≤ limit := by
    rw [length_histogram]
    exact Nat.not_le.mpr hMany
  have hMapped : ∀ row ∈ rows,
      row.mapM mapping =
        some (row.map fun c => (mapping c).getD c) := by
    intro row hRow
    apply Loops.mapM_eq_some
    intro c hC
    rcases hColour c (List.mem_toFinset.mpr
      (List.mem_flatten.mpr ⟨row, hRow, hC⟩)) with
      ⟨box, hBox, hIn, hRep⟩
    rcases hSpec c with ⟨_, hNone⟩ | ⟨other, hOther, _, hSome⟩
    · exact absurd hIn (hNone box hBox)
    · rcases hReps other hOther with ⟨rep, hOtherRep, _⟩
      rw [hSome, hOtherRep]
      rfl
  unfold quantise quantiseWith
  change ¬ (Tally.of rows.flatten).length ≤ limit at hFew
  rw [if_neg hFew]
  change mappingOf (Tally.of rows.flatten).get
    (finalBoxes (Tally.of rows.flatten) limit) _ = _ at hMapping
  rw [hMapping]
  exact Loops.mapM_eq_some hMapped

/- There are no more colours than boxes to take them from. -/
theorem card_colours_le
    {count : Colour → Nat}
    {boxes : List Box}
    {rep : Colour → Colour}
    (hRep : ∀ c ∈ colours rows,
      ∃ box ∈ boxes, representative count box = some (rep c)) :
    (colours (rows.map (List.map rep))).card ≤ boxes.length := by
  have hSubset :
      colours (rows.map (List.map rep)) ⊆
        (boxes.filterMap (representative count)).toFinset := by
    intro d hMem
    rw [colours, List.mem_toFinset, ← List.map_flatten,
      List.mem_map] at hMem
    rcases hMem with ⟨c, hC, rfl⟩
    rcases hRep c (List.mem_toFinset.mpr hC) with
      ⟨box, hBox, hSome⟩
    rw [List.mem_toFinset, List.mem_filterMap]
    exact ⟨box, hBox, hSome⟩
  calc (colours (rows.map (List.map rep))).card
      ≤ (boxes.filterMap (representative count)).toFinset.card :=
        Finset.card_le_card hSubset
    _ ≤ (boxes.filterMap (representative count)).length :=
        List.toFinset_card_le _
    _ ≤ boxes.length := List.length_filterMap_le _ _

end Many

/-
  For every image and every limit the quantiser has a result,
  and it is a median cut.
-/
theorem quantise_medianCut
    (rows : Image)
    (limit : Nat)
    (hLimit : 1 ≤ limit) :
    ∃ out, MedianCut rows limit out := by
  by_cases hMany : limit < (colours rows).card
  · rcases exists_rep hMany with ⟨rep, hResult, hColour⟩
    have hReps := representative_finalBoxes hMany
    have hLength := length_finalBoxes hLimit hMany
    refine ⟨rows.map (List.map rep), ?_⟩
    constructor
    · exact hResult
    · simp
    · exact (card_colours_le fun c hC =>
        (hColour c hC).imp fun box hBox =>
          ⟨hBox.1, hBox.2.2⟩).trans_eq hLength
    · exact fun hFew => absurd hMany (Nat.not_lt.mpr hFew)
    · exact fun _ boxes hCuts =>
        (partition_start hMany).cutsTo hCuts
    · exact fun _ => ⟨cutsTo_finalBoxes, hLength⟩
    · refine ⟨rep, rfl, fun _ c hC => ?_⟩
      rcases hColour c hC with ⟨box, hBox, hIn, hRep⟩
      rcases hReps box hBox with ⟨own, hOwn, hBounds⟩
      have hSame : own = rep c :=
        Option.some.inj (hOwn.symm.trans hRep)
      rw [hSame] at hBounds
      exact ⟨box, hBox, hIn, hBounds⟩
    · intro pixels hPerm
      rw [quantiseWith_perm hPerm, hResult]
  · have hFew := Nat.le_of_not_lt hMany
    have hResult : quantise rows limit = some rows := by
      unfold quantise quantiseWith
      have hLength := length_histogram rows
      rw [histogram] at hLength
      rw [if_pos (hLength.trans_le hFew)]
    refine ⟨rows, ?_⟩
    constructor
    · exact hResult
    · rfl
    · exact hFew
    · exact fun _ => rfl
    · exact fun hMore => absurd hMore hMany
    · exact fun hMore => absurd hMore hMany
    · refine ⟨id, by simp, fun hMore => absurd hMore hMany⟩
    · intro pixels hPerm
      rw [quantiseWith_perm hPerm, hResult]

/- Three colours, and a limit of two. -/
theorem quantise_medianCut_threeColours :
    1 ≤ 2 ∧ ∃ out,
      MedianCut [[⟨0, 0, 0⟩, ⟨9, 0, 0⟩, ⟨9, 1, 0⟩]] 2 out :=
  ⟨Nat.le_succ 1, quantise_medianCut _ 2 (Nat.le_succ 1)⟩

end Logo

end MicaBoards
