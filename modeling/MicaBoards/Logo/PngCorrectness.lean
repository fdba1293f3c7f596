import MicaBoards.Foundations.Blocks
import MicaBoards.Foundations.Loops
import MicaBoards.Logo.PngFile

/-
  The reader undoes the filters: the file of an image is read
  as the image, whatever its filters and chunks.

  Main declarations:
    * `unfilter_filterRow`
    * `rowLoop_filteredData`
    * `chunkLoop_chunks`
    * `readPng_pngFile`
-/

------------------------------------------------------------
-- Loops In Place
------------------------------------------------------------

namespace MicaBoards

namespace Logo

section InPlace

variable {orig filt : Bytes}

/- The line of the loop before an index. -/
def lineAt (orig filt : Bytes) (i : Nat) : Bytes :=
  orig.take i ++ filt.drop i

theorem lineAt_zero (orig filt : Bytes) :
    lineAt orig filt 0 = filt := rfl

theorem lineAt_length
    (hLength : filt.length = orig.length) :
    lineAt orig filt orig.length = orig := by
  rw [lineAt, List.take_length, ← hLength, List.drop_length,
    List.append_nil]

/- From an index on the line is as it was. -/
theorem lineAt_getElem?_self
    {i : Nat}
    (hIndex : i < orig.length) :
    (lineAt orig filt i)[i]? = filt[i]? := by
  have hTake : (orig.take i).length = i :=
    List.length_take_of_le (Nat.le_of_lt hIndex)
  rw [lineAt, List.getElem?_append_right (Nat.le_of_eq hTake),
    hTake, Nat.sub_self, List.getElem?_drop, Nat.add_zero]

/- Before it the line is restored. -/
theorem lineAt_getElem?_before
    {i k : Nat}
    (hBefore : k < i)
    (hIndex : i ≤ orig.length) :
    (lineAt orig filt i)[k]? = orig[k]? := by
  have hTake : (orig.take i).length = i :=
    List.length_take_of_le hIndex
  rw [lineAt, List.getElem?_append_left (by omega),
    List.getElem?_take, if_pos hBefore]

theorem lineAt_set
    (hLength : filt.length = orig.length)
    {i : Nat}
    (hIndex : i < orig.length) :
    (lineAt orig filt i).set i orig[i] =
      lineAt orig filt (i + 1) := by
  have hTake : (orig.take i).length = i :=
    List.length_take_of_le (Nat.le_of_lt hIndex)
  have hFilt : i < filt.length := by
    rw [hLength]
    exact hIndex
  unfold lineAt
  rw [List.set_append_right _ _ (Nat.le_of_eq hTake), hTake,
    Nat.sub_self, List.drop_eq_getElem_cons hFilt,
    List.set_cons_zero, List.take_succ_eq_append_getElem hIndex,
    List.append_assoc, List.singleton_append]

/- A loop that restores a byte in each turn restores all. -/
theorem foldlM_lineAt
    {step : Bytes → Nat → Option Bytes}
    {m : Nat}
    (hStep : ∀ i, m ≤ i → i < orig.length →
      step (lineAt orig filt i) i =
        some (lineAt orig filt (i + 1)))
    (count : Nat)
    (hCount : m + count ≤ orig.length) :
    (List.range' m count).foldlM step (lineAt orig filt m) =
      some (lineAt orig filt (m + count)) := by
  induction count with
  | zero => rfl
  | succ count ih =>
      rw [List.range'_1_concat, List.foldlM_append,
        ih (by omega)]
      simp only [Option.bind_eq_bind, Option.bind_some,
        List.foldlM_cons, List.foldlM_nil]
      rw [hStep _ (Nat.le_add_right m count) (by omega)]
      rfl

/- A line whose front needs nothing is as it was. -/
theorem lineAt_eq_self
    {m : Nat}
    (hFront : ∀ k < m, orig[k]? = filt[k]?) :
    lineAt orig filt m = filt := by
  have hTake : orig.take m = filt.take m := by
    apply List.ext_getElem?
    intro k
    rw [List.getElem?_take, List.getElem?_take]
    split_ifs with hK
    · exact hFront k hK
    · rfl
  rw [lineAt, hTake, List.take_append_drop]

end InPlace

------------------------------------------------------------
-- Filters
------------------------------------------------------------

/- The code of the Paeth filter takes what PNG defines. -/
theorem paeth_eq_closest (a b c : Nat) :
    paeth a b c = FilterType.closest a b c := by
  unfold paeth FilterType.closest FilterType.distance
  simp only
  generalize ((a : Int) + b - c - a).natAbs = pa
  generalize ((a : Int) + b - c - b).natAbs = pb
  generalize ((a : Int) + b - c - c).natAbs = pc
  split_ifs <;> omega

section Rows

variable {bpp : Nat} {above line : Bytes} {filter : FilterType}

theorem length_filterRow :
    (filterRow filter bpp above line).length = line.length := by
  rw [filterRow, List.length_map, List.length_range]

theorem filterRow_getElem?
    {i : Nat}
    (hIndex : i < line.length) :
    (filterRow filter bpp above line)[i]? =
      some
        ((line)[i] -
          UInt8.ofNat (prediction filter bpp above line i)) := by
  simp [filterRow, List.getD_eq_getElem?_getD, hIndex]

/- A byte of a row that is there. -/
theorem getElem?_rowByte
    {i : Nat}
    (hIndex : i < line.length) :
    (line)[i]? = some (UInt8.ofNat (rowByte line i)) := by
  simp [rowByte, List.getD_eq_getElem?_getD, hIndex]

theorem rowByte_lt (line : Bytes) (i : Nat) :
    rowByte line i < 256 :=
  UInt8.toNat_lt _

theorem leftByte_lt (line : Bytes) (i : Nat) :
    leftByte bpp line i < 256 := by
  unfold leftByte
  split_ifs
  · exact rowByte_lt line _
  · omega

/- The restored byte to the left is the one of the row. -/
theorem leftOf_lineAt
    (hBpp : 0 < bpp)
    {filt : Bytes}
    {i : Nat}
    (hIndex : i < line.length) :
    leftOf bpp (lineAt line filt i) i =
      some (UInt8.ofNat (leftByte bpp line i)) := by
  unfold leftOf leftByte
  split_ifs with hLeft
  · rw [lineAt_getElem?_before (by omega) (Nat.le_of_lt hIndex)]
    exact getElem?_rowByte (by omega)
  · rfl

theorem leftOf_above
    {i : Nat}
    (hIndex : i < above.length) :
    leftOf bpp above i =
      some (UInt8.ofNat (leftByte bpp above i)) := by
  unfold leftOf leftByte
  split_ifs with hLeft
  · exact getElem?_rowByte (by omega)
  · rfl

/- What a turn of a loop puts back is the byte of the row. -/
theorem set_restored
    {i : Nat}
    (hIndex : i < line.length)
    {x p : UInt8}
    (hX :
      (filterRow filter bpp above line)[i]? = some x)
    (hP :
      p = UInt8.ofNat (prediction filter bpp above line i)) :
    (lineAt line (filterRow filter bpp above line) i).set i
        (x + p) =
      lineAt line (filterRow filter bpp above line) (i + 1) := by
  rw [filterRow_getElem? hIndex] at hX
  rw [← Option.some.inj hX, hP, UInt8.sub_add_cancel,
    lineAt_set length_filterRow hIndex]

theorem toNat_ofNat_lt
    {value : Nat}
    (hValue : value < 256) :
    (UInt8.ofNat value).toNat = value := by
  rw [UInt8.toNat_ofNat', Nat.mod_eq_of_lt hValue]

/- A loop over the whole row. -/
theorem foldlM_row
    {step : Bytes → Nat → Option Bytes}
    (hStep : ∀ i < line.length,
      step
          (lineAt line (filterRow filter bpp above line) i) i =
        some
          (lineAt line (filterRow filter bpp above line)
            (i + 1))) :
    (List.range line.length).foldlM step
        (filterRow filter bpp above line) =
      some line := by
  have hLoop :=
    @foldlM_lineAt line (filterRow filter bpp above line) step 0
      (fun i _ => hStep i) line.length (by omega)
  rw [lineAt_zero, Nat.zero_add, lineAt_length length_filterRow]
    at hLoop
  rw [List.range_eq_range']
  exact hLoop

/- Every filter is undone. -/
theorem unfilter_filterRow
    (hBpp : 0 < bpp)
    (hRow : bpp ≤ line.length)
    (hAbove : above.length = line.length) :
    unfilter filter.code bpp line.length above
        (filterRow filter bpp above line) =
      some line := by
  cases filter with
  | none =>
      change some (filterRow .none bpp above line) = some line
      congr 1
      apply List.ext_getElem length_filterRow
      intro i hI hI'
      apply Option.some.inj
      rw [← List.getElem?_eq_getElem hI, filterRow_getElem? hI']
      simp [prediction, FilterType.predict]
  | sub =>
      change (List.range' bpp (line.length - bpp)).foldlM
        (unfilterSub bpp) _ = _
      have hFront :
          lineAt line (filterRow .sub bpp above line) bpp =
            filterRow .sub bpp above line := by
        apply lineAt_eq_self
        intro k hK
        rw [filterRow_getElem? (by omega),
          List.getElem?_eq_getElem (by omega), prediction,
          FilterType.predict, leftByte, if_neg (by omega)]
        simp
      have hLoop :=
        @foldlM_lineAt line (filterRow .sub bpp above line)
          (unfilterSub bpp) bpp ?_ (line.length - bpp) (by omega)
      · rw [hFront, Nat.add_sub_cancel' hRow,
          lineAt_length length_filterRow] at hLoop
        exact hLoop
      · intro i hLeft hIndex
        have hX := @filterRow_getElem? bpp above line .sub i hIndex
        unfold unfilterSub
        rw [lineAt_getElem?_self hIndex, hX,
          lineAt_getElem?_before (by omega) (Nat.le_of_lt hIndex),
          getElem?_rowByte (by omega)]
        simp only [Option.bind_eq_bind, Option.bind_some]
        rw [set_restored hIndex hX]
        rw [prediction, FilterType.predict, leftByte, if_pos hLeft]
  | up =>
      apply foldlM_row
      intro i hIndex
      have hX := @filterRow_getElem? bpp above line .up i hIndex
      unfold unfilterUp
      rw [lineAt_getElem?_self hIndex, hX,
        getElem?_rowByte (by omega)]
      simp only [Option.bind_eq_bind, Option.bind_some]
      rw [set_restored hIndex hX]
      rfl
  | average =>
      apply foldlM_row
      intro i hIndex
      have hX :=
        @filterRow_getElem? bpp above line .average i hIndex
      unfold unfilterAverage
      rw [leftOf_lineAt hBpp hIndex, lineAt_getElem?_self hIndex,
        hX, getElem?_rowByte (by omega)]
      simp only [Option.bind_eq_bind, Option.bind_some]
      rw [set_restored hIndex hX]
      rw [toNat_ofNat_lt (leftByte_lt line i),
        toNat_ofNat_lt (rowByte_lt above i)]
      rfl
  | paeth =>
      apply foldlM_row
      intro i hIndex
      have hX := @filterRow_getElem? bpp above line .paeth i hIndex
      unfold unfilterPaeth
      rw [leftOf_lineAt hBpp hIndex, lineAt_getElem?_self hIndex,
        hX, getElem?_rowByte (by omega), leftOf_above (by omega)]
      simp only [Option.bind_eq_bind, Option.bind_some]
      rw [set_restored hIndex hX]
      rw [toNat_ofNat_lt (leftByte_lt line i),
        toNat_ofNat_lt (rowByte_lt above i),
        toNat_ofNat_lt (leftByte_lt above i), paeth_eq_closest]
      rfl

end Rows

------------------------------------------------------------
-- Rows
------------------------------------------------------------

theorem length_pixelBytes (depth : Depth) (c : Colour) :
    (depth.pixelBytes c).length = depth.pixelSize := by
  cases depth with
  | eight => rfl
  | sixteen => rfl

theorem length_rowBytes (depth : Depth) (row : List Colour) :
    (depth.rowBytes row).length = row.length * depth.pixelSize :=
  Blocks.length_flatMap fun c _ => length_pixelBytes depth c

/- The bytes of a pixel that are taken. -/
theorem pixelBytes_high
    {depth : Depth}
    {c : Colour}
    (hSamples : ∀ ch, c.channel ch < depth.values) :
    (depth.pixelBytes c)[0]? =
        some (UInt8.ofNat (depth.highColour c).r) ∧
      (depth.pixelBytes c)[depth.bytes]? =
        some (UInt8.ofNat (depth.highColour c).g) ∧
      (depth.pixelBytes c)[2 * depth.bytes]? =
        some (UInt8.ofNat (depth.highColour c).b) ∧
      ∀ ch, (depth.highColour c).channel ch < 256 := by
  have hHigh : ∀ ch,
      depth.highByte (c.channel ch) < 256 := by
    intro ch
    have hSample := hSamples ch
    cases depth with
    | eight => exact hSample
    | sixteen =>
        change c.channel ch < 65536 at hSample
        change c.channel ch / 256 < 256
        omega
  have hChannels : ∀ ch,
      (depth.highColour c).channel ch < 256 := by
    intro ch
    cases ch with
    | r => exact hHigh .r
    | g => exact hHigh .g
    | b => exact hHigh .b
  cases depth with
  | eight => exact ⟨rfl, rfl, rfl, hChannels⟩
  | sixteen => exact ⟨rfl, rfl, rfl, hChannels⟩

/- The pixels of a row are read back. -/
theorem rowPixels_rowBytes
    {depth : Depth}
    {row : List Colour}
    (hSamples : ∀ c ∈ row, ∀ ch, c.channel ch < depth.values) :
    rowPixels row.length depth.pixelSize (depth.rowBytes row) =
      some (row.map depth.highColour) := by
  have hStep : depth.pixelSize / 3 = depth.bytes := by
    cases depth with
    | eight => rfl
    | sixteen => rfl
  have hSize : 2 * depth.bytes < depth.pixelSize := by
    cases depth with
    | eight => decide
    | sixteen => decide
  have hRow :
      row.map depth.highColour =
        (List.range row.length).map fun x =>
          depth.highColour (row.getD x ⟨0, 0, 0⟩) := by
    apply List.ext_getElem
    · simp
    · intro x hX hX'
      simp at hX
      simp [List.getD_eq_getElem?_getD, hX]
  rw [hRow]
  apply Loops.mapM_eq_some
  intro x hX
  have hIndex := List.mem_range.mp hX
  have hGet := List.getElem?_eq_getElem hIndex
  have hByte := @Blocks.getElem?_flatMap _ _ depth.pixelBytes _
    row (fun c _ => length_pixelBytes depth c) x
  have hHigh :=
    pixelBytes_high (hSamples _ (List.getElem_mem hIndex))
  have hFirst := @hByte 0 _ hGet (by omega)
  have hSecond := @hByte depth.bytes _ hGet (by omega)
  have hThird := @hByte (2 * depth.bytes) _ hGet hSize
  rw [hHigh.1] at hFirst
  rw [hHigh.2.1] at hSecond
  rw [hHigh.2.2.1] at hThird
  have hValue : row.getD x ⟨0, 0, 0⟩ = row[x] := by
    rw [List.getD_eq_getElem?_getD, hGet]
    rfl
  rw [Nat.add_zero] at hFirst
  simp only [hStep, Depth.rowBytes, hFirst, hSecond, hThird,
    Option.bind_eq_bind, Option.bind_some, hValue]
  have hR : (depth.highColour row[x]).r < 256 := hHigh.2.2.2 .r
  have hG : (depth.highColour row[x]).g < 256 := hHigh.2.2.2 .g
  have hB : (depth.highColour row[x]).b < 256 := hHigh.2.2.2 .b
  rw [toNat_ofNat_lt hR, toNat_ofNat_lt hG, toNat_ofNat_lt hB]

section Image

variable {image : Master} {filters : Nat → FilterType}

/- A row of the image. -/
theorem getD_row_mem
    {y : Nat}
    (hY : y < image.height) :
    image.rows.getD y [] ∈ image.rows := by
  have hIndex : y < image.rows.length := by
    rw [image.length_rows]
    exact hY
  rw [List.getD_eq_getElem?_getD, List.getElem?_eq_getElem hIndex]
  exact List.getElem_mem hIndex

theorem length_line
    {y : Nat}
    (hY : y < image.height) :
    (image.line y).length = image.stride := by
  rw [Master.line, length_rowBytes,
    image.length_row _ (getD_row_mem hY), Master.stride]

theorem length_above
    {y : Nat}
    (hY : y < image.height) :
    (image.above y).length = image.stride := by
  unfold Master.above
  split_ifs with hFirst
  · exact List.length_replicate
  · exact length_line (by omega)

theorem length_filteredRow :
    ∀ y ∈ List.range image.height,
      (filteredRow image filters y).length = image.stride + 1 := by
  intro y hY
  rw [filteredRow, List.length_cons, length_filterRow,
    length_line (List.mem_range.mp hY)]

/- One turn reads one row. -/
theorem rowStep_filteredData
    {y : Nat}
    (hY : y < image.height)
    (out : Image) :
    rowStep (filteredData image filters) image.width
        image.depth.pixelSize ⟨out, image.above y⟩ y =
      some
        ⟨out ++
            [(image.rows.getD y []).map image.depth.highColour],
          image.line y⟩ := by
  have hBlocks := @length_filteredRow image filters
  have hGet : (List.range image.height)[y]? = some y := by
    rw [List.getElem?_range hY]
  have hCode := Blocks.getElem?_flatMap hBlocks hGet
    (Nat.zero_lt_succ _)
  have hBlock := Blocks.take_drop_flatMap hBlocks hGet
  have hFilter :
      ((filteredData image filters).drop
          (y * (image.stride + 1) + 1)).take image.stride =
        filterRow (filters y) image.depth.pixelSize
          (image.above y) (image.line y) := by
    have hDrop := congrArg (List.drop 1) hBlock
    rw [List.drop_take, List.drop_drop] at hDrop
    exact hDrop
  have hRow := getD_row_mem hY
  have hPixels :=
    rowPixels_rowBytes (image.sample_lt _ hRow)
  rw [image.length_row _ hRow] at hPixels
  have hPixelSize : 0 < image.depth.pixelSize := by
    cases image.depth with
    | eight => decide
    | sixteen => decide
  have hUnfilter :=
    @unfilter_filterRow image.depth.pixelSize (image.above y)
      (image.line y) (filters y) hPixelSize
      (by
        rw [length_line hY, Master.stride]
        exact Nat.le_mul_of_pos_left _ image.width_pos)
      (by rw [length_above hY, length_line hY])
  rw [length_line hY] at hUnfilter
  unfold rowStep
  change (do
    let ft ← (filteredData image filters)[
      y * (image.stride + 1) + 0]?
    let line ←
      unfilter ft image.depth.pixelSize image.stride
        (image.above y)
        (((filteredData image filters).drop
          (y * (image.stride + 1) + 1)).take image.stride)
    let row ←
      rowPixels image.width image.depth.pixelSize line
    some (⟨out ++ [row], line⟩ : RowState)) = _
  rw [hFilter]
  change (filteredData image filters)[_]? = _ at hCode
  rw [hCode]
  simp only [filteredRow, List.getElem?_cons_zero,
    Option.bind_eq_bind, Option.bind_some, hUnfilter]
  rw [Master.line, hPixels]
  rfl

/- The rows of the image are read, with their filters undone. -/
theorem rowLoop_filteredData :
    rowLoop (filteredData image filters) image.width image.height
        image.depth.pixelSize =
      some image.highRows := by
  have hRows : ∀ count ≤ image.height,
      (List.range count).foldlM
          (rowStep (filteredData image filters) image.width
            image.depth.pixelSize)
          ⟨[], image.above 0⟩ =
        some
          ⟨(List.range count).map fun y =>
              (image.rows.getD y []).map image.depth.highColour,
            image.above count⟩ := by
    intro count
    induction count with
    | zero => exact fun _ => rfl
    | succ count ih =>
        intro hCount
        rw [List.range_succ, List.foldlM_append, ih (by omega)]
        simp only [Option.bind_eq_bind, Option.bind_some,
          List.foldlM_cons, List.foldlM_nil]
        rw [rowStep_filteredData hCount]
        simp only [Option.bind_some, List.map_append,
          List.map_cons, List.map_nil]
        rfl
  have hAll :
      (List.range image.height).map (fun y =>
        (image.rows.getD y []).map image.depth.highColour) =
        image.highRows := by
    apply List.ext_getElem
    · simp [Master.highRows, image.length_rows]
    · intro y hY hY'
      simp [Master.highRows] at hY'
      simp [Master.highRows, List.getD_eq_getElem?_getD, hY']
  have hLoop := hRows image.height (Nat.le_refl _)
  unfold rowLoop
  change Option.map _
    ((List.range image.height).foldlM _
      (⟨[], image.above 0⟩ : RowState)) = _
  rw [hLoop, hAll]
  rfl

end Image

------------------------------------------------------------
-- Chunks
------------------------------------------------------------

section Parts

variable {chunk : Chunk} {rest : Bytes}

theorem bytes_ne_nil : chunk.bytes ++ rest ≠ [] := by
  intro hNone
  cases hNone

theorem take_bytes :
    (chunk.bytes ++ rest).take 4 = be32 chunk.body.length :=
  rfl

theorem drop_bytes :
    (chunk.bytes ++ rest).drop 4 =
      chunk.tag ++
        (chunk.body ++
          (be32 (Crc32.crc32 (chunk.tag ++ chunk.body)).toNat ++
            rest)) := by
  unfold Chunk.bytes
  rw [List.append_assoc, List.append_assoc, List.append_assoc]
  rfl

theorem drop_tag :
    (chunk.bytes ++ rest).drop 8 =
      chunk.body ++
        (be32 (Crc32.crc32 (chunk.tag ++ chunk.body)).toNat ++
          rest) := by
  have hDrop := congrArg (List.drop 4) (@drop_bytes chunk rest)
  rw [List.drop_drop, List.drop_left' chunk.length_tag] at hDrop
  exact hDrop

theorem drop_chunk :
    (chunk.bytes ++ rest).drop (12 + chunk.body.length) =
      rest := by
  have hDrop :=
    congrArg (List.drop (chunk.body.length + 4))
      (@drop_tag chunk rest)
  have hBody :
      (chunk.body ++
        (be32 (Crc32.crc32 (chunk.tag ++ chunk.body)).toNat ++
          rest)).drop (chunk.body.length + 4) = rest := by
    rw [← List.drop_drop, List.drop_left]
    rfl
  rw [List.drop_drop, hBody] at hDrop
  have hLength :
      12 + chunk.body.length = 8 + (chunk.body.length + 4) := by
    omega
  rw [hLength]
  exact hDrop

end Parts

/- The parts of a chunk are found again. -/
theorem chunkLoop_bytes
    (chunk : Chunk)
    (rest : Bytes)
    (state : PngState) :
    chunkLoop (chunk.bytes ++ rest) state =
      if chunk.tag = tagIhdr then
        (readIhdr chunk.body state).bind (chunkLoop rest)
      else if chunk.tag = tagIdat then
        chunkLoop rest
          { state with idat := state.idat ++ [chunk.body] }
      else if chunk.tag = tagIend then
        some state
      else
        chunkLoop rest state := by
  rw [chunkLoop, dif_neg bytes_ne_nil]
  simp only [take_bytes, fromBytes_be32 chunk.length_body,
    drop_bytes, drop_tag, drop_chunk, List.take_left,
    List.take_left' chunk.length_tag]
  split_ifs
  · cases readIhdr chunk.body state with
    | none => rfl
    | some next => rfl
  · rfl
  · rfl
  · rfl

/- Chunks between the first and the last leave their data. -/
theorem chunkLoop_chunks
    {chunks : List Chunk}
    (hTags : ∀ chunk ∈ chunks,
      chunk.tag ≠ tagIhdr ∧ chunk.tag ≠ tagIend)
    (rest : Bytes)
    (state : PngState) :
    chunkLoop (chunks.flatMap Chunk.bytes ++ rest) state =
      chunkLoop rest
        { state with
          idat :=
            state.idat ++
              (chunks.filter (·.tag = tagIdat)).map
                Chunk.body } := by
  induction chunks generalizing state with
  | nil =>
      simp
  | cons chunk chunks ih =>
      rcases List.forall_mem_cons.mp hTags with ⟨hTag, hRest⟩
      rw [List.flatMap_cons, List.append_assoc, chunkLoop_bytes,
        if_neg hTag.1, if_neg hTag.2]
      by_cases hIdat : chunk.tag = tagIdat
      · rw [if_pos hIdat, ih hRest]
        simp [hIdat]
      · rw [if_neg hIdat, ih hRest]
        simp [hIdat]

theorem readIhdr_ihdrBody
    (image : Master)
    (state : PngState) :
    readIhdr (ihdrBody image) state =
      some
        { state with
          w := image.width
          h := image.height
          depth := image.depth.bits
          ctype := 2 } := by
  have hDepth :
      (UInt8.ofNat image.depth.bits).toNat = image.depth.bits := by
    cases image.depth with
    | eight => rfl
    | sixteen => rfl
  have hWidth := fromBytes_be32 image.width_lt
  have hHeight := fromBytes_be32 image.height_lt
  change some
    ({ state with
        w := fromBytes (be32 image.width)
        h := fromBytes (be32 image.height)
        depth := (UInt8.ofNat image.depth.bits).toNat
        ctype := 2 } : PngState) = _
  rw [hWidth, hHeight, hDepth]

/- All chunks of a file. -/
theorem chunkLoop_pngFile
    (image : Master)
    {chunks : List Chunk}
    (hTags : ∀ chunk ∈ chunks,
      chunk.tag ≠ tagIhdr ∧ chunk.tag ≠ tagIend) :
    chunkLoop ((pngFile image chunks).drop 8)
        ⟨[], 0, 0, 0, 0⟩ =
      some
        { idat :=
            (chunks.filter (·.tag = tagIdat)).map Chunk.body
          w := image.width
          h := image.height
          depth := image.depth.bits
          ctype := 2 } := by
  change chunkLoop ((ihdr image).bytes ++
    (chunks.flatMap Chunk.bytes ++ iend.bytes)) _ = _
  have hTag : (ihdr image).tag = tagIhdr := rfl
  rw [chunkLoop_bytes, if_pos hTag]
  change (readIhdr (ihdrBody image) _).bind _ = _
  rw [readIhdr_ihdrBody, Option.bind_some,
    chunkLoop_chunks hTags, ← List.append_nil iend.bytes,
    chunkLoop_bytes]
  rfl

/-
  The file of an image is read as the image, for every choice
  of filters, every split of the data, and any other chunks,
  if what is in the IDAT chunks decompresses to the filtered
  rows.
-/
theorem readPng_pngFile
    (decompress : Bytes → Option Bytes)
    (image : Master)
    (filters : Nat → FilterType)
    (chunks : List Chunk)
    (hTags : ∀ chunk ∈ chunks,
      chunk.tag ≠ tagIhdr ∧ chunk.tag ≠ tagIend)
    (hInflate :
      decompress (idatData chunks) =
        some (filteredData image filters)) :
    readPng decompress (pngFile image chunks) =
      some (image.width, image.height, image.highRows) := by
  have hSignature :
      (pngFile image chunks).take 8 = pngSignature :=
    rfl
  have hDepth : image.depth.bits = 8 ∨ image.depth.bits = 16 := by
    cases image.depth with
    | eight => exact Or.inl rfl
    | sixteen => exact Or.inr rfl
  have hPixelSize :
      3 * (image.depth.bits / 8) = image.depth.pixelSize := by
    cases image.depth with
    | eight => rfl
    | sixteen => rfl
  unfold readPng
  rw [if_neg (not_not.mpr hSignature), chunkLoop_pngFile image
    hTags]
  simp only [Option.bind_eq_bind, Option.bind_some, hDepth,
    hPixelSize]
  change (if _ then none else
    (decompress (idatData chunks)).bind _) = _
  rw [hInflate]
  simp [rowLoop_filteredData]

/- Small samples of 8 bits. -/
theorem sample_lt_of_all
    {rows : Image}
    (hSamples : ∀ row ∈ rows, ∀ c ∈ row,
      c.r < 256 ∧ c.g < 256 ∧ c.b < 256) :
    ∀ row ∈ rows, ∀ c ∈ row, ∀ ch,
      c.channel ch < Depth.eight.values := by
  intro row hRow c hC ch
  have hAll := hSamples row hRow c hC
  cases ch with
  | r => exact hAll.1
  | g => exact hAll.2.1
  | b => exact hAll.2.2

/- Two rows of one pixel. -/
def twoRows : Master where
  width := 1
  height := 2
  depth := .eight
  rows := [[⟨1, 2, 3⟩], [⟨4, 6, 8⟩]]
  width_pos := by decide
  width_lt := by decide
  height_pos := by decide
  height_lt := by decide
  length_rows := rfl
  length_row := by decide
  sample_lt := sample_lt_of_all (by decide)

/- Sub for the first row, and Paeth for the other. -/
def twoFilters (y : Nat) : FilterType :=
  if y = 0 then .sub else .paeth

/- zlib's deflation of the filtered rows, in two pieces. -/
def twoPieces : List Chunk :=
  [⟨tagIdat, [0x78, 0xda, 0x63, 0x64, 0x64], rfl, by decide⟩,
    ⟨[0x74, 0x45, 0x58, 0x74], [0x41, 0x00, 0x42], rfl,
      by decide⟩,
    ⟨tagIdat,
      [0x62, 0x66, 0x61, 0x66, 0x61, 0x05, 0x00, 0x00, 0x58,
        0x00, 0x18], rfl, by decide⟩]

/- zlib on this one text. -/
def inflateTwoPieces (data : Bytes) : Option Bytes :=
  if data = idatData twoPieces then
    some [1, 1, 2, 3, 4, 3, 4, 5]
  else
    none

theorem readPng_pngFile_twoRows :
    readPng inflateTwoPieces (pngFile twoRows twoPieces) =
      some (1, 2, [[⟨1, 2, 3⟩], [⟨4, 6, 8⟩]]) := by
  apply readPng_pngFile inflateTwoPieces twoRows twoFilters
    twoPieces
  · decide
  · rw [inflateTwoPieces, if_pos rfl]
    rfl

end Logo

end MicaBoards
