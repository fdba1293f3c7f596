import MicaBoards.Foundations.BigEndian
import MicaBoards.Foundations.Text
import MicaBoards.Logo.Quantise

/-
  The master of the boot logo (`common/kernel/mklogo.py`):
  `read_png`, for truecolour images.

  The file is given as its bytes. zlib is not of this
  repository: `decompress` is a parameter, none where it
  stops with an error.

  Key definitions include:
    * `chunkLoop`
    * `unfilter`
    * `rowLoop`
    * `readPng`
-/

------------------------------------------------------------
-- Chunks
------------------------------------------------------------

namespace MicaBoards

namespace Logo

/- `\x89PNG\r\n\x1a\n` -/
def pngSignature : Bytes :=
  [0x89, 0x50, 0x4e, 0x47, 0x0d, 0x0a, 0x1a, 0x0a]

/- `IHDR` -/
def tagIhdr : Bytes := [0x49, 0x48, 0x44, 0x52]

/- `IDAT` -/
def tagIdat : Bytes := [0x49, 0x44, 0x41, 0x54]

/- `IEND` -/
def tagIend : Bytes := [0x49, 0x45, 0x4e, 0x44]

/- `idat`, `w`, `h`, `depth` and `ctype` -/
structure PngState where
  idat : List Bytes
  w : Nat
  h : Nat
  depth : Nat
  ctype : Nat
deriving DecidableEq, Repr

/- What an IHDR chunk sets, none where it stops the program. -/
def readIhdr (body : Bytes) (state : PngState) : Option PngState := do
  let depth ← body[8]?
  let ctype ← body[9]?
  let interlace ← body[12]?
  if interlace ≠ 0 then
    none
  else
    some
      { state with
        w := fromBytes (body.take 4)
        h := fromBytes ((body.drop 4).take 4)
        depth := depth.toNat
        ctype := ctype.toNat }

/-
  `while pos < len(data)`, from a position on. A slice past
  the end is as long as there is data.
-/
def chunkLoop (data : Bytes) (state : PngState) : Option PngState :=
  if _hData : data = [] then
    some state
  else
    let ln := fromBytes (data.take 4)
    let tag := (data.drop 4).take 4
    let body := (data.drop 8).take ln
    let rest := data.drop (12 + ln)
    if tag = tagIhdr then
      match readIhdr body state with
      | none => none
      | some state => chunkLoop rest state
    else if tag = tagIdat then
      chunkLoop rest { state with idat := state.idat ++ [body] }
    else if tag = tagIend then
      some state
    else
      chunkLoop rest state
termination_by data.length
decreasing_by
  all_goals
    have hPos := List.length_pos_of_ne_nil _hData
    rw [List.length_drop]
    omega

------------------------------------------------------------
-- Filters
------------------------------------------------------------

/- `pr` of the Paeth filter -/
def paeth (a b c : Nat) : Nat :=
  let p : Int := a + b - c
  let pa := (p - a).natAbs
  let pb := (p - b).natAbs
  let pc := (p - c).natAbs
  if pa ≤ pb ∧ pa ≤ pc then a
  else if pb ≤ pc then b
  else c

/- `line[i - bpp] if i >= bpp else 0` -/
def leftOf (bpp : Nat) (line : Bytes) (i : Nat) : Option UInt8 :=
  if bpp ≤ i then (line)[i - bpp]? else some 0

/-
  One turn of the loop of a filter. A byte is added modulo
  256.
-/
def unfilterSub
    (bpp : Nat)
    (line : Bytes)
    (i : Nat) : Option Bytes := do
  let x ← (line)[i]?
  let a ← (line)[i - bpp]?
  some (line.set i (x + a))

def unfilterUp
    (prev line : Bytes)
    (i : Nat) : Option Bytes := do
  let x ← (line)[i]?
  let b ← prev[i]?
  some (line.set i (x + b))

def unfilterAverage
    (bpp : Nat)
    (prev line : Bytes)
    (i : Nat) : Option Bytes := do
  let a ← leftOf bpp line i
  let x ← (line)[i]?
  let b ← prev[i]?
  some (line.set i (x + UInt8.ofNat ((a.toNat + b.toNat) / 2)))

def unfilterPaeth
    (bpp : Nat)
    (prev line : Bytes)
    (i : Nat) : Option Bytes := do
  let a ← leftOf bpp line i
  let b ← prev[i]?
  let c ← leftOf bpp prev i
  let x ← (line)[i]?
  some
    (line.set i
      (x + UInt8.ofNat (paeth a.toNat b.toNat c.toNat)))

/- The five filters, in place against the row before. -/
def unfilter
    (ft : UInt8)
    (bpp stride : Nat)
    (prev line : Bytes) : Option Bytes :=
  if ft = 1 then
    (List.range' bpp (stride - bpp)).foldlM (unfilterSub bpp) line
  else if ft = 2 then
    (List.range stride).foldlM (unfilterUp prev) line
  else if ft = 3 then
    (List.range stride).foldlM (unfilterAverage bpp prev) line
  else if ft = 4 then
    (List.range stride).foldlM (unfilterPaeth bpp prev) line
  else if ft ≠ 0 then
    none
  else
    some line

------------------------------------------------------------
-- Rows
------------------------------------------------------------

/- The pixels of a row, each channel by its first byte. -/
def rowPixels
    (w bpp : Nat)
    (line : Bytes) : Option (List Colour) :=
  (List.range w).mapM fun x => do
    let step := bpp / 3
    let r ← (line)[x * bpp]?
    let g ← (line)[x * bpp + step]?
    let b ← (line)[x * bpp + 2 * step]?
    some ⟨r.toNat, g.toNat, b.toNat⟩

/- `out` and `prev` -/
structure RowState where
  out : Image
  prev : Bytes
deriving DecidableEq, Repr

/- One turn of the loop over the rows. -/
def rowStep
    (raw : Bytes)
    (w bpp : Nat)
    (state : RowState)
    (y : Nat) : Option RowState := do
  let stride := w * bpp
  let off := y * (stride + 1)
  let ft ← raw[off]?
  let line ←
    unfilter ft bpp stride state.prev
      ((raw.drop (off + 1)).take stride)
  let row ← rowPixels w bpp line
  some ⟨state.out ++ [row], line⟩

/- The rows of the data that was compressed. -/
def rowLoop (raw : Bytes) (w h bpp : Nat) : Option Image :=
  ((List.range h).foldlM (rowStep raw w bpp)
    ⟨[], List.replicate (w * bpp) 0⟩).map RowState.out

variable (decompress : Bytes → Option Bytes)

/- `read_png` -/
def readPng (data : Bytes) : Option (Nat × Nat × Image) :=
  if data.take 8 ≠ pngSignature then
    none
  else do
    let state ← chunkLoop (data.drop 8) ⟨[], 0, 0, 0, 0⟩
    if state.ctype ≠ 2 ∨
        ¬ (state.depth = 8 ∨ state.depth = 16) then
      none
    else
      let raw ← decompress state.idat.flatten
      let out ←
        rowLoop raw state.w state.h (3 * (state.depth / 8))
      some (state.w, state.h, out)

end Logo

end MicaBoards
