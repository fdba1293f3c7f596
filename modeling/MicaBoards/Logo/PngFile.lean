import MicaBoards.Foundations.Crc32
import MicaBoards.Logo.Png

/-
  The file of a truecolour image without alpha, as PNG defines
  it: the rows are filtered, compressed, and put in chunks.

  Key definitions include:
    * `Master`
    * `FilterType.predict` and `filterRow`
    * `filteredData`
    * `Chunk` and `pngFile`
-/

------------------------------------------------------------
-- Images
------------------------------------------------------------

namespace MicaBoards

namespace Logo

/- The bit depth of a sample. -/
inductive Depth where
| eight
| sixteen
deriving DecidableEq, Repr

namespace Depth

def bits : Depth → Nat
| .eight => 8
| .sixteen => 16

/- How many bytes a sample has. -/
def bytes : Depth → Nat
| .eight => 1
| .sixteen => 2

/- How many values a sample has. -/
def values : Depth → Nat
| .eight => 256
| .sixteen => 65536

/- A sample, the high byte first. -/
def sample (depth : Depth) (value : Nat) : Bytes :=
  match depth with
  | .eight => [UInt8.ofNat value]
  | .sixteen => [UInt8.ofNat (value / 256), UInt8.ofNat value]

/- The high byte of a sample. -/
def highByte (depth : Depth) (value : Nat) : Nat :=
  match depth with
  | .eight => value
  | .sixteen => value / 256

/- `bpp` -/
def pixelSize (depth : Depth) : Nat :=
  3 * depth.bytes

def pixelBytes (depth : Depth) (c : Colour) : Bytes :=
  depth.sample c.r ++ depth.sample c.g ++ depth.sample c.b

def rowBytes (depth : Depth) (row : List Colour) : Bytes :=
  row.flatMap depth.pixelBytes

/- A colour by the high bytes of its samples. -/
def highColour (depth : Depth) (c : Colour) : Colour where
  r := depth.highByte c.r
  g := depth.highByte c.g
  b := depth.highByte c.b

end Depth

/- An image of a positive size. -/
structure Master where
  width : Nat
  height : Nat
  depth : Depth
  rows : Image
  width_pos : 0 < width
  width_lt : width < 4294967296
  height_pos : 0 < height
  height_lt : height < 4294967296
  length_rows : rows.length = height
  length_row : ∀ row ∈ rows, row.length = width
  sample_lt : ∀ row ∈ rows, ∀ c ∈ row, ∀ ch,
    c.channel ch < depth.values

------------------------------------------------------------
-- Filters
------------------------------------------------------------

inductive FilterType where
| none
| sub
| up
| average
| paeth
deriving DecidableEq, Repr

namespace FilterType

def code : FilterType → UInt8
| .none => 0
| .sub => 1
| .up => 2
| .average => 3
| .paeth => 4

/- How far a number is from `a + b - c`. -/
def distance (a b c x : Nat) : Nat :=
  ((a + b : Int) - c - x).natAbs

/-
  Of the byte to the left, the one above, and the one above
  that to the left, in this order, the first that is closest
  to their sum and difference.
-/
def closest (a b c : Nat) : Nat :=
  let least :=
    min (min (distance a b c a) (distance a b c b))
      (distance a b c c)
  if distance a b c a = least then a
  else if distance a b c b = least then b
  else c

/- What a filter takes from a byte. -/
def predict (filter : FilterType) (a b c : Nat) : Nat :=
  match filter with
  | .none => 0
  | .sub => a
  | .up => b
  | .average => (a + b) / 2
  | .paeth => closest a b c

end FilterType

/- A byte of a row. -/
def rowByte (line : Bytes) (i : Nat) : Nat :=
  (line.getD i 0).toNat

/- The byte of the pixel to the left, 0 before the first. -/
def leftByte (bpp : Nat) (line : Bytes) (i : Nat) : Nat :=
  if bpp ≤ i then rowByte line (i - bpp) else 0

/- What the filter of a row takes from a byte. -/
def prediction
    (filter : FilterType)
    (bpp : Nat)
    (above line : Bytes)
    (i : Nat) : Nat :=
  filter.predict (leftByte bpp line i) (rowByte above i)
    (leftByte bpp above i)

/- A row after its filter, modulo 256. -/
def filterRow
    (filter : FilterType)
    (bpp : Nat)
    (above line : Bytes) : Bytes :=
  (List.range line.length).map fun i =>
    line.getD i 0 -
      UInt8.ofNat (prediction filter bpp above line i)

namespace Master

variable (image : Master)

/- The length of a row in bytes. -/
def stride : Nat :=
  image.width * image.depth.pixelSize

def line (y : Nat) : Bytes :=
  image.depth.rowBytes (image.rows.getD y [])

/- The row above, zeros above the first. -/
def above (y : Nat) : Bytes :=
  if y = 0 then List.replicate image.stride 0
  else image.line (y - 1)

/- The image that is returned. -/
def highRows : Image :=
  image.rows.map (List.map image.depth.highColour)

end Master

/- A row with its filter type before it. -/
def filteredRow
    (image : Master)
    (filters : Nat → FilterType)
    (y : Nat) : Bytes :=
  (filters y).code ::
    filterRow (filters y) image.depth.pixelSize (image.above y)
      (image.line y)

/- What is compressed, with a filter for each row. -/
def filteredData
    (image : Master)
    (filters : Nat → FilterType) : Bytes :=
  (List.range image.height).flatMap (filteredRow image filters)

------------------------------------------------------------
-- Files
------------------------------------------------------------

structure Chunk where
  tag : Bytes
  body : Bytes
  length_tag : tag.length = 4
  length_body : body.length < 4294967296

/- The bytes of a chunk: length, tag, body and checksum. -/
def Chunk.bytes (chunk : Chunk) : Bytes :=
  be32 chunk.body.length ++ chunk.tag ++ chunk.body ++
    be32 (Crc32.crc32 (chunk.tag ++ chunk.body)).toNat

/- Width, height, depth, truecolour, and no interlacing. -/
def ihdrBody (image : Master) : Bytes :=
  be32 image.width ++ be32 image.height ++
    [UInt8.ofNat image.depth.bits, 2, 0, 0, 0]

theorem length_ihdrBody (image : Master) :
    (ihdrBody image).length < 4294967296 := by
  change 13 < 4294967296
  omega

def ihdr (image : Master) : Chunk where
  tag := tagIhdr
  body := ihdrBody image
  length_tag := rfl
  length_body := length_ihdrBody image

theorem length_iendBody :
    ([] : Bytes).length < 4294967296 :=
  Nat.zero_lt_succ _

def iend : Chunk where
  tag := tagIend
  body := []
  length_tag := rfl
  length_body := length_iendBody

/- What the IDAT chunks have together. -/
def idatData (chunks : List Chunk) : Bytes :=
  ((chunks.filter (·.tag = tagIdat)).map Chunk.body).flatten

/- A file, with these chunks between its first and its last. -/
def pngFile (image : Master) (chunks : List Chunk) : Bytes :=
  pngSignature ++
    ((ihdr image).bytes ++
      (chunks.flatMap Chunk.bytes ++ iend.bytes))

end Logo

end MicaBoards
