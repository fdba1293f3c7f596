import MicaBoards.Foundations.Loops
import MicaBoards.Foundations.SortedLines
import MicaBoards.Packages.CopiedFrom

/-
  The inputs hash of a producer (`package-inputs.sh`): the
  digest of a sorted manifest of what it is built from.

  Key definitions include:
    * `Under`, `Literal`
    * `Tools`, `Checkout`, `Producer`
    * `files`, `records`, `inputsHash`
    * `OneLine`

  Main declarations:
    * `contextRecords_subset`
    * `fileRecord_notMem_records`
    * `inputsHash_ne`
-/

------------------------------------------------------------
-- Paths
------------------------------------------------------------

namespace MicaBoards

namespace Packages

open Text
open Dockerfile

/- `/` -/
def separator : UInt8 := 0x2f

/- The steps of a path, without empty ones and those to `.` -/
def steps (path : Bytes) : List Bytes :=
  (path.splitOn separator).filter fun step =>
    step ≠ [] ∧ step ≠ [dot]

/- What is at a path or below it -/
def Under (path file : Bytes) : Prop :=
  steps path <+: steps file

instance decidableUnder
    (path file : Bytes) :
    Decidable (Under path file) :=
  inferInstanceAs (Decidable (steps path <+: steps file))

/- A path that ends in no step is that of a directory. -/
def endsOpen (path : Bytes) : Bool :=
  (path.splitOn separator).getLast? = some [] ∨
    (path.splitOn separator).getLast? = some [dot]

/- `*?[`, backslash, backtick, `$` and quotes -/
def isSpecial (b : UInt8) : Bool :=
  [0x2a, 0x3f, 0x5b, backslash, backtick, 0x24, 0x22,
    0x27].contains b

/-
  A path below a directory that means itself, in a pathspec
  and in an operand of a copy
-/
structure Literal (path : Bytes) : Prop where
  plain : ∀ b ∈ path, isSpecial b = false
  start : ∃ b, path.head? = some b ∧ b ≠ separator ∧ b ≠ 0x3a
  within : [dot, dot] ∉ path.splitOn separator

------------------------------------------------------------
-- Files of a Checkout
------------------------------------------------------------

/-
  `git ls-files` on one pathspec and path, and `sha256sum`. A
  literal pathspec matches the file there and what is below,
  and only what is below when it is that of a directory.
-/
structure Tools where
  refused : (pathspec : Bytes) → Bool
  matched : (pathspec path : Bytes) → Bool
  matched_literal :
    ∀ pathspec path, Literal pathspec →
      Under pathspec path →
        (endsOpen pathspec = true →
          steps path ≠ steps pathspec) →
        matched pathspec path = true
  quoted : (path : Bytes) → Bytes
  oneLine : ∀ path, lf ∉ quoted path
  digest : Bytes → Bytes
  digest_injective : Function.Injective digest
  isHex_digest : ∀ bytes, ∀ b ∈ digest bytes, isHex b = true

/- What is at a path -/
inductive Content where
  | file (bytes : Bytes)
  | link (target : Bytes)
  | other
deriving DecidableEq

structure Checkout where
  tracked : List Bytes
  content : (path : Bytes) → Content
  dockerfile : Bytes
  upstream : (image : Bytes) → Bytes

section Files

variable (tools : Tools)
variable (checkout : Checkout)

/- `sha256sum FILE | cut -d' ' -f1` -/
def sha256sum (path bytes : Bytes) : Bytes :=
  if backslash ∈ path then backslash :: tools.digest bytes
  else tools.digest bytes

def linkRecord (path target : Bytes) : Bytes :=
  ascii "link " ++ path ++ space :: captured target

def fileRecord (path sum : Bytes) : Bytes :=
  ascii "file " ++ path ++ space :: sum

/- The record of a path as `git ls-files` printed it -/
def recordOf (path : Bytes) : Bytes :=
  match checkout.content path with
  | .link target => linkRecord path target
  | .file bytes => fileRecord path (sha256sum tools path bytes)
  | .other => fileRecord path []

def files (pathspecs : List Bytes) : Option (List Bytes) :=
  let listed :=
    checkout.tracked.filter fun path =>
      pathspecs.any fun pathspec => tools.matched pathspec path
  if pathspecs.any tools.refused ∨ listed = [] then none
  else
    some (listed.map fun path =>
      recordOf tools checkout (tools.quoted path))

end Files

------------------------------------------------------------
-- The Manifest
------------------------------------------------------------

def slashed (path source : Bytes) : Bytes :=
  path ++ ascii "/" ++ source

/- What `producers.sh` and `producer.env` say of a producer -/
structure Producer where
  name : Bytes
  arch : Bytes
  declared : Bytes
  directory : Bytes
  control : Bytes
  versionFile : Bytes
  forEach : Option Bytes
  contexts : List (ContextName × Bytes)
  prepareInputs : List Bytes
  fromImages : List Bytes

section Manifest

variable (tools : Tools)
variable (checkout : Checkout)

def imageRecord (image : Bytes) : Bytes :=
  ascii "image " ++ image ++ space :: captured
    (checkout.upstream image)

/- What the Dockerfile copies from one of the contexts -/
def contextRecords (context : ContextName × Bytes) :
    Option (List Bytes) :=
  let sources := copiedFrom checkout.dockerfile context.1
  if sources = [] then some []
  else files tools checkout (sources.map (slashed context.2))

def prepareRecords (input : Bytes) : Option (List Bytes) :=
  if ascii "image:" <+: input then
    some [imageRecord checkout
      (input.drop (ascii "image:").length)]
  else files tools checkout [input]

/- `${entry#*=upstream:}`, of an entry with such a value -/
def upstreamName (entry : Bytes) : Bytes :=
  if equals ∈ entry then
    (afterFirst equals entry).drop (ascii "upstream:").length
  else entry

def fromRecords (entry : Bytes) : List Bytes :=
  if ascii "upstream:" <+: afterFirst equals entry then
    [imageRecord checkout (upstreamName entry)]
  else []

/- The first records, whatever is in the checkout -/
def heading (producer : Producer) : List Bytes :=
  [ascii "producer " ++ beforeLast 0x40 producer.name,
    ascii "arch " ++ producer.arch,
    ascii "version " ++ producer.declared]

def ownPaths (producer : Producer) : List Bytes :=
  [producer.directory, producer.control, producer.versionFile,
    ascii "tools/deb/build.sh", ascii "tools/deb/pack.sh",
    ascii "tools/deb/producers.sh"]

/- The upstream images that a producer may name -/
def images (producer : Producer) : List Bytes :=
  producer.prepareInputs.map
      (fun input => input.drop (ascii "image:").length) ++
    producer.fromImages.map upstreamName

/- All that is piped into `sort`; none when a command dies -/
def records (producer : Producer) : Option (List Bytes) := do
  let own ← files tools checkout (ownPaths producer)
  let shared ← producer.forEach.toList.mapM fun path =>
    files tools checkout [path]
  let copied ← producer.contexts.mapM
    (contextRecords tools checkout)
  let prepared ← producer.prepareInputs.mapM
    (prepareRecords tools checkout)
  return heading producer ++ own ++ shared.flatten ++
    copied.flatten ++ prepared.flatten ++
      producer.fromImages.flatMap (fromRecords checkout)

def manifest (producer : Producer) : Option Bytes :=
  (records tools checkout producer).map fun lines =>
    unlines (sortedOnce (textLines (unlines lines)))

def inputsHash (producer : Producer) : Option Bytes :=
  (manifest tools checkout producer).map tools.digest

end Manifest

------------------------------------------------------------
-- Records of Files
------------------------------------------------------------

section Records

variable {tools : Tools}
variable {checkout : Checkout}
variable {producer : Producer}

theorem space_notMem_sha256sum (path bytes : Bytes) :
    space ∉ sha256sum tools path bytes := by
  have hDigest : space ∉ tools.digest bytes := by
    intro hMem
    have hHex := tools.isHex_digest bytes space hMem
    exact absurd hHex (by decide)
  have hSpace : space ≠ backslash := by decide
  unfold sha256sum
  split
  · intro hMem
    rcases List.mem_cons.mp hMem with hEq | hMem
    · exact hSpace hEq
    · exact hDigest hMem
  · exact hDigest

theorem sha256sum_injective (path : Bytes) :
    Function.Injective (sha256sum tools path) := by
  intro bytes others hSame
  unfold sha256sum at hSame
  split at hSame
  · exact tools.digest_injective (List.cons.inj hSame).2
  · exact tools.digest_injective hSame

/- A record tells the path and the sum apart. -/
theorem fileRecord_inj
    {path other sum otherSum : Bytes}
    (hSum : space ∉ sum)
    (hOther : space ∉ otherSum)
    (hSame : fileRecord path sum = fileRecord other otherSum) :
    path = other ∧ sum = otherSum := by
  unfold fileRecord at hSame
  rw [List.append_assoc, List.append_assoc] at hSame
  have hBehind := List.append_cancel_left hSame
  have hBefore := congrArg (beforeLast space) hBehind
  have hAfter := congrArg (afterLast space) hBehind
  rw [beforeLast_append hSum, beforeLast_append hOther]
    at hBefore
  rw [afterLast_append hSum, afterLast_append hOther]
    at hAfter
  exact ⟨hBefore, hAfter⟩

/- A path that is matched has its record. -/
theorem recordOf_mem_files
    {pathspecs lines : List Bytes}
    (hFiles : files tools checkout pathspecs = some lines)
    {path pathspec : Bytes}
    (hTracked : path ∈ checkout.tracked)
    (hSpec : pathspec ∈ pathspecs)
    (hMatched : tools.matched pathspec path = true) :
    recordOf tools checkout (tools.quoted path) ∈ lines := by
  unfold files at hFiles
  dsimp only at hFiles
  split at hFiles
  · cases hFiles
  · obtain rfl := Option.some.inj hFiles
    refine List.mem_map.mpr ⟨path, ?_, rfl⟩
    refine List.mem_filter.mpr ⟨hTracked, ?_⟩
    exact List.any_eq_true.mpr ⟨pathspec, hSpec, hMatched⟩

/- Every record that is listed is the record of some path. -/
theorem exists_of_mem_files
    {pathspecs lines : List Bytes}
    (hFiles : files tools checkout pathspecs = some lines)
    {line : Bytes}
    (hLine : line ∈ lines) :
    ∃ path,
      line = recordOf tools checkout (tools.quoted path) := by
  unfold files at hFiles
  dsimp only at hFiles
  split at hFiles
  · cases hFiles
  · obtain rfl := Option.some.inj hFiles
    rcases List.mem_map.mp hLine with ⟨path, _, rfl⟩
    exact ⟨path, rfl⟩

/- The records of each context are among the records. -/
theorem contextRecords_subset
    {lines : List Bytes}
    (hRecords : records tools checkout producer = some lines)
    {context : ContextName × Bytes}
    (hContext : context ∈ producer.contexts) :
    ∃ copied,
      contextRecords tools checkout context = some copied ∧
        copied ⊆ lines := by
  unfold records at hRecords
  rcases Option.bind_eq_some_iff.mp hRecords with
    ⟨own, _, hRecords⟩
  rcases Option.bind_eq_some_iff.mp hRecords with
    ⟨shared, _, hRecords⟩
  rcases Option.bind_eq_some_iff.mp hRecords with
    ⟨all, hAll, hRecords⟩
  rcases Option.bind_eq_some_iff.mp hRecords with
    ⟨prepared, _, hRecords⟩
  obtain rfl := Option.some.inj hRecords
  rcases Loops.exists_of_mapM hAll hContext with
    ⟨copied, hCopied⟩
  refine ⟨copied, hCopied, fun line hLine => ?_⟩
  have hFlat : line ∈ all.flatten :=
    List.mem_flatten.mpr
      ⟨copied, (Loops.mem_of_mapM hAll copied).mpr
        ⟨context, hContext, hCopied⟩, hLine⟩
  exact List.mem_append_left _
    (List.mem_append_left _ (List.mem_append_right _ hFlat))

/- What the records are -/
theorem mem_records
    {lines : List Bytes}
    (hRecords : records tools checkout producer = some lines)
    {line : Bytes}
    (hLine : line ∈ lines) :
    line ∈ heading producer ∨
      (∃ image ∈ images producer,
        line = imageRecord checkout image) ∨
        ∃ path,
          line =
            recordOf tools checkout (tools.quoted path) := by
  unfold records at hRecords
  rcases Option.bind_eq_some_iff.mp hRecords with
    ⟨own, hOwn, hRecords⟩
  rcases Option.bind_eq_some_iff.mp hRecords with
    ⟨shared, hShared, hRecords⟩
  rcases Option.bind_eq_some_iff.mp hRecords with
    ⟨copied, hCopied, hRecords⟩
  rcases Option.bind_eq_some_iff.mp hRecords with
    ⟨prepared, hPrepared, hRecords⟩
  obtain rfl := Option.some.inj hRecords
  simp only [List.mem_append, or_assoc] at hLine
  rcases hLine with
    hLine | hLine | hLine | hLine | hLine | hLine
  · exact .inl hLine
  · exact .inr (.inr (exists_of_mem_files hOwn hLine))
  · rcases List.mem_flatten.mp hLine with ⟨part, hPart, hLine⟩
    rcases (Loops.mem_of_mapM hShared part).mp hPart with
      ⟨path, _, hFiles⟩
    exact .inr (.inr (exists_of_mem_files hFiles hLine))
  · rcases List.mem_flatten.mp hLine with ⟨part, hPart, hLine⟩
    rcases (Loops.mem_of_mapM hCopied part).mp hPart with
      ⟨context, _, hContext⟩
    unfold contextRecords at hContext
    dsimp only at hContext
    split at hContext
    · obtain rfl := Option.some.inj hContext
      cases hLine
    · exact .inr (.inr (exists_of_mem_files hContext hLine))
  · rcases List.mem_flatten.mp hLine with ⟨part, hPart, hLine⟩
    rcases (Loops.mem_of_mapM hPrepared part).mp hPart with
      ⟨input, hMem, hInput⟩
    unfold prepareRecords at hInput
    split at hInput
    · obtain rfl := Option.some.inj hInput
      exact .inr (.inl ⟨_,
        List.mem_append_left _ (List.mem_map_of_mem hMem),
        List.mem_singleton.mp hLine⟩)
    · exact .inr (.inr (exists_of_mem_files hInput hLine))
  · rcases List.mem_flatMap.mp hLine with ⟨entry, hMem, hLine⟩
    unfold fromRecords at hLine
    split at hLine
    · exact .inr (.inl ⟨_,
        List.mem_append_right _ (List.mem_map_of_mem hMem),
        List.mem_singleton.mp hLine⟩)
    · cases hLine

/- The record of a file is the record of no other kind. -/
theorem fileRecord_notMem_records
    {lines : List Bytes}
    (hRecords : records tools checkout producer = some lines)
    {path bytes others : Bytes}
    (hContent : checkout.content path = .file bytes)
    (hOther : bytes ≠ others) :
    fileRecord path (sha256sum tools path others) ∉ lines := by
  have hHead (sum : Bytes) :
      (fileRecord path sum).head? = some 0x66 := by
    rfl
  intro hLine
  rcases mem_records hRecords hLine with
    hLine | ⟨image, _, hLine⟩ | ⟨listed, hLine⟩
  · have hEach : ∀ line ∈ heading producer,
        line.head? ≠ some 0x66 := by
      simp [heading, ascii]
    exact hEach _ hLine (hHead _)
  · have hImage := hHead (sha256sum tools path others)
    rw [hLine] at hImage
    cases hImage
  · unfold recordOf at hLine
    split at hLine
    · have hLink := hHead (sha256sum tools path others)
      rw [hLine] at hLink
      cases hLink
    · next content hName =>
        rcases fileRecord_inj
          (space_notMem_sha256sum path others)
          (space_notMem_sha256sum _ content) hLine with
          ⟨hPath, hSum⟩
        rw [← hPath] at hName hSum
        rw [hContent] at hName
        obtain rfl := Content.file.inj hName
        exact hOther (sha256sum_injective path hSum.symm)
    · next hName =>
        rcases fileRecord_inj
          (space_notMem_sha256sum path others)
          List.not_mem_nil hLine with ⟨hPath, _⟩
        rw [← hPath, hContent] at hName
        cases hName

/- Every record is a line of its own. -/
def OneLine
    (tools : Tools)
    (checkout : Checkout)
    (producer : Producer) :
    Prop :=
  ∀ lines, records tools checkout producer = some lines →
    ∀ line ∈ lines, lf ∉ line

/-
  Names that git prints and sums are on one line, so that only
  other texts can bring a line end into a record.
-/
theorem oneLine_of_texts
    (hHeading : ∀ line ∈ heading producer, lf ∉ line)
    (hImage :
      ∀ image ∈ images producer,
        lf ∉ imageRecord checkout image)
    (hLink :
      ∀ path target, checkout.content path = .link target →
        lf ∉ captured target) :
    OneLine tools checkout producer := by
  have hFile : lf ∉ ascii "file " := by decide
  have hKind : lf ∉ ascii "link " := by decide
  have hSpace : lf ≠ space := by decide
  have hSlash : lf ≠ backslash := by decide
  have hDigest (bytes : Bytes) : lf ∉ tools.digest bytes := by
    intro hMem
    have hHex := tools.isHex_digest bytes lf hMem
    exact absurd hHex (by decide)
  intro lines hRecords line hLine
  rcases mem_records hRecords hLine with
    hLine | ⟨image, hMem, rfl⟩ | ⟨path, rfl⟩
  · exact hHeading line hLine
  · exact hImage image hMem
  · have hPath := tools.oneLine path
    unfold recordOf
    split
    · next target hContent =>
        have hTarget := hLink _ _ hContent
        simp [linkRecord, hKind, hPath, hSpace, hTarget]
    · next bytes hContent =>
        have hSum :
            lf ∉ sha256sum tools (tools.quoted path) bytes := by
          unfold sha256sum
          split
          · simp [hSlash, hDigest]
          · exact hDigest bytes
        simp [fileRecord, hFile, hPath, hSpace, hSum]
    · simp [fileRecord, hFile, hPath, hSpace]

/- The hash of records that are lines -/
theorem inputsHash_eq
    {lines : List Bytes}
    (hRecords : records tools checkout producer = some lines)
    (hOneLine : OneLine tools checkout producer) :
    inputsHash tools checkout producer =
      some (tools.digest (unlines (sortedOnce lines))) := by
  have hLines : textLines (unlines lines) = lines :=
    textLines_lines (hOneLine lines hRecords)
  rw [inputsHash, manifest, hRecords, Option.map_some,
    Option.map_some, hLines]

/- Records that are lines are told by their hash. -/
theorem mem_iff_of_inputsHash_eq
    {other : Checkout}
    {otherProducer : Producer}
    {lines otherLines : List Bytes}
    (hRecords : records tools checkout producer = some lines)
    (hOneLine : OneLine tools checkout producer)
    (hOther :
      records tools other otherProducer = some otherLines)
    (hOtherLine : OneLine tools other otherProducer)
    (hSame :
      inputsHash tools checkout producer =
        inputsHash tools other otherProducer)
    (line : Bytes) :
    line ∈ lines ↔ line ∈ otherLines := by
  rw [inputsHash_eq hRecords hOneLine,
    inputsHash_eq hOther hOtherLine] at hSame
  have hText := tools.digest_injective (Option.some.inj hSame)
  have hSorted :
      ∀ l ∈ sortedOnce lines, lf ∉ l := fun l hL =>
    hOneLine lines hRecords l (mem_sortedOnce.mp hL)
  have hOtherSorted :
      ∀ l ∈ sortedOnce otherLines, lf ∉ l := fun l hL =>
    hOtherLine otherLines hOther l (mem_sortedOnce.mp hL)
  have hLines := congrArg textLines hText
  rw [unlines, unlines, textLines_lines hSorted,
    textLines_lines hOtherSorted] at hLines
  rw [← mem_sortedOnce, hLines, mem_sortedOnce]

/-
  A regular file whose record was listed and whose content is
  another one now makes another hash.
-/
theorem inputsHash_ne
    {other : Checkout}
    {otherProducer : Producer}
    {lines : List Bytes}
    (hRecords : records tools checkout producer = some lines)
    (hOneLine : OneLine tools checkout producer)
    (hOtherLine : OneLine tools other otherProducer)
    {path bytes others : Bytes}
    (hMem : fileRecord path (sha256sum tools path bytes) ∈ lines)
    (hContent : other.content path = .file others)
    (hChanged : others ≠ bytes) :
    inputsHash tools checkout producer ≠
      inputsHash tools other otherProducer := by
  intro hSame
  cases hOther : records tools other otherProducer with
  | none =>
      rw [inputsHash_eq hRecords hOneLine, inputsHash, manifest,
        hOther] at hSame
      cases hSame
  | some otherLines =>
      rw [mem_iff_of_inputsHash_eq hRecords hOneLine hOther
        hOtherLine hSame] at hMem
      exact fileRecord_notMem_records hOther hContent hChanged
        hMem

end Records

end Packages

end MicaBoards
