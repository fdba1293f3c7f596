import Mathlib.Data.List.Infix
import MicaBoards.Foundations.Words

/-
  The bundle of public certificates as its two readers see it:
  the check of `stage-inner.sh` and the split of
  `embed-fit-trust.sh`, both one pass over the lines.

  Key definitions include:
    * `checkLine`, `publicCertificatesOnly`
    * `splitLine`, `split`, `certificateCount`
    * `Bundle`

  Main declarations:
    * `exists_bundle_of_check`
    * `Bundle.split_eq`
    * `Bundle.certificateCount_eq`
    * `Bundle.not_hasPrivateKey`
-/

------------------------------------------------------------
-- Lines
------------------------------------------------------------

namespace MicaBoards

namespace Trust

open Text

def beginCertificate : Bytes :=
  ascii "-----BEGIN CERTIFICATE-----"

def endCertificate : Bytes :=
  ascii "-----END CERTIFICATE-----"

def privateKey : Bytes := ascii "PRIVATE KEY"

/- `[A-Za-z0-9+/=]` -/
def isBase64 (b : UInt8) : Bool :=
  isUpper b ∨ isLower b ∨ isDigit b ∨
    b = 0x2b ∨ b = 0x2f ∨ b = equals

/- `/^[A-Za-z0-9+\/=]+$/` -/
def isBase64Line (line : Bytes) : Bool :=
  line ≠ [] ∧ line.all isBase64

/- `/^[[:space:]]*$/` -/
def isBlankLine (line : Bytes) : Bool :=
  line.all isSpace

/- A line as `grep` and an unanchored pattern find it -/
abbrev Contains (marker line : Bytes) : Prop :=
  marker <:+: line

/- A text with a line that has `PRIVATE KEY` in it -/
def HasPrivateKey (lines : List Bytes) : Prop :=
  ∃ line ∈ lines, Contains privateKey line

instance (lines : List Bytes) :
    Decidable (HasPrivateKey lines) :=
  inferInstanceAs
    (Decidable (∃ line ∈ lines, Contains privateKey line))

/- A line lacks a text when it lacks one byte of it. -/
theorem not_contains
    {marker line : Bytes}
    {b : UInt8}
    (hMarker : b ∈ marker)
    (hLine : b ∉ line) :
    ¬ Contains marker line :=
  fun hContains => hLine (hContains.subset hMarker)

theorem notMem_of_all
    {p : UInt8 → Bool}
    {line : Bytes}
    {b : UInt8}
    (hAll : line.all p = true)
    (hByte : p b = false) :
    b ∉ line := by
  intro hMem
  rw [List.all_eq_true.mp hAll b hMem] at hByte
  cases hByte

/- What is in no blank line -/
theorem not_contains_blank
    {marker line : Bytes}
    {b : UInt8}
    (hMarker : b ∈ marker)
    (hByte : isSpace b = false)
    (hBlank : isBlankLine line = true) :
    ¬ Contains marker line :=
  not_contains hMarker (notMem_of_all hBlank hByte)

theorem isBase64Line_iff (line : Bytes) :
    isBase64Line line = true ↔
      line ≠ [] ∧ line.all isBase64 = true :=
  decide_eq_true_iff

/- What is in no line of base64 -/
theorem not_contains_base64
    {marker line : Bytes}
    {b : UInt8}
    (hMarker : b ∈ marker)
    (hByte : isBase64 b = false)
    (hBase64 : isBase64Line line = true) :
    ¬ Contains marker line :=
  not_contains hMarker
    (notMem_of_all ((isBase64Line_iff line).mp hBase64).2 hByte)

------------------------------------------------------------
-- The Check of stage-inner.sh
------------------------------------------------------------

/- `inside` and `count` of the `awk` program -/
structure Check where
  inside : Bool
  count : Nat
deriving DecidableEq

/-
  One line; `none` is `exit 1`, after which the end of the
  program cannot make the status 0 again.
-/
def checkLine (check : Check) (line : Bytes) : Option Check :=
  if line = beginCertificate then
    if check.inside then none
    else some { inside := true, count := check.count + 1 }
  else if line = endCertificate then
    if check.inside then some { check with inside := false }
    else none
  else if check.inside ∧ isBase64Line line then some check
  else if ¬ check.inside ∧ isBlankLine line then some check
  else none

/- The status of the program is 0. -/
def publicCertificatesOnly (lines : List Bytes) : Bool :=
  match lines.foldlM checkLine { inside := false, count := 0 }
  with
  | none => false
  | some check => !check.inside && check.count != 0

------------------------------------------------------------
-- The Split of embed-fit-trust.sh
------------------------------------------------------------

/-
  Whether `path` is set, and the files written so far, the
  newest first.
-/
structure Split where
  opened : Bool
  files : List (List Bytes)
deriving DecidableEq

/- `print >path` -/
def print (line : Bytes) :
    List (List Bytes) → List (List Bytes)
  | [] => []
  | file :: files => (file ++ [line]) :: files

def splitLine (state : Split) (line : Bytes) : Split :=
  let state : Split :=
    if Contains beginCertificate line then
      { opened := true, files := [] :: state.files }
    else state
  let state : Split :=
    if state.opened then
      { state with files := print line state.files }
    else state
  if Contains endCertificate line then
    { state with opened := false }
  else state

/- The files `input-1.pem`, `input-2.pem`, … -/
def split (lines : List Bytes) : List (List Bytes) :=
  (lines.foldl splitLine
    { opened := false, files := [] }).files.reverse

/- `grep -c -- '-----BEGIN CERTIFICATE-----'` -/
def certificateCount (lines : List Bytes) : Nat :=
  lines.countP fun line => Contains beginCertificate line

------------------------------------------------------------
-- Bundles
------------------------------------------------------------

/- A block: a first line, lines of base64, and a last line -/
def block (body : List Bytes) : List Bytes :=
  beginCertificate :: body ++ [endCertificate]

/- Blocks of certificates, with blank lines around them -/
inductive Bundle : List Bytes → List (List Bytes) → Prop where
  | nil : Bundle [] []
  | blank
      {line : Bytes}
      {lines : List Bytes}
      {blocks : List (List Bytes)}
      (hBlank : isBlankLine line = true)
      (hRest : Bundle lines blocks) :
      Bundle (line :: lines) blocks
  | certificate
      {body lines : List Bytes}
      {blocks : List (List Bytes)}
      (hBody : ∀ line ∈ body, isBase64Line line = true)
      (hRest : Bundle lines blocks) :
      Bundle (block body ++ lines) (block body :: blocks)

------------------------------------------------------------
-- What the Check Accepts
------------------------------------------------------------

/- Between blocks, a line opens a block or is blank. -/
theorem checkLine_outside
    {count : Nat}
    {line : Bytes}
    {next : Check}
    (hLine :
      checkLine { inside := false, count := count } line =
        some next) :
    (line = beginCertificate ∧
        next = { inside := true, count := count + 1 }) ∨
      (isBlankLine line = true ∧
        next = { inside := false, count := count }) := by
  by_cases hBegin : line = beginCertificate
  · refine .inl ⟨hBegin, ?_⟩
    simpa [checkLine, hBegin] using hLine.symm
  by_cases hEnd : line = endCertificate
  · simp [checkLine, hEnd, show ¬ endCertificate = beginCertificate
      by decide] at hLine
  by_cases hBlank : isBlankLine line = true
  · refine .inr ⟨hBlank, ?_⟩
    simpa [checkLine, hBegin, hEnd, hBlank] using hLine.symm
  · simp [checkLine, hBegin, hEnd, hBlank] at hLine

/- Inside a block, a line closes it or is base64. -/
theorem checkLine_inside
    {count : Nat}
    {line : Bytes}
    {next : Check}
    (hLine :
      checkLine { inside := true, count := count } line =
        some next) :
    (line = endCertificate ∧
        next = { inside := false, count := count }) ∨
      (isBase64Line line = true ∧
        next = { inside := true, count := count }) := by
  by_cases hBegin : line = beginCertificate
  · simp [checkLine, hBegin] at hLine
  by_cases hEnd : line = endCertificate
  · refine .inl ⟨hEnd, ?_⟩
    simpa [checkLine, hBegin, hEnd,
      show ¬ endCertificate = beginCertificate by decide]
      using hLine.symm
  by_cases hBase64 : isBase64Line line = true
  · refine .inr ⟨hBase64, ?_⟩
    simpa [checkLine, hBegin, hEnd, hBase64] using hLine.symm
  · simp [checkLine, hBegin, hEnd, hBase64] at hLine

/-
  A pass that ends between blocks read blocks: from between
  them whole ones, from inside one first the rest of it.
-/
theorem bundle_of_foldlM
    (lines : List Bytes)
    {last : Check}
    (hLast : last.inside = false) :
    (∀ count,
      lines.foldlM checkLine
          { inside := false, count := count } = some last →
        ∃ blocks, Bundle lines blocks ∧
          last.count = count + blocks.length) ∧
      (∀ count,
        lines.foldlM checkLine
            { inside := true, count := count } = some last →
          ∃ body rest blocks,
            lines = body ++ endCertificate :: rest ∧
            (∀ line ∈ body, isBase64Line line = true) ∧
            Bundle rest blocks ∧
            last.count = count + blocks.length) := by
  induction lines with
  | nil =>
      constructor
      · intro count hFold
        obtain rfl : _ = last := Option.some.inj hFold
        exact ⟨[], .nil, rfl⟩
      · intro count hFold
        obtain rfl : _ = last := Option.some.inj hFold
        cases hLast
  | cons line lines ih =>
      constructor
      · intro count hFold
        rcases Option.bind_eq_some_iff.mp
          ((List.foldlM_cons ..).symm.trans hFold) with
          ⟨next, hLine, hRest⟩
        rcases checkLine_outside hLine with
          ⟨rfl, rfl⟩ | ⟨hBlank, rfl⟩
        · rcases ih.2 (count + 1) hRest with
            ⟨body, rest, blocks, rfl, hBody, hBundle, hCount⟩
          refine ⟨block body :: blocks, ?_, ?_⟩
          · have hBlock := Bundle.certificate hBody hBundle
            simpa [block] using hBlock
          · rw [hCount, List.length_cons]
            omega
        · rcases ih.1 count hRest with ⟨blocks, hBundle, hCount⟩
          exact ⟨blocks, .blank hBlank hBundle, hCount⟩
      · intro count hFold
        rcases Option.bind_eq_some_iff.mp
          ((List.foldlM_cons ..).symm.trans hFold) with
          ⟨next, hLine, hRest⟩
        rcases checkLine_inside hLine with
          ⟨rfl, rfl⟩ | ⟨hBase64, rfl⟩
        · rcases ih.1 count hRest with ⟨blocks, hBundle, hCount⟩
          exact ⟨[], lines, blocks, rfl, by simp, hBundle, hCount⟩
        · rcases ih.2 count hRest with
            ⟨body, rest, blocks, rfl, hBody, hBundle, hCount⟩
          exact ⟨line :: body, rest, blocks, rfl,
            List.forall_mem_cons.mpr ⟨hBase64, hBody⟩,
            hBundle, hCount⟩

/- What the check accepts is a bundle of some blocks. -/
theorem exists_bundle_of_check
    {lines : List Bytes}
    (hCheck : publicCertificatesOnly lines = true) :
    ∃ blocks, Bundle lines blocks ∧ blocks ≠ [] := by
  unfold publicCertificatesOnly at hCheck
  split at hCheck
  · cases hCheck
  · next check hFold =>
      rcases Bool.and_eq_true_iff.mp hCheck with ⟨hOut, hCount⟩
      have hInside : check.inside = false := by
        simpa using hOut
      rcases (bundle_of_foldlM lines hInside).1 0 hFold with
        ⟨blocks, hBundle, hLength⟩
      refine ⟨blocks, hBundle, ?_⟩
      rintro rfl
      simp [hLength] at hCount

------------------------------------------------------------
-- What the Split Makes of It
------------------------------------------------------------

theorem splitLine_begin (files : List (List Bytes)) :
    splitLine { opened := false, files := files }
        beginCertificate =
      { opened := true, files := [beginCertificate] :: files } := by
  have hEnd : ¬ Contains endCertificate beginCertificate := by
    decide
  simp [splitLine, print, hEnd]

theorem splitLine_end
    (file : List Bytes)
    (files : List (List Bytes)) :
    splitLine { opened := true, files := file :: files }
        endCertificate =
      { opened := false
        files := (file ++ [endCertificate]) :: files } := by
  have hBegin : ¬ Contains beginCertificate endCertificate := by
    decide
  simp [splitLine, print, hBegin]

/- The first byte of a marker is neither blank nor base64. -/
theorem dash_mem_markers :
    0x2d ∈ beginCertificate ∧ 0x2d ∈ endCertificate := by
  decide

theorem splitLine_blank
    {line : Bytes}
    (files : List (List Bytes))
    (hBlank : isBlankLine line = true) :
    splitLine { opened := false, files := files } line =
      { opened := false, files := files } := by
  have hBegin : ¬ Contains beginCertificate line :=
    not_contains_blank dash_mem_markers.1 rfl hBlank
  have hEnd : ¬ Contains endCertificate line :=
    not_contains_blank dash_mem_markers.2 rfl hBlank
  simp [splitLine, hBegin, hEnd]

theorem splitLine_base64
    {line : Bytes}
    (file : List Bytes)
    (files : List (List Bytes))
    (hBase64 : isBase64Line line = true) :
    splitLine { opened := true, files := file :: files } line =
      { opened := true, files := (file ++ [line]) :: files } := by
  have hBegin : ¬ Contains beginCertificate line :=
    not_contains_base64 dash_mem_markers.1 rfl hBase64
  have hEnd : ¬ Contains endCertificate line :=
    not_contains_base64 dash_mem_markers.2 rfl hBase64
  simp [splitLine, print, hBegin, hEnd]

theorem foldl_splitLine_base64
    {body : List Bytes}
    (file : List Bytes)
    (files : List (List Bytes))
    (hBody : ∀ line ∈ body, isBase64Line line = true) :
    body.foldl splitLine
        { opened := true, files := file :: files } =
      { opened := true, files := (file ++ body) :: files } := by
  induction body generalizing file with
  | nil => simp
  | cons line body ih =>
      rcases List.forall_mem_cons.mp hBody with ⟨hLine, hRest⟩
      rw [List.foldl_cons, splitLine_base64 file files hLine,
        ih (file ++ [line]) hRest, List.append_assoc,
        List.singleton_append]

namespace Bundle

variable {lines : List Bytes}
variable {blocks : List (List Bytes)}

/- Over a bundle, the split adds one file for each block. -/
theorem foldl_splitLine
    (hBundle : Bundle lines blocks)
    (files : List (List Bytes)) :
    lines.foldl splitLine { opened := false, files := files } =
      { opened := false, files := blocks.reverse ++ files } := by
  induction hBundle generalizing files with
  | nil => rfl
  | blank hBlank hRest ih =>
      rw [List.foldl_cons, splitLine_blank files hBlank, ih]
  | certificate hBody hRest ih =>
      rw [block, List.cons_append, List.cons_append,
        List.foldl_cons, splitLine_begin, List.append_assoc,
        List.foldl_append,
        foldl_splitLine_base64 _ files hBody,
        List.singleton_append, List.singleton_append,
        List.foldl_cons, splitLine_end, ih]
      simp

/- The files of a bundle are its blocks, in order. -/
theorem split_eq (hBundle : Bundle lines blocks) :
    split lines = blocks := by
  rw [split, hBundle.foldl_splitLine, List.append_nil,
    List.reverse_reverse]

/- `grep` counts the blocks. -/
theorem certificateCount_eq (hBundle : Bundle lines blocks) :
    certificateCount lines = blocks.length := by
  induction hBundle with
  | nil => rfl
  | blank hBlank hRest ih =>
      have hBegin :=
        not_contains_blank dash_mem_markers.1 rfl hBlank
      rw [certificateCount, List.countP_cons_of_neg
        (by simpa using hBegin)]
      exact ih
  | @certificate body lines blocks hBody hRest ih =>
      have hNone :
          body.countP
            (fun line => Contains beginCertificate line) = 0 := by
        rw [List.countP_eq_zero]
        intro line hLine
        simpa using
          not_contains_base64 dash_mem_markers.1 rfl
            (hBody line hLine)
      have hBlock : certificateCount (block body) = 1 := by
        have hEnd :
            ¬ Contains beginCertificate endCertificate := by
          decide
        rw [certificateCount, block, List.cons_append,
          List.countP_cons_of_pos (by simp),
          List.countP_append, hNone]
        simp [hEnd]
      have hSum :
          certificateCount (block body ++ lines) =
            certificateCount (block body) +
              certificateCount lines :=
        List.countP_append
      rw [hSum, hBlock, ih, List.length_cons]
      omega

/- No line of a bundle tells of a private key. -/
theorem not_hasPrivateKey (hBundle : Bundle lines blocks) :
    ¬ HasPrivateKey lines := by
  rintro ⟨line, hLine, hKey⟩
  have hSpace : space ∈ privateKey := by decide
  have hLetter : 0x50 ∈ privateKey := by decide
  induction hBundle with
  | nil => cases hLine
  | blank hBlank hRest ih =>
      rcases List.mem_cons.mp hLine with rfl | hLine
      · exact not_contains_blank hLetter rfl hBlank hKey
      · exact ih hLine
  | certificate hBody hRest ih =>
      rcases List.mem_append.mp hLine with hLine | hLine
      · simp only [block, List.cons_append, List.mem_cons,
          List.mem_append, List.not_mem_nil, or_false] at hLine
        rcases hLine with rfl | hLine | rfl
        · exact absurd hKey (by decide)
        · exact not_contains_base64 hSpace rfl
            (hBody line hLine) hKey
        · exact absurd hKey (by decide)
      · exact ih hLine

end Bundle

end Trust

end MicaBoards
