import Mathlib.Data.List.DropRight
import MicaBoards.Foundations.Words

/-
  Dockerfiles as their syntax has them: instructions over one
  or more lines, with comments and empty lines between, and
  the sources that `COPY` takes from a named context.

  Quotes are read as they stand. Here-documents are not told
  from other lines, so what looks like an instruction in one
  counts as an instruction.

  Key definitions include:
    * `escapeOf`
    * `Instruction`, `instructions`
    * `copySources`

  Main declarations:
    * `append_of_mem_instructions`
    * `goesOn_of_mem_instructions`
-/

------------------------------------------------------------
-- Lines
------------------------------------------------------------

namespace MicaBoards

namespace Packages

namespace Dockerfile

open Text

def backslash : UInt8 := 0x5c

def backtick : UInt8 := 0x60

def hash : UInt8 := 0x23

def trimLeft (line : Bytes) : Bytes :=
  line.dropWhile isSpace

/- A line without carriage returns at its end -/
def physical (line : Bytes) : Bytes :=
  line.rdropWhile fun b => b = cr

def isComment (line : Bytes) : Bool :=
  (trimLeft line).head? = some hash

def isEmpty (line : Bytes) : Bool :=
  line.all isSpace

/- A line that is no part of any instruction -/
def isSkipped (line : Bytes) : Bool :=
  isComment (physical line) ∨ isEmpty (physical line)

/-
  What is before an escape character that ends the line,
  blanks aside; an escaped one does not continue the line.
-/
def continued (escape : UInt8) (line : Bytes) :
    Option Bytes :=
  let core := line.rdropWhile isBlank
  if core.getLast? = some escape ∧
      core.dropLast.getLast? ≠ some escape then
    some core.dropLast
  else none

------------------------------------------------------------
-- The Escape Character
------------------------------------------------------------

def isAlphanumeric (b : UInt8) : Bool :=
  isUpper b ∨ isLower b ∨ isDigit b

def toUpper (b : UInt8) : UInt8 :=
  if isLower b then b - 0x20 else b

/- `# key=value` -/
def directive (line : Bytes) : Option (Bytes × Bytes) :=
  match trimLeft (physical line) with
  | [] => none
  | first :: rest =>
      let key := (trimLeft rest).takeWhile isAlphanumeric
      let behind :=
        trimLeft ((trimLeft rest).dropWhile isAlphanumeric)
      let value := (trimLeft behind.tail).rdropWhile isSpace
      if first = hash ∧ key ≠ [] ∧
          behind.head? = some equals ∧ value ≠ [] then
        some (key.map toUpper, value)
      else none

/- The escape character that the directives at the top set -/
def escapeOf : List Bytes → UInt8
  | [] => backslash
  | line :: rest =>
      match directive line with
      | none => backslash
      | some (key, value) =>
          if key = ascii "ESCAPE" then
            if value = [backtick] then backtick else backslash
          else if key = ascii "SYNTAX" ∨ key = ascii "CHECK" then
            escapeOf rest
          else backslash

------------------------------------------------------------
-- Instructions
------------------------------------------------------------

/- The lines before an instruction, and its own -/
structure Instruction where
  before : List Bytes
  lines : List Bytes
deriving DecidableEq

/-
  The instructions in some lines, from the lines `before` and
  from the lines of an instruction that is not at its end.
-/
def instructionsFrom (escape : UInt8) :
    (before opened lines : List Bytes) → List Instruction
  | before, opened, [] =>
      if opened = [] then []
      else [{ before := before, lines := opened }]
  | before, opened, line :: rest =>
      if isSkipped line then
        if opened = [] then
          instructionsFrom escape (before ++ [line]) [] rest
        else
          instructionsFrom escape before (opened ++ [line]) rest
      else if (continued escape (physical line)).isSome then
        instructionsFrom escape before (opened ++ [line]) rest
      else
        { before := before, lines := opened ++ [line] } ::
          instructionsFrom escape
            (before ++ (opened ++ [line])) [] rest

def instructions (text : Bytes) : List Instruction :=
  instructionsFrom (escapeOf (textLines text)) [] []
    (textLines text)

/- What a line adds to the instruction it is a line of -/
def lineText (escape : UInt8) (line : Bytes) : Bytes :=
  if isSkipped line then []
  else (continued escape (physical line)).getD (physical line)

namespace Instruction

def joined (escape : UInt8) (ins : Instruction) : Bytes :=
  ins.lines.flatMap (lineText escape)

def words (escape : UInt8) (ins : Instruction) : List Bytes :=
  wordsBy isSpace (ins.joined escape)

end Instruction

------------------------------------------------------------
-- Copies
------------------------------------------------------------

def dashes : Bytes := ascii "--"

def fromFlag : Bytes := ascii "--from="

/- `--NAME` and `--NAME=VALUE` -/
def isFlag (word : Bytes) : Bool :=
  dashes <+: word

/- The flags in front, up to a word of dashes alone -/
def flagsOf : List Bytes → List Bytes
  | [] => []
  | word :: words =>
      if word ≠ dashes ∧ isFlag word then word :: flagsOf words
      else []

/- What is behind the flags, and behind a word of dashes -/
def operandsOf : List Bytes → List Bytes
  | [] => []
  | word :: words =>
      if word = dashes then words
      else if isFlag word then operandsOf words
      else word :: words

/- The sources of a copy from a context of this name -/
def copySources (name : Bytes) (words : List Bytes) :
    Option (List Bytes) :=
  match words with
  | [] => none
  | command :: arguments =>
      if command.map toUpper = ascii "COPY" ∧
          (flagsOf arguments).filter
            (fun word => fromFlag <+: word) =
              [fromFlag ++ name] then
        some (operandsOf arguments).dropLast
      else none

------------------------------------------------------------
-- Where Instructions Stand
------------------------------------------------------------

/- An instruction's lines stand behind the lines before it. -/
theorem append_of_mem_instructionsFrom
    {escape : UInt8}
    {before opened lines : List Bytes}
    {ins : Instruction}
    (hIns : ins ∈ instructionsFrom escape before opened lines) :
    ∃ behind,
      before ++ opened ++ lines =
        ins.before ++ ins.lines ++ behind := by
  induction lines generalizing before opened with
  | nil =>
      rw [instructionsFrom] at hIns
      split at hIns
      · cases hIns
      · obtain rfl := List.mem_singleton.mp hIns
        exact ⟨[], rfl⟩
  | cons line rest ih =>
      rw [instructionsFrom] at hIns
      split at hIns
      · split at hIns
        · next hNone =>
            rcases ih hIns with ⟨behind, hAppend⟩
            refine ⟨behind, ?_⟩
            simpa [hNone] using hAppend
        · rcases ih hIns with ⟨behind, hAppend⟩
          exact ⟨behind, by simpa using hAppend⟩
      · split at hIns
        · rcases ih hIns with ⟨behind, hAppend⟩
          exact ⟨behind, by simpa using hAppend⟩
        · rcases List.mem_cons.mp hIns with rfl | hIns
          · exact ⟨rest, by simp⟩
          · rcases ih hIns with ⟨behind, hAppend⟩
            exact ⟨behind, by simpa using hAppend⟩

/- The text goes on over each line of an instruction but one. -/
def GoesOn (escape : UInt8) (line : Bytes) : Prop :=
  isSkipped line = true ∨
    (continued escape (physical line)).isSome = true

theorem goesOn_append
    {escape : UInt8}
    {opened : List Bytes}
    {line : Bytes}
    (hOpened : ∀ l ∈ opened, GoesOn escape l)
    (hLine : GoesOn escape line) :
    ∀ l ∈ opened ++ [line], GoesOn escape l := by
  intro l hL
  rcases List.mem_append.mp hL with hL | hL
  · exact hOpened l hL
  · rw [List.mem_singleton.mp hL]
    exact hLine

theorem goesOn_of_mem_instructionsFrom
    {escape : UInt8}
    {before opened lines : List Bytes}
    {ins : Instruction}
    (hOpened : ∀ line ∈ opened, GoesOn escape line)
    (hIns : ins ∈ instructionsFrom escape before opened lines) :
    ∀ line ∈ ins.lines.dropLast, GoesOn escape line := by
  have hNone : ∀ line ∈ [], GoesOn escape line :=
    fun _ hLine => by cases hLine
  induction lines generalizing before opened with
  | nil =>
      rw [instructionsFrom] at hIns
      split at hIns
      · cases hIns
      · obtain rfl := List.mem_singleton.mp hIns
        exact fun line hLine =>
          hOpened line (List.dropLast_subset _ hLine)
  | cons line rest ih =>
      rw [instructionsFrom] at hIns
      split at hIns
      · next hSkipped =>
          split at hIns
          · exact ih hNone hIns
          · exact ih (goesOn_append hOpened (.inl hSkipped)) hIns
      · split at hIns
        · next hContinued =>
            exact ih (goesOn_append hOpened (.inr hContinued)) hIns
        · rcases List.mem_cons.mp hIns with rfl | hIns
          · rw [List.dropLast_concat]
            exact hOpened
          · exact ih hNone hIns

/- The lines of a text around one of its instructions -/
theorem append_of_mem_instructions
    {text : Bytes}
    {ins : Instruction}
    (hIns : ins ∈ instructions text) :
    ∃ behind,
      textLines text = ins.before ++ ins.lines ++ behind := by
  rcases append_of_mem_instructionsFrom hIns with
    ⟨behind, hAppend⟩
  exact ⟨behind, hAppend⟩

/- An instruction goes on over all its lines but the last. -/
theorem goesOn_of_mem_instructions
    {text : Bytes}
    {ins : Instruction}
    (hIns : ins ∈ instructions text) :
    ∀ line ∈ ins.lines.dropLast,
      GoesOn (escapeOf (textLines text)) line :=
  goesOn_of_mem_instructionsFrom
    (fun _ hLine => by cases hLine) hIns

end Dockerfile

end Packages

end MicaBoards
