import MicaBoards.Packages.Dockerfile

/-
  The scan of a Dockerfile for the paths that it copies from a
  named context (`copied_from` of `package-inputs.sh`), and
  which instructions it takes as the Dockerfile has them.

  Key definitions include:
    * `scanLines`, `scanned`, `copiedFrom`
    * `Shows`, `Legible`
    * `Plain`

  Main declarations:
    * `scanned_of_shows`
    * `scanned_indented`
    * `subset_copiedFrom`
    * `legible_of_plain`
-/

------------------------------------------------------------
-- The Scan
------------------------------------------------------------

namespace MicaBoards

namespace Packages

open Text
open Dockerfile

/- `{ line = line $0; if (sub(/\\$/, "", line)) next }` -/
def scanLines : (held : Bytes) → List Bytes → List Bytes
  | _, [] => []
  | held, line :: rest =>
      if (held ++ line).getLast? = some backslash then
        scanLines (held ++ line).dropLast rest
      else (held ++ line) :: scanLines [] rest

/- What `line` holds behind some lines -/
def unfinished : (held : Bytes) → List Bytes → Bytes
  | held, [] => held
  | held, line :: rest =>
      if (held ++ line).getLast? = some backslash then
        unfinished (held ++ line).dropLast rest
      else unfinished [] rest

/- `from`, behind the flags -/
def originOf (flags : List Bytes) : Bytes :=
  flags.foldl
    (fun origin word =>
      if fromFlag <+: word then word.drop fromFlag.length
      else origin)
    []

/- What the program prints for one joined line -/
def scanned (name line : Bytes) : List Bytes :=
  match fieldsBy isBlank line with
  | [] => []
  | command :: arguments =>
      let operands := arguments.dropWhile isFlag
      if command.map toUpper = ascii "COPY" ∧
          originOf (arguments.takeWhile isFlag) = name ∧
          operands ≠ [] then
        operands.dropLast
      else []

/-
  A name of a build context: without a backslash, which
  `awk -v` would take for the start of an escape.
-/
structure ContextName where
  bytes : Bytes
  plain : backslash ∉ bytes

def copiedFrom (dockerfile : Bytes) (name : ContextName) :
    List Bytes :=
  (scanLines [] (textLines dockerfile)).flatMap
    (scanned name.bytes)

------------------------------------------------------------
-- One Line
------------------------------------------------------------

/- The last flag of the kind counts. -/
theorem foldl_origin
    (flags : List Bytes)
    (origin : Bytes) :
    flags.foldl
        (fun origin word =>
          if fromFlag <+: word then word.drop fromFlag.length
          else origin) origin =
      ((flags.filter fun word => fromFlag <+: word).getLast?.map
        fun word => word.drop fromFlag.length).getD origin := by
  induction flags generalizing origin with
  | nil => rfl
  | cons word flags ih =>
      rw [List.foldl_cons, ih]
      by_cases hFrom : fromFlag <+: word
      · rw [if_pos hFrom,
          List.filter_cons_of_pos (by simpa using hFrom),
          List.getLast?_cons]
        cases (flags.filter fun word =>
          fromFlag <+: word).getLast? <;> rfl
      · rw [if_neg hFrom,
          List.filter_cons_of_neg (by simpa using hFrom)]

theorem originOf_eq
    {flags : List Bytes}
    {name : Bytes}
    (hFlags :
      flags.filter (fun word => fromFlag <+: word) =
        [fromFlag ++ name]) :
    originOf flags = name := by
  rw [originOf, foldl_origin, hFlags]
  simp

/- The arguments of an instruction are flags and operands. -/
theorem exists_flags
    (arguments : List Bytes) :
    ∃ flags,
      flags ++ operandsOf arguments = arguments ∧
        (∀ word ∈ flags, isFlag word = true) ∧
          flags.filter (fun word => fromFlag <+: word) =
            (flagsOf arguments).filter
              (fun word => fromFlag <+: word) := by
  induction arguments with
  | nil => exact ⟨[], rfl, List.forall_mem_nil _, rfl⟩
  | cons word arguments ih =>
      rcases ih with ⟨flags, hAppend, hFlags, hFilter⟩
      rw [operandsOf, flagsOf]
      by_cases hDashes : word = dashes
      · subst hDashes
        refine ⟨[dashes], by simp, fun word hWord => ?_, ?_⟩
        · rw [List.mem_singleton.mp hWord]
          decide
        · rw [if_neg (by simp)]
          decide
      · rw [if_neg hDashes]
        by_cases hFlag : isFlag word = true
        · rw [if_pos hFlag, if_pos ⟨hDashes, hFlag⟩]
          refine ⟨word :: flags, ?_, ?_, ?_⟩
          · rw [List.cons_append, hAppend]
          · exact List.forall_mem_cons.mpr ⟨hFlag, hFlags⟩
          · rw [List.filter_cons, List.filter_cons, hFilter]
        · rw [if_neg hFlag, if_neg fun hBoth => hFlag hBoth.2]
          exact ⟨[], rfl, List.forall_mem_nil _, rfl⟩

/- How many words are in front of the first operand -/
def frontOf (words : List Bytes) : Nat :=
  words.length - (operandsOf words.tail).length

/-
  Fields that have the words up to the first operand in front,
  the others but the last behind these in their order, and one
  more behind them. Other fields may stand in between.
-/
structure Shows (words fields : List Bytes) : Prop where
  front :
    fields.take (frontOf words + 1) =
      words.take (frontOf words + 1)
  behind :
    List.Sublist
      (words.drop (frontOf words + 1)).dropLast
      (fields.drop (frontOf words + 1)).dropLast
  more : frontOf words + 1 < fields.length

theorem shows_iff
    (words fields : List Bytes) :
    Shows words fields ↔
      fields.take (frontOf words + 1) =
          words.take (frontOf words + 1) ∧
        List.Sublist
            (words.drop (frontOf words + 1)).dropLast
            (fields.drop (frontOf words + 1)).dropLast ∧
          frontOf words + 1 < fields.length := by
  constructor
  · intro hShows
    exact ⟨hShows.front, hShows.behind, hShows.more⟩
  · rintro ⟨hFront, hBehind, hMore⟩
    exact ⟨hFront, hBehind, hMore⟩

instance decidableShows
    (words fields : List Bytes) :
    Decidable (Shows words fields) :=
  decidable_of_iff' _ (shows_iff words fields)

/- The words of an instruction around its first source -/
theorem frontOf_eq
    {command source : Bytes}
    {arguments flags operands : List Bytes}
    (hOperands : operandsOf arguments = source :: operands)
    (hAppend : flags ++ source :: operands = arguments) :
    frontOf (command :: arguments) = flags.length + 1 := by
  unfold frontOf
  rw [List.tail_cons, hOperands, ← hAppend]
  simp only [List.length_cons, List.length_append]
  omega

/- A copy with a source has words behind the first one. -/
theorem frontOf_lt
    {name : Bytes}
    {words sources : List Bytes}
    (hSources : copySources name words = some sources)
    (hSome : sources ≠ []) :
    frontOf words + 1 < words.length := by
  cases words with
  | nil => cases hSources
  | cons command arguments =>
      rw [copySources] at hSources
      split at hSources
      case isFalse => cases hSources
      obtain rfl := Option.some.inj hSources
      rcases exists_flags arguments with ⟨flags, hAppend, _⟩
      cases hOperands : operandsOf arguments with
      | nil => exact absurd (by rw [hOperands]; rfl) hSome
      | cons source operands =>
          rw [hOperands] at hAppend hSome
          have hMore : operands ≠ [] := by
            rintro rfl
            exact hSome rfl
          have hPositive := List.length_pos_iff.mpr hMore
          rw [frontOf_eq hOperands hAppend, ← hAppend]
          simp only [List.length_cons, List.length_append]
          omega

/-
  The sources of an instruction are printed for a line whose
  fields show its words.
-/
theorem scanned_of_shows
    {name line : Bytes}
    {words sources : List Bytes}
    (hSources : copySources name words = some sources)
    (hOperand :
      ∀ word ∈ (operandsOf words.tail).head?,
        isFlag word = false)
    (hShows : Shows words (fieldsBy isBlank line)) :
    sources ⊆ scanned name line := by
  cases words with
  | nil => cases hSources
  | cons command arguments =>
      rw [copySources] at hSources
      split at hSources
      case isFalse => cases hSources
      next hCopy =>
      rw [List.tail_cons] at hOperand
      obtain rfl := Option.some.inj hSources
      rcases exists_flags arguments with
        ⟨flags, hAppend, hFlags, hFilter⟩
      have hOrigin : originOf flags = name :=
        originOf_eq (hFilter.trans hCopy.2)
      cases hOperands : operandsOf arguments with
      | nil => exact List.nil_subset _
      | cons source operands =>
          rw [hOperands] at hAppend hOperand
          by_cases hOne : operands = []
          · rw [hOne]
            exact List.nil_subset _
          have hSource : ¬ isFlag source = true := by
            rw [hOperand source rfl]
            exact Bool.false_ne_true
          rcases hShows with ⟨hFront, hBehind, hMore⟩
          have hLength :
              (command :: (flags ++ [source])).length =
                flags.length + 1 + 1 := by simp
          have hWords :
              command :: arguments =
                (command :: (flags ++ [source])) ++ operands := by
            rw [← hAppend]
            simp
          rw [frontOf_eq hOperands hAppend, hWords,
            ← hLength] at hFront hBehind
          rw [frontOf_eq hOperands hAppend, ← hLength] at hMore
          rw [List.take_left' rfl] at hFront
          rw [List.drop_left' rfl] at hBehind
          have hMiddle := List.drop_eq_nil_iff.not.mpr
            (Nat.not_le_of_lt hMore)
          have hFields :=
            List.take_append_drop
              (command :: (flags ++ [source])).length
              (fieldsBy isBlank line)
          generalize (fieldsBy isBlank line).drop _ = middle
            at hBehind hMiddle hFields
          rw [hFront, List.cons_append, List.append_assoc,
            List.singleton_append] at hFields
          unfold scanned
          rw [← hFields]
          dsimp only
          rw [List.takeWhile_append_of_pos hFlags,
            List.dropWhile_append_of_pos hFlags,
            List.takeWhile_cons_of_neg hSource,
            List.dropWhile_cons_of_neg hSource,
            List.append_nil,
            if_pos ⟨hCopy.1, hOrigin, List.cons_ne_nil _ _⟩,
            List.dropLast_cons_of_ne_nil hOne,
            List.dropLast_cons_of_ne_nil hMiddle]
          exact List.cons_subset_cons _ hBehind.subset

/- What shows words also shows them when the line goes on. -/
theorem Shows.extend
    {words fields : List Bytes}
    (hShows : Shows words fields)
    {behind : List Bytes}
    (hSome : behind ≠ []) :
    Shows words (fields.dropLast ++ behind) := by
  rcases hShows with ⟨hFront, hBehind, hMore⟩
  have hFields : fields ≠ [] :=
    List.length_pos_iff.mp (Nat.zero_lt_of_lt hMore)
  obtain ⟨init, last, rfl⟩ :=
    List.eq_nil_or_concat' fields |>.resolve_left hFields
  have hLess : frontOf words + 1 ≤ init.length := by
    rw [List.length_append, List.length_singleton] at hMore
    exact Nat.le_of_lt_succ hMore
  have hPositive := List.length_pos_iff.mpr hSome
  rw [List.take_append_of_le_length hLess] at hFront
  rw [List.drop_append_of_le_length hLess, List.dropLast_concat]
    at hBehind
  rw [List.dropLast_concat]
  constructor
  · rw [List.take_append_of_le_length hLess]
    exact hFront
  · rw [List.drop_append_of_le_length hLess,
      List.dropLast_append_of_ne_nil hSome]
    exact hBehind.trans (List.sublist_append_left _ _)
  · rw [List.length_append]
    omega

/- Fields that start with all words but the last show them. -/
theorem shows_of_dropLast
    {words fields : List Bytes}
    (hLess : frontOf words + 1 < words.length)
    (hSome : fields ≠ []) :
    Shows words (words.dropLast ++ fields) := by
  have hWords : words ≠ [] :=
    List.length_pos_iff.mp (Nat.zero_lt_of_lt hLess)
  obtain ⟨init, last, rfl⟩ :=
    List.eq_nil_or_concat' words |>.resolve_left hWords
  have hInit : frontOf (init ++ [last]) + 1 ≤ init.length := by
    rw [List.length_append, List.length_singleton] at hLess
    exact Nat.le_of_lt_succ hLess
  have hPositive := List.length_pos_iff.mpr hSome
  rw [List.dropLast_concat]
  constructor
  · rw [List.take_append_of_le_length hInit,
      List.take_append_of_le_length hInit]
  · rw [List.drop_append_of_le_length hInit,
      List.drop_append_of_le_length hInit, List.dropLast_concat,
      List.dropLast_append_of_ne_nil hSome]
    exact List.sublist_append_left _ _
  · rw [List.length_append]
    omega

theorem fieldsBy_indented
    {b : UInt8}
    (hBlank : isBlank b = true)
    (line : Bytes) :
    ∃ fields, fieldsBy isBlank (b :: line) = [] :: fields := by
  unfold fieldsBy
  rw [List.splitOnP_cons_eq_if_modifyHead, if_pos hBlank]
  cases hSplit : line.splitOnP isBlank with
  | nil => exact absurd hSplit (List.splitOnP_ne_nil _ _)
  | cons next rest => exact ⟨_, rfl⟩

/- Of an indented line nothing is printed, whatever it says. -/
theorem scanned_indented
    (name : Bytes)
    {b : UInt8}
    (hBlank : isBlank b = true)
    (line : Bytes) :
    scanned name (b :: line) = [] := by
  have hCopy : ¬ ([] : Bytes).map toUpper = ascii "COPY" := by
    decide
  rcases fieldsBy_indented hBlank line with ⟨fields, hFields⟩
  unfold scanned
  rw [hFields]
  exact if_neg fun hBoth => hCopy hBoth.1

/- A line that shows the words of a copy is not indented. -/
theorem exists_head_of_shows
    {name line : Bytes}
    {words sources : List Bytes}
    (hSources : copySources name words = some sources)
    (hShows : Shows words (fieldsBy isBlank line)) :
    ∃ b rest, line = b :: rest ∧ isBlank b = false := by
  have hCopy : ¬ ([] : Bytes).map toUpper = ascii "COPY" := by
    decide
  have hFront := hShows.front
  cases line with
  | nil => exact absurd hShows.more (Nat.not_lt_zero _)
  | cons b rest =>
      refine ⟨b, rest, rfl, ?_⟩
      cases hBlank : isBlank b with
      | false => rfl
      | true =>
          rcases fieldsBy_indented hBlank rest with
            ⟨fields, hFields⟩
          cases words with
          | nil => cases hSources
          | cons command arguments =>
              rw [hFields, List.take_succ_cons,
                List.take_succ_cons] at hFront
              obtain rfl := (List.cons.inj hFront).1
              rw [copySources, if_neg fun hBoth =>
                hCopy hBoth.1] at hSources
              cases hSources

------------------------------------------------------------
-- Lines of an Instruction
------------------------------------------------------------

/-
  What the scan joins of an instruction's lines: all up to the
  first line end without a backslash before it.
-/
def firstLine : (held : Bytes) → List Bytes → Bytes
  | held, [] => held.rdropWhile fun b => b = backslash
  | held, line :: rest =>
      if (held ++ line).getLast? = some backslash then
        firstLine (held ++ line).dropLast rest
      else held ++ line

/-
  An instruction of a text as the scan can read it: the scan is
  through with the lines before it, there is a line end for it
  to stop at, what it joins of the instruction shows the words,
  and no operand that looks like a flag is in front.
-/
structure Legible (text : Bytes) (ins : Instruction) :
    Prop where
  fresh : unfinished [] ins.before = []
  ends :
    scanLines [] ((textLines text).drop ins.before.length) ≠ []
  shows :
    Shows (ins.words (escapeOf (textLines text)))
      (fieldsBy isBlank (firstLine [] ins.lines))
  operand :
    ∀ word ∈
      (operandsOf
        (ins.words (escapeOf (textLines text))).tail).head?,
      isFlag word = false

theorem legible_iff
    (text : Bytes)
    (ins : Instruction) :
    Legible text ins ↔
      unfinished [] ins.before = [] ∧
        scanLines []
            ((textLines text).drop ins.before.length) ≠ [] ∧
          Shows (ins.words (escapeOf (textLines text)))
              (fieldsBy isBlank (firstLine [] ins.lines)) ∧
            ((operandsOf
                (ins.words
                  (escapeOf (textLines text))).tail).head?.all
              fun word => !isFlag word) = true := by
  simp only [Option.all_eq_true, Bool.not_eq_true']
  constructor
  · intro hLegible
    exact ⟨hLegible.fresh, hLegible.ends, hLegible.shows,
      hLegible.operand⟩
  · rintro ⟨hFresh, hEnds, hShows, hOperand⟩
    exact ⟨hFresh, hEnds, hShows, hOperand⟩

instance decidableLegible
    (text : Bytes)
    (ins : Instruction) :
    Decidable (Legible text ins) :=
  decidable_of_iff' _ (legible_iff text ins)

theorem scanLines_append
    (held : Bytes)
    (lines rest : List Bytes) :
    scanLines held (lines ++ rest) =
      scanLines held lines ++
        scanLines (unfinished held lines) rest := by
  induction lines generalizing held with
  | nil => rfl
  | cons line lines ih =>
      rw [List.cons_append, scanLines, scanLines, unfinished]
      split
      · exact ih _
      · rw [ih, List.cons_append]

theorem rdropWhile_prefix_append
    (p : UInt8 → Bool)
    (front back : Bytes) :
    front.rdropWhile p <+: (front ++ back).rdropWhile p := by
  rw [List.rdropWhile, List.rdropWhile, List.reverse_append,
    List.dropWhile_append]
  split
  · exact List.prefix_rfl
  · rw [List.reverse_append, List.reverse_reverse]
    exact (List.rdropWhile_prefix p front).trans
      (List.prefix_append _ _)

theorem rdropWhile_dropLast
    {line : Bytes}
    (hEnd : line.getLast? = some backslash) :
    (line.rdropWhile fun b => b = backslash) =
      line.dropLast.rdropWhile fun b => b = backslash := by
  obtain ⟨init, rfl⟩ := List.getLast?_eq_some_iff.mp hEnd
  rw [List.dropLast_concat]
  exact List.rdropWhile_concat_pos _ _ _ (by simp)

/- A line end is found behind what is held of a line. -/
theorem held_prefix_scanLines
    {held : Bytes}
    {lines : List Bytes}
    (hSome : scanLines held lines ≠ []) :
    ∃ rest,
      (held.rdropWhile fun b => b = backslash) ++ rest ∈
        scanLines held lines := by
  induction lines generalizing held with
  | nil => exact absurd rfl hSome
  | cons line lines ih =>
      rw [scanLines] at hSome ⊢
      split at hSome
      · next hEnd =>
          rw [if_pos hEnd]
          rcases ih hSome with ⟨rest, hMem⟩
          have hPrefix :=
            rdropWhile_prefix_append (fun b => b = backslash)
              held line
          rw [rdropWhile_dropLast hEnd] at hPrefix
          rcases hPrefix with ⟨behind, hBehind⟩
          rw [← hBehind, List.append_assoc] at hMem
          exact ⟨behind ++ rest, hMem⟩
      · next hEnd =>
          rw [if_neg hEnd]
          rcases List.rdropWhile_prefix _ held with
            ⟨behind, hBehind⟩
          refine ⟨behind ++ line, ?_⟩
          rw [← List.append_assoc, hBehind]
          exact List.mem_cons_self

/- One of the joined lines starts with what is joined first. -/
theorem firstLine_prefix_scanLines
    {held : Bytes}
    {lines behind : List Bytes}
    (hSome : scanLines held (lines ++ behind) ≠ []) :
    ∃ rest,
      firstLine held lines ++ rest ∈
        scanLines held (lines ++ behind) := by
  induction lines generalizing held with
  | nil => exact held_prefix_scanLines hSome
  | cons line lines ih =>
      rw [List.cons_append, scanLines] at hSome ⊢
      rw [firstLine]
      split at hSome
      · next hEnd =>
          rw [if_pos hEnd, if_pos hEnd]
          exact ih hSome
      · next hEnd =>
          rw [if_neg hEnd, if_neg hEnd]
          refine ⟨[], ?_⟩
          rw [List.append_nil]
          exact List.mem_cons_self

/- Of a legible instruction the scan prints every source. -/
theorem subset_copiedFrom
    {text : Bytes}
    {name : ContextName}
    {ins : Instruction}
    (hIns : ins ∈ instructions text)
    (hLegible : Legible text ins)
    {sources : List Bytes}
    (hSources :
      copySources name.bytes
        (ins.words (escapeOf (textLines text))) =
          some sources) :
    sources ⊆ copiedFrom text name := by
  rcases append_of_mem_instructions hIns with ⟨behind, hText⟩
  have hEnds := hLegible.ends
  have hShows := hLegible.shows
  rw [hText, List.append_assoc, List.drop_left' rfl] at hEnds
  rcases firstLine_prefix_scanLines hEnds with ⟨rest, hMem⟩
  have hLine :
      firstLine [] ins.lines ++ rest ∈
        scanLines [] (textLines text) := by
    rw [hText, List.append_assoc, scanLines_append,
      hLegible.fresh]
    exact List.mem_append_right _ hMem
  have hScanned :
      Shows (ins.words (escapeOf (textLines text)))
        (fieldsBy isBlank (firstLine [] ins.lines ++ rest)) := by
    rcases exists_head_of_shows hSources hShows with
      ⟨b, line, hFirst, hHead⟩
    rw [hFirst] at hShows ⊢
    rcases @fieldsBy_extend isBlank b line hHead rest with
      ⟨fields, hSome, hFields⟩
    rw [hFields]
    exact hShows.extend hSome
  intro source hSource
  exact List.mem_flatMap.mpr
    ⟨_, hLine,
      scanned_of_shows hSources hLegible.operand hScanned
        hSource⟩

------------------------------------------------------------
-- Plain Layouts
------------------------------------------------------------

/-
  An instruction without anything special in its layout: the
  scan is through with the lines before it, all its lines but
  the last end in a backslash and none of these is a comment or
  empty, there is no space before it, no other space in it than
  blanks, and no operand that looks like a flag in front.
-/
structure Plain (escape : UInt8) (ins : Instruction) :
    Prop where
  fresh : unfinished [] ins.before = []
  goesOn :
    ∀ line ∈ ins.lines.dropLast,
      isSkipped line = false ∧
        line.getLast? = some backslash
  ends :
    ∀ line ∈ ins.lines.getLast?,
      line.getLast? ≠ some backslash
  flush :
    ∀ b ∈ (ins.joined escape).head?, isSpace b = false
  blanks :
    ∀ b ∈ ins.joined escape, isSpace b = isBlank b
  operand :
    ∀ word ∈ (operandsOf (ins.words escape).tail).head?,
      isFlag word = false

theorem getLast?_append_ne
    {front back : Bytes}
    (hFront : front.getLast? ≠ some backslash)
    (hBack : back.getLast? ≠ some backslash) :
    (front ++ back).getLast? ≠ some backslash := by
  by_cases hNil : back = []
  · rwa [hNil, List.append_nil]
  · rwa [List.getLast?_append_of_ne_nil _ hNil]

/-
  Lines that go on are joined, without their backslashes, when
  no other backslash is before these.
-/
theorem scanLines_goesOn
    {held : Bytes}
    {lines : List Bytes}
    (hGoesOn :
      ∀ line ∈ lines,
        line.getLast? = some backslash ∧
          line.dropLast.getLast? ≠ some backslash)
    {last : Bytes}
    (hHeld : held.getLast? ≠ some backslash)
    (hLast : last.getLast? ≠ some backslash)
    (rest : List Bytes) :
    scanLines held (lines ++ last :: rest) =
      (held ++ (lines.flatMap List.dropLast ++ last)) ::
        scanLines [] rest := by
  induction lines generalizing held with
  | nil =>
      rw [List.nil_append, scanLines,
        if_neg (getLast?_append_ne hHeld hLast)]
      rfl
  | cons line lines ih =>
      rcases List.forall_mem_cons.mp hGoesOn with ⟨hLine, hRest⟩
      have hNe : line ≠ [] := by
        rintro rfl
        cases hLine.1
      have hEnd : (held ++ line).getLast? = some backslash := by
        rw [List.getLast?_append_of_ne_nil _ hNe]
        exact hLine.1
      rw [List.cons_append, scanLines, if_pos hEnd,
        List.dropLast_append_of_ne_nil hNe,
        ih hRest (getLast?_append_ne hHeld hLine.2),
        List.flatMap_cons]
      simp

/-
  A line that goes on adds what is before its backslash, and
  another backslash there would mean that it does not.
-/
theorem lineText_goesOn
    {escape : UInt8}
    {line : Bytes}
    (hLine :
      isSkipped line = false ∧
        line.getLast? = some backslash)
    (hGoesOn : GoesOn escape line) :
    lineText escape line = line.dropLast ∧
      line.dropLast.getLast? ≠ some backslash := by
  have hNotBlank : isBlank backslash = false := by decide
  have hNe : line ≠ [] := by
    rintro rfl
    cases hLine.2
  have hGet : line.getLast hNe = backslash := by
    have hLast := hLine.2
    rw [List.getLast?_eq_some_getLast hNe] at hLast
    exact Option.some.inj hLast
  have hCore : line.rdropWhile isBlank = line := by
    rw [List.rdropWhile_eq_self_iff]
    intro _ hBlank
    rw [hGet, hNotBlank] at hBlank
    cases hBlank
  have hPhysical : physical line = line := by
    rw [physical, List.rdropWhile_eq_self_iff]
    intro _ hCr
    rw [hGet] at hCr
    exact absurd hCr (by decide)
  have hSome : (continued escape line).isSome = true := by
    rcases hGoesOn with hSkipped | hSome
    · rw [hLine.1] at hSkipped
      cases hSkipped
    · rwa [hPhysical] at hSome
  unfold lineText
  rw [hLine.1, hPhysical, if_neg (by simp)]
  unfold continued at hSome ⊢
  rw [hCore] at hSome ⊢
  dsimp only at hSome ⊢
  split at hSome
  · next hEnds =>
      rw [if_pos hEnds, Option.getD_some]
      refine ⟨rfl, ?_⟩
      rw [← hLine.2, hEnds.1]
      exact hEnds.2
  · cases hSome

/- What a line adds is a front of it. -/
theorem lineText_prefix
    (escape : UInt8)
    (line : Bytes) :
    lineText escape line <+: line := by
  unfold lineText
  split
  · exact List.nil_prefix
  · cases hLine : continued escape (physical line) with
    | none => exact List.rdropWhile_prefix _ _
    | some front =>
        unfold continued at hLine
        dsimp only at hLine
        split at hLine
        · obtain rfl := Option.some.inj hLine
          exact (List.dropLast_prefix _).trans
            ((List.rdropWhile_prefix _ _).trans
              (List.rdropWhile_prefix _ _))
        · cases hLine

theorem firstLine_of_scanLines
    {held line : Bytes}
    {lines rest : List Bytes}
    (hLines : scanLines held lines = line :: rest) :
    firstLine held lines = line := by
  induction lines generalizing held with
  | nil => cases hLines
  | cons next lines ih =>
      rw [scanLines] at hLines
      rw [firstLine]
      split at hLines
      · next hEnd =>
          rw [if_pos hEnd]
          exact ih hLines
      · next hEnd =>
          rw [if_neg hEnd]
          exact (List.cons.inj hLines).1

/- Of a plain instruction the scan joins all lines. -/
theorem firstLine_of_plain
    {text : Bytes}
    {ins : Instruction}
    (hIns : ins ∈ instructions text)
    (hPlain : Plain (escapeOf (textLines text)) ins)
    (hSome : ins.lines ≠ []) :
    (∃ rest,
      firstLine [] ins.lines =
        ins.joined (escapeOf (textLines text)) ++ rest) ∧
      ∀ behind, scanLines [] (ins.lines ++ behind) ≠ [] := by
  have hAll := goesOn_of_mem_instructions hIns
  generalize escapeOf (textLines text) = escape at hPlain hAll ⊢
  obtain ⟨front, last, hLines⟩ :=
    List.eq_nil_or_concat' ins.lines |>.resolve_left hSome
  have hFront := hPlain.goesOn
  have hLast := hPlain.ends
  rw [hLines, List.dropLast_concat] at hFront hAll
  rw [hLines, List.getLast?_concat] at hLast
  have hInit :
      front.flatMap (lineText escape) =
        front.flatMap List.dropLast :=
    List.flatMap_congr fun line hLine =>
      (lineText_goesOn (hFront line hLine) (hAll line hLine)).1
  have hGoesOn :
      ∀ line ∈ front,
        line.getLast? = some backslash ∧
          line.dropLast.getLast? ≠ some backslash :=
    fun line hLine =>
      ⟨(hFront line hLine).2,
        (lineText_goesOn
          (hFront line hLine) (hAll line hLine)).2⟩
  have hScan :=
    scanLines_goesOn hGoesOn
      (show ([] : Bytes).getLast? ≠ some backslash by simp)
      (hLast last rfl)
  rcases lineText_prefix escape last with ⟨rest, hRest⟩
  constructor
  · refine ⟨rest, ?_⟩
    rw [hLines, firstLine_of_scanLines (hScan []),
      Instruction.joined, hLines, List.flatMap_append,
      List.flatMap_singleton, List.append_assoc, hRest, hInit]
    rfl
  · intro behind hNone
    rw [hLines, List.append_assoc, List.singleton_append,
      hScan behind] at hNone
    cases hNone

/- A plain copy with a source is legible. -/
theorem legible_of_plain
    {text : Bytes}
    {name : ContextName}
    {ins : Instruction}
    (hIns : ins ∈ instructions text)
    (hPlain : Plain (escapeOf (textLines text)) ins)
    {sources : List Bytes}
    (hSources :
      copySources name.bytes
        (ins.words (escapeOf (textLines text))) =
          some sources)
    (hSome : sources ≠ []) :
    Legible text ins := by
  have hLess := frontOf_lt hSources hSome
  rcases append_of_mem_instructions hIns with ⟨behind, hText⟩
  cases hJoined : ins.joined (escapeOf (textLines text)) with
  | nil =>
      rw [Instruction.words, hJoined] at hSources
      cases hSources
  | cons b line =>
      have hLines : ins.lines ≠ [] := by
        intro hNil
        rw [Instruction.joined, hNil] at hJoined
        cases hJoined
      have hFlush := hPlain.flush
      have hBlanks := hPlain.blanks
      rw [hJoined] at hFlush hBlanks
      have hBlank : isBlank b = false := by
        rw [← hBlanks b List.mem_cons_self]
        exact hFlush b rfl
      have hWords :
          ins.words (escapeOf (textLines text)) =
            wordsBy isBlank (b :: line) := by
        rw [Instruction.words, hJoined, wordsBy, wordsBy,
          splitOnP_congr hBlanks]
      rcases firstLine_of_plain hIns hPlain hLines with
        ⟨⟨rest, hFirst⟩, hEnds⟩
      rcases @fieldsBy_append isBlank b line hBlank rest with
        ⟨fields, hFields, hAppend⟩
      refine
        { fresh := hPlain.fresh
          ends := ?_
          shows := ?_
          operand := hPlain.operand }
      · rw [hText, List.append_assoc, List.drop_left' rfl]
        exact hEnds behind
      · rw [hFirst, hJoined, hAppend, ← hWords]
        exact shows_of_dropLast hLess hFields

end Packages

end MicaBoards
