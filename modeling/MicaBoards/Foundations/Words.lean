import Mathlib.Data.List.TakeWhile
import MicaBoards.Foundations.Text

/-
  Words of a line, with blanks between them, as `read` takes
  them apart.

  Key definitions include:
    * `isBlank`
    * `firstWord`, `afterWord`, `word`
    * `withoutDot`
    * `wordsBy`, `fieldsBy`
    * `Word`

  Main declarations:
    * `firstWord_of_head`
    * `fieldsBy_extend`, `fieldsBy_append`
    * `Word.word_zero`, `Word.word_succ`
-/

------------------------------------------------------------
-- Words of a Line
------------------------------------------------------------

namespace MicaBoards

namespace Text

/- What separates the words of a line -/
def isBlank (b : UInt8) : Bool :=
  b = space ∨ b = tab

/- `[[:space:]]` -/
def isSpace (b : UInt8) : Bool :=
  b = space ∨ (tab ≤ b ∧ b ≤ cr)

def skipBlanks (line : Bytes) : Bytes :=
  line.dropWhile isBlank

def firstWord (line : Bytes) : Bytes :=
  (skipBlanks line).takeWhile fun b => !isBlank b

def afterWord (line : Bytes) : Bytes :=
  (skipBlanks line).dropWhile fun b => !isBlank b

/- The words of a line, counted from zero; empty past the end -/
def word : Nat → Bytes → Bytes
  | 0, line => firstWord line
  | n + 1, line => word n (afterWord line)

/- A line that does not start with a word -/
def StartsBlank (line : Bytes) : Prop :=
  ∀ b ∈ line.head?, isBlank b = true

theorem firstWord_of_head
    {b : UInt8}
    {line : Bytes}
    (hHead : isBlank b = false) :
    firstWord (b :: line) =
      b :: line.takeWhile fun b => !isBlank b := by
  simp [firstWord, skipBlanks, hHead]

/- Behind a word, the front of a line plays no part. -/
theorem takeWhile_append_blank
    {rest : Bytes}
    (hRest : StartsBlank rest)
    (front : Bytes) :
    (front ++ rest).takeWhile (fun b => !isBlank b) =
      front.takeWhile fun b => !isBlank b := by
  induction front with
  | nil =>
      cases rest with
      | nil => rfl
      | cons b rest => simp [hRest b rfl]
  | cons b front ih =>
      cases hBlank : isBlank b with
      | true => simp [hBlank]
      | false => simp [hBlank, ih]

theorem skipBlanks_replicate
    (count : Nat)
    (line : Bytes) :
    skipBlanks (List.replicate count space ++ line) =
      skipBlanks line := by
  induction count with
  | zero => rfl
  | succ count ih =>
      have hSpace : isBlank space = true := by decide
      rw [List.replicate_succ, List.cons_append, skipBlanks,
        List.dropWhile_cons_of_pos hSpace]
      exact ih

theorem word_replicate
    (n count : Nat)
    (line : Bytes) :
    word n (List.replicate count space ++ line) =
      word n line := by
  cases n with
  | zero =>
      rw [word, word, firstWord, skipBlanks_replicate, firstWord]
  | succ n =>
      rw [word, word, afterWord, skipBlanks_replicate, afterWord]

/- `${path#./}`, and `s|^\./||` on a line -/
def withoutDot : Bytes → Bytes
  | 0x2e :: 0x2f :: path => path
  | path => path

------------------------------------------------------------
-- Words and Fields
------------------------------------------------------------

/- What stands between separators -/
def wordsBy (p : UInt8 → Bool) (line : Bytes) : List Bytes :=
  (line.splitOnP p).filter (· ≠ [])

/-
  `split(line, fields, /p+/)`: the words, and an empty field
  before or behind a separator at an end of the line.
-/
def fieldsBy (p : UInt8 → Bool) (line : Bytes) : List Bytes :=
  match line.splitOnP p with
  | [] => []
  | [field] => if field = [] then [] else [field]
  | field :: next :: rest =>
      field :: ((next :: rest).dropLast.filter (· ≠ []) ++
        [(next :: rest).getLast (List.cons_ne_nil _ _)])

/- The parts of two lines side by side -/
theorem splitOnP_append
    {p : UInt8 → Bool}
    {line rest last first : Bytes}
    {init more : List Bytes}
    (hLine : line.splitOnP p = init ++ [last])
    (hRest : rest.splitOnP p = first :: more) :
    (line ++ rest).splitOnP p =
      init ++ (last ++ first) :: more := by
  induction line generalizing init last with
  | nil =>
      rw [List.splitOnP_nil, ← List.nil_append [[]]] at hLine
      rcases List.append_inj' hLine rfl with ⟨rfl, hLast⟩
      rw [← List.singleton_inj.mp hLast]
      exact hRest
  | cons b line ih =>
      obtain ⟨parts, part, hParts⟩ :=
        List.eq_nil_or_concat' (line.splitOnP p) |>.resolve_left
          (List.splitOnP_ne_nil _ _)
      have hBoth := ih hParts
      rw [List.splitOnP_cons_eq_if_modifyHead, hParts] at hLine
      rw [List.cons_append, List.splitOnP_cons_eq_if_modifyHead,
        hBoth]
      split
      · next hSeparator =>
          rw [if_pos hSeparator, ← List.cons_append] at hLine
          rcases List.append_inj' hLine rfl with ⟨rfl, hLast⟩
          rw [← List.singleton_inj.mp hLast, List.cons_append]
      · next hSeparator =>
          rw [if_neg hSeparator] at hLine
          cases parts with
          | nil =>
              rw [List.nil_append, List.modifyHead_cons,
                ← List.nil_append [_]] at hLine
              rcases List.append_inj' hLine rfl with ⟨rfl, hLast⟩
              rw [← List.singleton_inj.mp hLast]
              rfl
          | cons head parts =>
              rw [List.cons_append, List.modifyHead_cons,
                ← List.cons_append] at hLine
              rcases List.append_inj' hLine rfl with ⟨rfl, hLast⟩
              rw [← List.singleton_inj.mp hLast]
              rfl

/- The fields of a line that starts with a word -/
theorem fieldsBy_of_head
    {p : UInt8 → Bool}
    {b : UInt8}
    {line last : Bytes}
    {init : List Bytes}
    (hHead : p b = false)
    (hParts : (b :: line).splitOnP p = init ++ [last]) :
    fieldsBy p (b :: line) = init.filter (· ≠ []) ++ [last] := by
  obtain ⟨first, more, hMore⟩ :=
    List.exists_cons_of_ne_nil (List.splitOnP_ne_nil p line)
  rw [List.splitOnP_cons_eq_if_modifyHead, hHead, hMore]
    at hParts
  simp only [Bool.false_eq_true, if_false, List.modifyHead_cons]
    at hParts
  unfold fieldsBy
  rw [List.splitOnP_cons_eq_if_modifyHead, hHead, hMore]
  simp only [Bool.false_eq_true, if_false, List.modifyHead_cons]
  cases init with
  | nil =>
      rcases List.cons.inj hParts with ⟨hFirst, hNone⟩
      subst hFirst hNone
      simp
  | cons head init =>
      rw [List.cons_append] at hParts
      rcases List.cons.inj hParts with ⟨hFirst, hMore⟩
      subst hFirst hMore
      cases init with
      | nil => simp
      | cons next init =>
          have hDrop :
              (next :: (init ++ [last])).dropLast = next :: init := by
            rw [← List.cons_append, List.dropLast_concat]
          simp [hDrop]

/-
  All fields but the last of a line that starts with a word
  are fields also when the line goes on behind them.
-/
theorem fieldsBy_extend
    {p : UInt8 → Bool}
    {b : UInt8}
    {line : Bytes}
    (hHead : p b = false)
    (rest : Bytes) :
    ∃ fields,
      fields ≠ [] ∧
        fieldsBy p ((b :: line) ++ rest) =
          (fieldsBy p (b :: line)).dropLast ++ fields := by
  obtain ⟨init, last, hLine⟩ :=
    List.eq_nil_or_concat' ((b :: line).splitOnP p)
      |>.resolve_left (List.splitOnP_ne_nil _ _)
  obtain ⟨first, more, hRest⟩ :=
    List.exists_cons_of_ne_nil (List.splitOnP_ne_nil p rest)
  have hParts := splitOnP_append hLine hRest
  obtain ⟨middle, final, hMiddle⟩ :=
    List.eq_nil_or_concat' ((last ++ first) :: more)
      |>.resolve_left (List.cons_ne_nil _ _)
  rw [hMiddle, ← List.append_assoc, List.cons_append] at hParts
  refine ⟨middle.filter (· ≠ []) ++ [final], by simp, ?_⟩
  rw [List.cons_append, fieldsBy_of_head hHead hParts,
    fieldsBy_of_head hHead hLine, List.dropLast_concat,
    List.filter_append, List.append_assoc]

/-
  The words of a line that starts with one, but for the last,
  are fields of it, and a field is behind them.
-/
theorem fieldsBy_eq_words
    {p : UInt8 → Bool}
    {b : UInt8}
    {line : Bytes}
    (hHead : p b = false) :
    ∃ fields,
      fields ≠ [] ∧
        fieldsBy p (b :: line) =
          (wordsBy p (b :: line)).dropLast ++ fields := by
  obtain ⟨init, last, hLine⟩ :=
    List.eq_nil_or_concat' ((b :: line).splitOnP p)
      |>.resolve_left (List.splitOnP_ne_nil _ _)
  have hWords :
      wordsBy p (b :: line) =
        init.filter (· ≠ []) ++ [last].filter (· ≠ []) := by
    rw [wordsBy, hLine, List.filter_append]
  rw [fieldsBy_of_head hHead hLine, hWords]
  by_cases hLast : last = []
  · rw [hLast, List.filter_cons_of_neg (by simp),
      List.filter_nil, List.append_nil]
    obtain hNone | ⟨words, word, hInit⟩ :=
      List.eq_nil_or_concat' (init.filter (· ≠ []))
    · exact ⟨[[]], by simp, by rw [hNone]; rfl⟩
    · refine ⟨[word, []], by simp, ?_⟩
      rw [hInit, List.dropLast_concat, List.append_assoc,
        List.singleton_append]
  · refine ⟨[last], by simp, ?_⟩
    rw [List.filter_cons_of_pos (by simpa), List.filter_nil,
      List.dropLast_concat]

/- The same of the line with something behind it -/
theorem fieldsBy_append
    {p : UInt8 → Bool}
    {b : UInt8}
    {line : Bytes}
    (hHead : p b = false)
    (rest : Bytes) :
    ∃ fields,
      fields ≠ [] ∧
        fieldsBy p ((b :: line) ++ rest) =
          (wordsBy p (b :: line)).dropLast ++ fields := by
  rcases @fieldsBy_extend p b line hHead rest with
    ⟨behind, hSome, hBehind⟩
  rcases @fieldsBy_eq_words p b line hHead with
    ⟨fields, hFields, hWords⟩
  refine ⟨fields.dropLast ++ behind, by simp [hSome], ?_⟩
  rw [hBehind, hWords, List.dropLast_append_of_ne_nil hFields,
    List.append_assoc]

/- Separators that a line does not have do not count. -/
theorem splitOnP_congr
    {p q : UInt8 → Bool}
    {line : Bytes}
    (hSame : ∀ b ∈ line, p b = q b) :
    line.splitOnP p = line.splitOnP q := by
  induction line with
  | nil => rfl
  | cons b line ih =>
      rcases List.forall_mem_cons.mp hSame with ⟨hHead, hRest⟩
      rw [List.splitOnP_cons_eq_if_modifyHead,
        List.splitOnP_cons_eq_if_modifyHead, hHead, ih hRest]

------------------------------------------------------------
-- Words
------------------------------------------------------------

/- Bytes that are one word -/
structure Word where
  bytes : Bytes
  ne_nil : bytes ≠ []
  noBlank : ∀ b ∈ bytes, isBlank b = false
deriving DecidableEq

namespace Word

variable (w : Word)

theorem exists_cons :
    ∃ b bytes, w.bytes = b :: bytes ∧ isBlank b = false := by
  cases hBytes : w.bytes with
  | nil => exact absurd hBytes w.ne_nil
  | cons b bytes =>
      exact ⟨b, bytes, rfl, w.noBlank b (by simp [hBytes])⟩

theorem skipBlanks_append (rest : Bytes) :
    skipBlanks (w.bytes ++ rest) = w.bytes ++ rest := by
  rcases w.exists_cons with ⟨b, bytes, hBytes, hBlank⟩
  simp [hBytes, skipBlanks, hBlank]

theorem takeWhile_bytes :
    w.bytes.takeWhile (fun b => !isBlank b) = w.bytes := by
  rw [List.takeWhile_eq_self_iff]
  intro b hb
  rw [w.noBlank b hb, Bool.not_false]

/- The first word of a line that starts with one -/
theorem word_zero
    {rest : Bytes}
    (hRest : StartsBlank rest) :
    word 0 (w.bytes ++ rest) = w.bytes := by
  rw [word, firstWord, skipBlanks_append,
    takeWhile_append_blank hRest, takeWhile_bytes]

/- The words behind the first -/
theorem word_succ
    (n : Nat)
    (rest : Bytes) :
    word (n + 1) (w.bytes ++ space :: rest) = word n rest := by
  have hSpace : isBlank space = true := by decide
  have hDrop :
      (w.bytes ++ space :: rest).dropWhile
        (fun b => !isBlank b) = space :: rest := by
    rw [List.dropWhile_append_of_pos]
    · exact List.dropWhile_cons_of_neg (by simp [hSpace])
    · intro b hb
      rw [w.noBlank b hb, Bool.not_false]
  have hRest := word_replicate n 1 rest
  rw [word, afterWord, skipBlanks_append, hDrop]
  exact hRest

end Word

end Text

end MicaBoards
