import MicaBoards.Foundations.Python

/-
  The walk over the members of an `ar` archive
  (`control-fields.py`), and when it ends with every byte in
  one member at most.

  Key definitions include:
    * `turn`, `walk`, `members`, `control`
    * `WalkSound`
    * `Reached`, `Header`, `HeadersSound`

  Main declarations:
    * `exists_holds_of_body`
    * `members_sound_iff`
    * `control_ends`
-/

------------------------------------------------------------
-- The Walk
------------------------------------------------------------

namespace MicaBoards

namespace Packages

open Python

/- Why a walk stops before the end -/
inductive WalkError where
  | notAnArchive
  | notAscii
  | notANumber
deriving DecidableEq

/- What is yielded, with its offset and declared size -/
structure Member where
  offset : Int
  size : Int
  name : List Char
  body : Bytes
deriving DecidableEq

/- A turn of the loop -/
inductive Turn where
  | past
  | error (e : WalkError)
  | yields (member : Member) (next : Int)
deriving DecidableEq

def magic : Bytes := ascii "!<arch>" ++ [Text.lf]

/- `data[at:at + 16]`, as a name -/
def nameAt (data : Bytes) (offset : Int) : List Char :=
  (strip (replacedText
    (slice data offset (offset + 16)))).rdropWhile
      fun c => c = '/'

/- `int(data[at + 48:at + 58].decode('ascii').strip())` -/
def sizeAt (data : Bytes) (offset : Int) :
    Except WalkError Int :=
  match asciiText (slice data (offset + 48) (offset + 58)) with
  | none => .error .notAscii
  | some text =>
      match int (strip text) with
      | none => .error .notANumber
      | some size => .ok size

/- `at + 60 + size + (size & 1)` -/
def nextOffset (offset size : Int) : Int :=
  offset + 60 + size + size % 2

def memberAt (data : Bytes) (offset size : Int) : Member where
  offset := offset
  size := size
  name := nameAt data offset
  body := slice data (offset + 60) (offset + 60 + size)

def turn (data : Bytes) (offset : Int) : Turn :=
  if offset + 60 ≤ data.length then
    match sizeAt data offset with
    | .error e => .error e
    | .ok size =>
        .yields (memberAt data offset size)
          (nextOffset offset size)
  else .past

/- How a walk ended; within the turns that it is given -/
inductive End where
  | reached
  | failed (e : WalkError)
deriving DecidableEq

/- What some turns yield, and the end if they come to it -/
def walk (data : Bytes) :
    (turns : Nat) → (offset : Int) → List Member × Option End
  | 0, _ => ([], none)
  | turns + 1, offset =>
      match turn data offset with
      | .past => ([], some .reached)
      | .error e => ([], some (.failed e))
      | .yields member next =>
          (member :: (walk data turns next).1,
            (walk data turns next).2)

def members (data : Bytes) (turns : Nat) :
    List Member × Option End :=
  if data.take 8 = magic then walk data turns 8
  else ([], some (.failed .notAnArchive))

------------------------------------------------------------
-- Sound Walks
------------------------------------------------------------

/-
  The bytes of the input that a member is taken from: its body
  and the 16 bytes of its name field, all of them, also the
  padding and the slashes that the code strips from the name.
  Behind a short name a size of -46 to -59 may share padding
  only.
-/
def Member.Holds (data : Bytes) (member : Member) (k : Nat) :
    Prop :=
  (bound data.length member.offset ≤ k ∧
      k < bound data.length (member.offset + 16)) ∨
    (bound data.length (member.offset + 60) ≤ k ∧
      k < bound data.length (member.offset + 60 + member.size))

/- The bytes of a body are bytes that the member holds. -/
theorem exists_holds_of_body
    {data : Bytes}
    {offset size : Int}
    {i : Nat}
    {b : UInt8}
    (hBody : (memberAt data offset size).body[i]? = some b) :
    ∃ k, (memberAt data offset size).Holds data k ∧
      data[k]? = some b := by
  dsimp only [memberAt] at hBody
  rw [getElem?_slice] at hBody
  split at hBody
  · next hInside =>
      refine ⟨_, .inr ⟨Nat.le_add_right _ i, hInside⟩, hBody⟩
  · cases hBody

/- The walk comes to an end. -/
def Ends (data : Bytes) : Prop :=
  ∃ turns, (members data turns).2 ≠ none

/- Offsets grow, and no byte is in two members. -/
def Apart (data : Bytes) (member later : Member) : Prop :=
  member.offset < later.offset ∧
    ∀ k, ¬ (member.Holds data k ∧ later.Holds data k)

def WalkSound (data : Bytes) : Prop :=
  Ends data ∧
    ∀ turns, (members data turns).1.Pairwise (Apart data)

/- A header that can be read -/
def Header (data : Bytes) (offset size : Int) : Prop :=
  offset + 60 ≤ data.length ∧ sizeAt data offset = .ok size

/- The offsets at which an archive's headers are looked for -/
inductive Reached (data : Bytes) : Int → Prop where
  | first : data.take 8 = magic → Reached data 8
  | next {offset size : Int} :
      Reached data offset → Header data offset size →
        Reached data (nextOffset offset size)

/-
  Every header that another one follows declares a size that
  leaves its name behind.
-/
def HeadersSound (data : Bytes) : Prop :=
  ∀ offset size size',
    Reached data offset →
      Header data offset size →
        Header data (nextOffset offset size) size' →
          -45 ≤ size

/- A turn yields when there is a header. -/
theorem turn_eq_yields
    {data : Bytes}
    {offset size : Int}
    (hHeader : Header data offset size) :
    turn data offset =
      .yields (memberAt data offset size)
        (nextOffset offset size) := by
  rw [turn, if_pos hHeader.1, hHeader.2]

/- Without a header the walk ends. -/
theorem walk_of_not_header
    {data : Bytes}
    {offset : Int}
    (hNone : ∀ size, ¬ Header data offset size)
    (turns : Nat) :
    (walk data (turns + 1) offset).1 = [] ∧
      (walk data (turns + 1) offset).2 ≠ none := by
  rw [walk, turn]
  by_cases hRoom : offset + 60 ≤ data.length
  · rw [if_pos hRoom]
    cases hSize : sizeAt data offset with
    | error e => exact ⟨rfl, Option.some_ne_none _⟩
    | ok size => exact absurd ⟨hRoom, hSize⟩ (hNone size)
  · rw [if_neg hRoom]
    exact ⟨rfl, Option.some_ne_none _⟩

/- A header is yielded first. -/
theorem walk_of_header
    {data : Bytes}
    {offset size : Int}
    (hHeader : Header data offset size)
    (turns : Nat) :
    walk data (turns + 1) offset =
      (memberAt data offset size ::
          (walk data turns (nextOffset offset size)).1,
        (walk data turns (nextOffset offset size)).2) := by
  rw [walk, turn_eq_yields hHeader]

theorem exists_header_of_mem
    {data : Bytes}
    {turns : Nat}
    {offset : Int}
    {member : Member}
    (hMem : member ∈ (walk data turns offset).1) :
    ∃ size, Header data offset size := by
  by_contra hNone
  rw [not_exists] at hNone
  cases turns with
  | zero => cases hMem
  | succ turns =>
      rw [(walk_of_not_header hNone turns).1] at hMem
      cases hMem

------------------------------------------------------------
-- Sound Headers Make A Sound Walk
------------------------------------------------------------

section Sound

variable {data : Bytes}

/- A sound size leads behind the name, and behind the body. -/
theorem le_nextOffset
    {size : Int}
    (hSize : -45 ≤ size)
    (offset : Int) :
    offset + 16 ≤ nextOffset offset size ∧
      offset + 60 + size ≤ nextOffset offset size := by
  unfold nextOffset
  omega

/- What is in a member is before the next. -/
theorem holds_lt
    {offset size : Int}
    (hOffset : 0 ≤ offset)
    (hSize : -45 ≤ size)
    {k : Nat}
    (hHolds : (memberAt data offset size).Holds data k) :
    (k : Int) < nextOffset offset size := by
  rcases le_nextOffset hSize offset with ⟨hName, hBody⟩
  rcases hHolds with ⟨_, hHigh⟩ | ⟨_, hHigh⟩
  · have hLt := lt_of_lt_bound (by dsimp only [memberAt]; omega)
      hHigh
    dsimp only [memberAt] at hLt
    omega
  · have hLt := lt_of_lt_bound (by dsimp only [memberAt]; omega)
      hHigh
    dsimp only [memberAt] at hLt
    omega

theorem le_of_holds
    {member : Member}
    (hOffset : 0 ≤ member.offset)
    {k : Nat}
    (hHolds : member.Holds data k) :
    member.offset ≤ k := by
  rcases hHolds with ⟨hLow, hHigh⟩ | ⟨hLow, hHigh⟩
  · exact le_of_bound_le hOffset hLow hHigh
  · have hLe := le_of_bound_le (by omega) hLow hHigh
    omega

variable (hSound : HeadersSound data)

include hSound

/- Headers are behind the magic bytes. -/
theorem eight_le
    {offset size : Int}
    (hReached : Reached data offset)
    (hHeader : Header data offset size) :
    8 ≤ offset := by
  induction hReached generalizing size with
  | first hMagic => exact Int.le_refl 8
  | @next before _ hReached hBefore ih =>
      have hSize := hSound _ _ _ hReached hBefore hHeader
      have hNext := (le_nextOffset hSize before).1
      have hOffset := ih hBefore
      omega

/- Members grow apart as the walk goes on. -/
theorem walk_apart
    (turns : Nat)
    {offset : Int}
    (hReached : Reached data offset) :
    (walk data turns offset).1.Pairwise (Apart data) ∧
      ∀ member ∈ (walk data turns offset).1,
        offset ≤ member.offset := by
  induction turns generalizing offset with
  | zero => exact ⟨List.Pairwise.nil, List.forall_mem_nil _⟩
  | succ turns ih =>
      by_cases hAny : ∃ size, Header data offset size
      · rcases hAny with ⟨size, hHeader⟩
        have hOffset := eight_le hSound hReached hHeader
        rcases ih (.next hReached hHeader) with
          ⟨hPairwise, hLater⟩
        have hNext :
            ∀ later ∈
                (walk data turns (nextOffset offset size)).1,
              -45 ≤ size := by
          intro later hMem
          rcases exists_header_of_mem hMem with ⟨size', hHeader'⟩
          exact hSound _ _ _ hReached hHeader hHeader'
        rw [walk_of_header hHeader]
        constructor
        · refine List.Pairwise.cons ?_ hPairwise
          intro later hMem
          have hSize := hNext later hMem
          have hBehind := hLater later hMem
          have hName := (le_nextOffset hSize offset).1
          refine ⟨?_, ?_⟩
          · dsimp only [memberAt]
            omega
          · rintro k ⟨hFirst, hSecond⟩
            have hLt := holds_lt (by omega) hSize hFirst
            have hLe := le_of_holds (by omega) hSecond
            omega
        · intro member hMem
          rcases List.mem_cons.mp hMem with rfl | hMem
          · exact Int.le_refl offset
          · have hSize := hNext member hMem
            have hBehind := hLater member hMem
            have hName := (le_nextOffset hSize offset).1
            omega
      · rw [not_exists] at hAny
        rw [(walk_of_not_header hAny turns).1]
        exact ⟨List.Pairwise.nil, List.forall_mem_nil _⟩

/- A walk with less than `n` bytes before it ends. -/
theorem walk_ends
    (n : Nat)
    {offset : Int}
    (hReached : Reached data offset)
    (hLeft : data.length < offset + n) :
    ∃ turns, (walk data turns offset).2 ≠ none := by
  induction n generalizing offset with
  | zero =>
      refine ⟨1, (walk_of_not_header ?_ 0).2⟩
      intro size hHeader
      have hRoom := hHeader.1
      omega
  | succ n ih =>
      by_cases hAny : ∃ size, Header data offset size
      · rcases hAny with ⟨size, hHeader⟩
        by_cases hNext :
            ∃ size', Header data (nextOffset offset size) size'
        · rcases hNext with ⟨size', hHeader'⟩
          have hSize := hSound _ _ _ hReached hHeader hHeader'
          have hName := (le_nextOffset hSize offset).1
          rcases ih (.next hReached hHeader) (by omega) with
            ⟨turns, hEnd⟩
          refine ⟨turns + 1, ?_⟩
          rw [walk_of_header hHeader]
          exact hEnd
        · rw [not_exists] at hNext
          refine ⟨2, ?_⟩
          rw [walk_of_header hHeader]
          exact (walk_of_not_header hNext 0).2
      · rw [not_exists] at hAny
        exact ⟨1, (walk_of_not_header hAny 0).2⟩

theorem walkSound_of_headersSound : WalkSound data := by
  by_cases hMagic : data.take 8 = magic
  · have hMembers (turns : Nat) :
        members data turns = walk data turns 8 :=
      if_pos hMagic
    constructor
    · rcases walk_ends hSound data.length (.first hMagic)
        (by omega) with ⟨turns, hEnd⟩
      refine ⟨turns, ?_⟩
      rw [hMembers]
      exact hEnd
    · intro turns
      rw [hMembers]
      exact (walk_apart hSound turns (.first hMagic)).1
  · have hMembers (turns : Nat) :
        members data turns =
          ([], some (.failed .notAnArchive)) :=
      if_neg hMagic
    constructor
    · refine ⟨0, ?_⟩
      rw [hMembers]
      exact Option.some_ne_none _
    · intro turns
      rw [hMembers]
      exact List.Pairwise.nil

end Sound

------------------------------------------------------------
-- A Sound Walk Has Sound Headers
------------------------------------------------------------

section Converse

variable {data : Bytes}

theorem magic_of_reached
    {offset : Int}
    (hReached : Reached data offset) :
    data.take 8 = magic := by
  induction hReached with
  | first hMagic => exact hMagic
  | next _ _ ih => exact ih

/- A walk comes to every offset that is reached. -/
theorem walk_of_reached
    {offset : Int}
    (hReached : Reached data offset) :
    ∃ front n, ∀ turns,
      (walk data (turns + n) 8).1 =
        front ++ (walk data turns offset).1 := by
  induction hReached with
  | first _ => exact ⟨[], 0, fun turns => rfl⟩
  | @next offset size hReached hHeader ih =>
      rcases ih with ⟨front, n, hWalk⟩
      refine ⟨front ++ [memberAt data offset size], n + 1, ?_⟩
      intro turns
      have hTurns := hWalk (turns + 1)
      rw [walk_of_header hHeader] at hTurns
      rw [Nat.add_right_comm turns 1 n] at hTurns
      rw [← Nat.add_assoc, hTurns, List.append_assoc,
        List.singleton_append]

variable (hSound : WalkSound data)

include hSound

/- Two headers, one behind the other, are yielded apart. -/
theorem apart_of_headers
    {offset size size' : Int}
    (hReached : Reached data offset)
    (hHeader : Header data offset size)
    (hNext : Header data (nextOffset offset size) size') :
    Apart data (memberAt data offset size)
      (memberAt data (nextOffset offset size) size') := by
  rcases walk_of_reached hReached with ⟨front, n, hWalk⟩
  have hPairwise := hSound.2 (2 + n)
  rw [members, if_pos (magic_of_reached hReached), hWalk,
    walk_of_header hHeader, walk_of_header hNext] at hPairwise
  have hBoth := (List.pairwise_append.mp hPairwise).2.1
  exact (List.pairwise_cons.mp hBoth).1 _ List.mem_cons_self

theorem eight_le_of_walkSound
    {offset size : Int}
    (hReached : Reached data offset)
    (hHeader : Header data offset size) :
    8 ≤ offset := by
  induction hReached generalizing size with
  | first _ => exact Int.le_refl 8
  | @next before size' hReached hBefore ih =>
      have hApart :=
        apart_of_headers hSound hReached hBefore hHeader
      have hLt := hApart.1
      have hOffset := ih hBefore
      dsimp only [memberAt] at hLt
      omega

theorem headersSound_of_walkSound : HeadersSound data := by
  intro offset size size' hReached hHeader hNext
  by_contra hSize
  have hOffset :=
    eight_le_of_walkSound hSound hReached hHeader
  rcases apart_of_headers hSound hReached hHeader hNext with
    ⟨hGrows, hApart⟩
  have hRoom := hNext.1
  have hNear : nextOffset offset size ≤ offset + 14 := by
    unfold nextOffset
    omega
  dsimp only [memberAt] at hGrows
  -- the first byte of the later name is in both names
  refine hApart (nextOffset offset size).toNat ⟨.inl ?_, .inl ?_⟩
  · dsimp only [memberAt]
    rw [bound_of_nonneg (by omega), bound_of_nonneg (by omega)]
    omega
  · dsimp only [memberAt]
    rw [bound_of_nonneg (by omega), bound_of_nonneg (by omega)]
    omega

end Converse

/-
  The walk over an archive ends, with its offsets growing and
  no byte in two members (the whole name field counted),
  exactly when no header that another one follows declares a
  size below -45.
-/
theorem members_sound_iff (data : Bytes) :
    WalkSound data ↔ HeadersSound data :=
  ⟨headersSound_of_walkSound, walkSound_of_headersSound⟩

------------------------------------------------------------
-- An Archive Without An End
------------------------------------------------------------

/- A first header that declares a size of -60 -/
def endlessArchive : Bytes :=
  magic ++ ascii "debian-binary   " ++
    ascii "1789430400  0     0     100644  " ++
      ascii "-60       " ++ ascii "`" ++ [Text.lf]

theorem header_endlessArchive :
    Header endlessArchive 8 (-60) := by
  constructor
  · decide +kernel
  · rfl

theorem walk_endlessArchive (turns : Nat) :
    (walk endlessArchive turns 8).2 = none := by
  have hNext : nextOffset 8 (-60) = 8 := by decide
  induction turns with
  | zero => rfl
  | succ turns ih =>
      rw [walk_of_header header_endlessArchive, hNext]
      exact ih

/- Its first member is yielded again and again. -/
theorem not_walkSound_endlessArchive :
    ¬ WalkSound endlessArchive := by
  have hMagic : endlessArchive.take 8 = magic := by
    decide +kernel
  rintro ⟨⟨turns, hEnd⟩, _⟩
  rw [members, if_pos hMagic] at hEnd
  exact hEnd (walk_endlessArchive turns)

------------------------------------------------------------
-- The Control File
------------------------------------------------------------

/- Why there is no control file -/
inductive ControlError where
  | walk (e : WalkError)
  | compressed (name : List Char)
  | noControlFile (name : List Char)
  | noControlMember
deriving DecidableEq

/- Compressions that are refused by name -/
def refusedSuffixes : List (List Char) :=
  [".zst".toList, ".lz4".toList, ".bz2".toList]

section Control

/- `tarfile`: the control file of a control archive, if any -/
variable (tarControl : (body : Bytes) → Option Bytes)

def readControl (member : Member) : Except ControlError Bytes :=
  if refusedSuffixes.any fun suffix =>
      suffix <:+ member.name then
    .error (.compressed member.name)
  else
    match tarControl member.body with
    | none => .error (.noControlFile member.name)
    | some text => .ok text

def controlFrom (data : Bytes) :
    (turns : Nat) → (offset : Int) →
      Option (Except ControlError Bytes)
  | 0, _ => none
  | turns + 1, offset =>
      match turn data offset with
      | .past => some (.error .noControlMember)
      | .error e => some (.error (.walk e))
      | .yields member next =>
          if "control.tar".toList <+: member.name then
            some (readControl tarControl member)
          else controlFrom data turns next

/- What comes out within the turns that it is given -/
def control (data : Bytes) (turns : Nat) :
    Option (Except ControlError Bytes) :=
  if data.take 8 = magic then controlFrom tarControl data turns 8
  else some (.error (.walk .notAnArchive))

theorem controlFrom_ends
    {data : Bytes}
    {turns : Nat}
    {offset : Int}
    (hEnd : (walk data turns offset).2 ≠ none) :
    controlFrom tarControl data turns offset ≠ none := by
  induction turns generalizing offset with
  | zero => exact absurd rfl hEnd
  | succ turns ih =>
      rw [walk] at hEnd
      rw [controlFrom]
      cases hTurn : turn data offset with
      | past => exact Option.some_ne_none _
      | error e => exact Option.some_ne_none _
      | yields member next =>
          rw [hTurn] at hEnd
          dsimp only
          split
          · exact Option.some_ne_none _
          · exact ih hEnd

/- With sound headers, `control` comes to a result. -/
theorem control_ends
    {data : Bytes}
    (hSound : HeadersSound data) :
    ∃ turns, control tarControl data turns ≠ none := by
  rcases (walkSound_of_headersSound hSound).1 with
    ⟨turns, hEnd⟩
  refine ⟨turns, ?_⟩
  unfold control
  split
  · next hMagic =>
      rw [members, if_pos hMagic] at hEnd
      exact controlFrom_ends tarControl hEnd
  · exact Option.some_ne_none _

/- Of the archive without an end it comes to none. -/
theorem control_endlessArchive (turns : Nat) :
    control tarControl endlessArchive turns = none := by
  have hMagic : endlessArchive.take 8 = magic := by
    decide +kernel
  have hNext : nextOffset 8 (-60) = 8 := by decide
  have hName :
      ¬ "control.tar".toList <+:
        (memberAt endlessArchive 8 (-60)).name := by
    decide +kernel
  rw [control, if_pos hMagic]
  induction turns with
  | zero => rfl
  | succ turns ih =>
      rw [controlFrom, turn_eq_yields header_endlessArchive]
      dsimp only
      rw [if_neg hName, hNext]
      exact ih

end Control

end Packages

end MicaBoards
