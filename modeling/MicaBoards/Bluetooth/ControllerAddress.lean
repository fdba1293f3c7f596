import MicaBoards.Bluetooth.ControllerCommand
import MicaBoards.Foundations.Text

/-
  The address of the controller, as the bridge reads it from
  a text and sets it
  (`boards/s905x5m/userland/skw_bridge/skw_vhci_bridge.c`).

  Key definitions include:
    * `parseBdaddrText`
    * `configureControllerAddressWithTimeout`
  Main declarations:
    * `controller_commands_exact`
-/

------------------------------------------------------------
-- Address Text
------------------------------------------------------------

namespace MicaBoards

namespace Bluetooth

open Arrival (arrived)
open Text (lf cr isDigit)

/- BD_ADDR_LEN -/
def bdAddrLen : Nat := 6

/- A device address, its low byte first. -/
structure BdAddr where
  bytes : List UInt8
  length_bytes : bytes.length = bdAddrLen
deriving DecidableEq

/- `hex_nibble` -/
def hexNibble (ch : UInt8) : Option Nat :=
  if 0x30 ≤ ch ∧ ch ≤ 0x39 then some (ch.toNat - 0x30)
  else if 0x61 ≤ ch ∧ ch ≤ 0x66 then some (ch.toNat - 0x61 + 10)
  else if 0x41 ≤ ch ∧ ch ≤ 0x46 then some (ch.toNat - 0x41 + 10)
  else none

def colon : UInt8 := 0x3a

/- `\r` or `\n` -/
def isLineEnd (ch : UInt8) : Bool :=
  ch = cr ∨ ch = lf

/- The byte of two digits. -/
def pairValue (high low : UInt8) : Option UInt8 :=
  match hexNibble high, hexNibble low with
  | some h, some l => some (UInt8.ofNat (16 * h + l))
  | _, _ => none

/-
  The first loop of `parse_bdaddr_text`, from a pair of
  characters on, with so many pairs left.
-/
def displayFrom : Nat → Bytes → Option (List UInt8)
| 0, _ => some []
| left + 1, high :: low :: text =>
    match pairValue high low with
    | none => none
    | some byte =>
        if left ≠ 0 ∧ text.head? ≠ some colon then none
        else (displayFrom left text.tail).map (byte :: ·)
| _ + 1, _ => none

/- Pairs of digits, with colons between them. -/
def pairsText (pairs : List (UInt8 × UInt8)) : Bytes :=
  [colon].intercalate (pairs.map fun pair => [pair.1, pair.2])

theorem pairsText_cons
    {high low : UInt8}
    {pairs : List (UInt8 × UInt8)}
    (hPairs : pairs ≠ []) :
    pairsText ((high, low) :: pairs) =
      high :: low :: colon :: pairsText pairs := by
  unfold pairsText
  rw [List.map_cons, List.intercalate_cons_of_ne_nil]
  · rfl
  · exact List.map_eq_nil_iff.not.mpr hPairs

/- What is read are pairs of digits. -/
theorem displayFrom_eq_some
    {left : Nat}
    {text : Bytes}
    {display : List UInt8}
    (hDisplay : displayFrom left text = some display) :
    ∃ pairs rest,
      pairs.length = left ∧ text = pairsText pairs ++ rest ∧
        pairs.map (fun pair => pairValue pair.1 pair.2) =
          display.map some := by
  fun_induction displayFrom left text generalizing display with
  | case1 text =>
      cases hDisplay
      exact ⟨[], text, rfl, rfl, rfl⟩
  | case2 left high low text hPair =>
      cases hDisplay
  | case3 left high low text byte hPair hColon =>
      cases hDisplay
  | case4 left high low text byte hPair hColon ih =>
      rcases Option.map_eq_some_iff.mp hDisplay with
        ⟨display, hRest, rfl⟩
      rcases ih hRest with ⟨pairs, rest, hLength, hText, hValues⟩
      by_cases hLast : left = 0
      · subst hLast
        have hNone := List.eq_nil_of_length_eq_zero hLength
        subst hNone
        refine ⟨[(high, low)], text, rfl, rfl, ?_⟩
        simp [hPair, ← hValues]
      · have hHead : text.head? = some colon :=
          not_not.mp fun hOther => hColon ⟨hLast, hOther⟩
        have hPairs : pairs ≠ [] := by
          rintro rfl
          exact hLast hLength.symm
        refine ⟨(high, low) :: pairs, rest, ?_, ?_, ?_⟩
        · rw [List.length_cons, hLength]
        · rw [pairsText_cons hPairs, List.cons_append,
            List.cons_append, List.cons_append, ← hText]
          rw [List.cons_head?_tail hHead]
        · simp [hPair, ← hValues]
  | case5 => cases hDisplay

/- Pairs of digits are read. -/
theorem displayFrom_pairsText
    {pairs : List (UInt8 × UInt8)}
    {display : List UInt8}
    (hValues :
      pairs.map (fun pair => pairValue pair.1 pair.2) =
        display.map some)
    (rest : Bytes) :
    displayFrom pairs.length (pairsText pairs ++ rest) =
      some display := by
  induction pairs generalizing display with
  | nil =>
      have hNil := List.map_eq_nil_iff.mp hValues.symm
      rw [hNil]
      rfl
  | cons pair pairs ih =>
      rcases pair with ⟨high, low⟩
      cases display with
      | nil => cases hValues
      | cons byte display =>
          rw [List.map_cons, List.map_cons, List.cons.injEq]
            at hValues
          by_cases hPairs : pairs = []
          · subst hPairs
            have hNil := List.map_eq_nil_iff.mp hValues.2.symm
            subst hNil
            simp [pairsText, displayFrom, hValues.1]
          · rw [pairsText_cons hPairs]
            simp [displayFrom, hValues.1, ih hValues.2]

theorem length_displayFrom
    {left : Nat}
    {text : Bytes}
    {display : List UInt8}
    (hDisplay : displayFrom left text = some display) :
    display.length = left := by
  rcases displayFrom_eq_some hDisplay with
    ⟨pairs, rest, hLength, _, hValues⟩
  have hSame := congrArg List.length hValues
  rw [List.length_map, List.length_map] at hSame
  rw [← hSame, hLength]

theorem length_reverse_display
    {text : Bytes}
    {display : List UInt8}
    (hDisplay : displayFrom bdAddrLen text = some display) :
    display.reverse.length = bdAddrLen := by
  rw [List.length_reverse]
  exact length_displayFrom hDisplay

/-
  `parse_bdaddr_text`. A text is its characters before the
  terminating zero, and none is a null pointer.
-/
def parseBdaddrText (text : Option Bytes) : Option BdAddr :=
  match text with
  | none => none
  | some text =>
    if (text.takeWhile (!isLineEnd ·)).length ≠ 17 then
      none
    else
      match hDisplay : displayFrom bdAddrLen text with
      | none => none
      | some display =>
        if (text.drop 17).all isLineEnd = false then
          none
        else if display.all (· = 0) ∨ display.all (· = 0xff) then
          none
        else
          some
            { bytes := display.reverse
              length_bytes := length_reverse_display hDisplay }

theorem length_pairsText
    {pairs : List (UInt8 × UInt8)}
    (hPairs : pairs ≠ []) :
    (pairsText pairs).length + 1 = 3 * pairs.length := by
  induction pairs with
  | nil => exact absurd rfl hPairs
  | cons pair pairs ih =>
      by_cases hLast : pairs = []
      · subst hLast
        rfl
      · have hRest := ih hLast
        rw [pairsText_cons hLast]
        simp only [List.length_cons]
        omega

theorem length_sixPairs
    {pairs : List (UInt8 × UInt8)}
    (hLength : pairs.length = bdAddrLen) :
    (pairsText pairs).length = 17 := by
  have hPairs : pairs ≠ [] :=
    List.ne_nil_of_length_pos (by rw [hLength]; decide)
  have hText := length_pairsText hPairs
  rw [hLength] at hText
  change _ = 3 * 6 at hText
  omega

/- A digit is not a line end. -/
theorem isLineEnd_of_hexNibble
    {ch : UInt8}
    {value : Nat}
    (hDigit : hexNibble ch = some value) :
    isLineEnd ch = false := by
  by_contra hEnd
  rw [Bool.not_eq_false, isLineEnd, decide_eq_true_iff] at hEnd
  rcases hEnd with rfl | rfl
  · cases hDigit
  · cases hDigit

theorem isLineEnd_of_mem_pairsText
    {pairs : List (UInt8 × UInt8)}
    {display : List UInt8}
    (hValues :
      pairs.map (fun pair => pairValue pair.1 pair.2) =
        display.map some)
    {ch : UInt8}
    (hMem : ch ∈ pairsText pairs) :
    isLineEnd ch = false := by
  rcases Text.mem_intercalate hMem with rfl | ⟨piece, hPiece, hCh⟩
  · rfl
  rcases List.mem_map.mp hPiece with ⟨pair, hPair, rfl⟩
  have hValue :
      pairValue pair.1 pair.2 ∈ display.map some := by
    rw [← hValues]
    exact List.mem_map_of_mem hPair
  rcases List.mem_map.mp hValue with ⟨byte, _, hByte⟩
  unfold pairValue at hByte
  cases hHigh : hexNibble pair.1 with
  | none =>
      rw [hHigh] at hByte
      cases hByte
  | some high =>
      cases hLow : hexNibble pair.2 with
      | none =>
          rw [hHigh, hLow] at hByte
          cases hByte
      | some low =>
          rcases List.mem_pair.mp hCh with rfl | rfl
          · exact isLineEnd_of_hexNibble hHigh
          · exact isLineEnd_of_hexNibble hLow

/-
  An address is read if and only if the text is six pairs of
  digits with colons between them, then line ends, and not all
  of its bytes are 00 and not all ff. It is the bytes in
  reverse.
-/
theorem parseBdaddrText_eq_some_iff
    (text : Bytes)
    (addr : BdAddr) :
    parseBdaddrText (some text) = some addr ↔
      ∃ pairs lineEnds,
        pairs.length = bdAddrLen ∧
          text = pairsText pairs ++ lineEnds ∧
          (∀ ch ∈ lineEnds, isLineEnd ch = true) ∧
          pairs.map (fun pair => pairValue pair.1 pair.2) =
            addr.bytes.reverse.map some ∧
          (∃ byte ∈ addr.bytes, byte ≠ 0) ∧
          ∃ byte ∈ addr.bytes, byte ≠ 0xff := by
  constructor
  · intro hParse
    unfold parseBdaddrText at hParse
    rcases Decidable.em
      ((text.takeWhile (!isLineEnd ·)).length ≠ 17) with
      hFront | hFront
    · simp only [if_pos hFront] at hParse
      cases hParse
    simp only [if_neg hFront] at hParse
    split at hParse
    · cases hParse
    · rename_i display hDisplay
      split_ifs at hParse with hEnds hBytes
      cases hParse
      rcases displayFrom_eq_some hDisplay with
        ⟨pairs, rest, hLength, rfl, hValues⟩
      rw [not_or, Bool.not_eq_true, Bool.not_eq_true,
        List.all_eq_false, List.all_eq_false] at hBytes
      rw [Bool.not_eq_false,
        List.drop_left' (length_sixPairs hLength),
        List.all_eq_true] at hEnds
      refine ⟨pairs, rest, hLength, rfl, hEnds, ?_, ?_, ?_⟩
      · rw [List.reverse_reverse, hValues]
      · simpa using hBytes.1
      · simpa using hBytes.2
  · rintro ⟨pairs, lineEnds, hLength, rfl, hEnds, hValues, hZero,
      hOnes⟩
    have hDisplay :
        displayFrom bdAddrLen (pairsText pairs ++ lineEnds) =
          some addr.bytes.reverse := by
      rw [← hLength]
      exact displayFrom_pairsText hValues lineEnds
    have hFront :
        (pairsText pairs ++ lineEnds).takeWhile
          (!isLineEnd ·) = pairsText pairs := by
      rw [List.takeWhile_append_of_pos]
      · cases lineEnds with
        | nil => exact List.append_nil _
        | cons ch lineEnds =>
            have hEnd := hEnds ch List.mem_cons_self
            simp [hEnd]
      · intro ch hMem
        rw [isLineEnd_of_mem_pairsText hValues hMem]
        rfl
    have hBehind :
        (pairsText pairs ++ lineEnds).drop 17 = lineEnds :=
      List.drop_left' (length_sixPairs hLength)
    have hSize : ¬ (17 : Nat) ≠ 17 := fun hSize => hSize rfl
    unfold parseBdaddrText
    simp only [hFront, hBehind, length_sixPairs hLength,
      if_neg hSize]
    split
    · rename_i hNone
      rw [hDisplay] at hNone
      cases hNone
    · rename_i display hSome
      have hReverse : display = addr.bytes.reverse :=
        Option.some.inj (hSome.symm.trans hDisplay)
      subst hReverse
      rw [if_neg, if_neg]
      · simp
      · simpa using ⟨hZero, hOnes⟩
      · simpa using hEnds

------------------------------------------------------------
-- Configuration
------------------------------------------------------------

def hciReset : UInt16 := 0x0c03

def hciReadBdAddr : UInt16 := 0x1009

def hciWriteBdAddr : UInt16 := 0xfc82

/-
  `configure_controller_address_with_timeout`: the link after
  it, if it returns 0. `actual` begins as zeros.
-/
def configureControllerAddressWithTimeout
    (link : ControllerLink)
    (addr : BdAddr) : Option ControllerLink := do
  let (_, link) ←
    controllerCommand link hciWriteBdAddr addr.bytes 0
  let (_, link) ← controllerCommand link hciReset [] 0
  let (result, link) ←
    controllerCommand link hciReadBdAddr [] bdAddrLen
  let actual :=
    result ++ List.replicate (bdAddrLen - result.length) 0
  if result.length ≠ bdAddrLen ∨ actual ≠ addr.bytes then none
  else some link

/- Success is three completions, the last with the address. -/
theorem configureControllerAddress_eq_some_iff
    (link : ControllerLink)
    (addr : BdAddr)
    (rest : List UInt8)
    (accepts : List Bool)
    (written : List (List UInt8)) :
    (∃ coming,
      configureControllerAddressWithTimeout link addr =
        some ⟨accepts, written, coming⟩ ∧
      arrived coming = rest) ↔
      link.accepts = true :: true :: true :: accepts ∧
        written =
          link.written ++
            [commandPacket hciWriteBdAddr addr.bytes,
              commandPacket hciReset [],
              commandPacket hciReadBdAddr []] ∧
        ∃ first second third,
          arrived link.coming =
            commandComplete first hciWriteBdAddr [] ++
              (commandComplete second hciReset [] ++
                (commandComplete third hciReadBdAddr
                  addr.bytes ++ rest)) := by
  have hAddr := addr.length_bytes
  unfold bdAddrLen at hAddr
  constructor
  · rintro ⟨coming, hConfigure, hRest⟩
    unfold configureControllerAddressWithTimeout at hConfigure
    rcases Option.bind_eq_some_iff.mp hConfigure with
      ⟨⟨result₁, link₁⟩, hWrite, hConfigure⟩
    rcases Option.bind_eq_some_iff.mp hConfigure with
      ⟨⟨result₂, link₂⟩, hReset, hConfigure⟩
    rcases Option.bind_eq_some_iff.mp hConfigure with
      ⟨⟨result, link₃⟩, hRead, hConfigure⟩
    simp only at hConfigure
    split_ifs at hConfigure with hDiffers
    cases hConfigure
    rw [not_or, not_not, not_not] at hDiffers
    rcases hDiffers with ⟨hLength, hSame⟩
    rw [hLength, Nat.sub_self, List.replicate_zero,
      List.append_nil] at hSame
    subst hSame
    rcases (controllerCommand_eq_some_iff _ _ _ _ _ _ _ _).mp
      ⟨_, hWrite, rfl⟩ with
      ⟨_, hAccepts₁, hWritten₁, hEmpty₁, _, first, hFirst⟩
    rcases (controllerCommand_eq_some_iff _ _ _ _ _ _ _ _).mp
      ⟨_, hReset, rfl⟩ with
      ⟨_, hAccepts₂, hWritten₂, hEmpty₂, _, second, hSecond⟩
    rcases (controllerCommand_eq_some_iff _ _ _ _ _ _ _ _).mp
      ⟨_, hRead, hRest⟩ with
      ⟨_, hAccepts₃, hWritten₃, _, _, third, hThird⟩
    have hNone₁ : result₁ = [] :=
      List.eq_nil_of_length_eq_zero (Nat.le_zero.mp hEmpty₁)
    have hNone₂ : result₂ = [] :=
      List.eq_nil_of_length_eq_zero (Nat.le_zero.mp hEmpty₂)
    subst hNone₁ hNone₂
    refine ⟨?_, ?_, first, second, third, ?_⟩
    · rw [hAccepts₁, hAccepts₂, hAccepts₃]
    · rw [hWritten₃, hWritten₂, hWritten₁]
      simp only [List.append_assoc, List.cons_append,
        List.nil_append]
    · rw [hFirst, hSecond, hThird]
  · rintro ⟨hAccepts, rfl, first, second, third, hArrived⟩
    rcases (controllerCommand_eq_some_iff link hciWriteBdAddr
      addr.bytes 0 [] _ _ _).mpr
      ⟨by omega, hAccepts, rfl, le_rfl, by simp, first,
        hArrived⟩ with
      ⟨coming₁, hWrite, hSecond⟩
    rcases (controllerCommand_eq_some_iff
      ⟨true :: true :: accepts,
        link.written ++ [commandPacket hciWriteBdAddr addr.bytes],
        coming₁⟩ hciReset [] 0 [] _ _ _).mpr
      ⟨by simp, rfl, rfl, le_rfl, by simp, second, hSecond⟩ with
      ⟨coming₂, hReset, hThird⟩
    rcases (controllerCommand_eq_some_iff
      ⟨true :: accepts,
        link.written ++
          [commandPacket hciWriteBdAddr addr.bytes] ++
          [commandPacket hciReset []],
        coming₂⟩ hciReadBdAddr [] bdAddrLen addr.bytes _ _ _).mpr
      ⟨by simp, rfl, rfl, addr.length_bytes.le, by omega, third,
        hThird⟩ with
      ⟨coming, hRead, hRest⟩
    refine ⟨coming, ?_, hRest⟩
    unfold configureControllerAddressWithTimeout
    simp only [hWrite, hReset, hRead, Option.bind_eq_bind,
      Option.bind_some, addr.length_bytes, Nat.sub_self,
      List.replicate_zero, List.append_nil, ne_eq,
      not_true_eq_false, or_self, if_false]
    rw [List.append_assoc, List.append_assoc]
    rfl

/-
  The commands of the bridge are exact: a command succeeds if
  and only if the next event completes it, the configuration
  if and only if all its commands do and the address is read
  back, and an address is read only from its text.
-/
theorem controller_commands_exact :
    (∀ link opcode params capacity result rest accepts written,
      (∃ coming,
        controllerCommand link opcode params capacity =
          some (result, ⟨accepts, written, coming⟩) ∧
        arrived coming = rest) ↔
        params.length ≤ 255 ∧ link.accepts = true :: accepts ∧
          written =
            link.written ++ [commandPacket opcode params] ∧
          result.length ≤ capacity ∧ result.length + 4 ≤ 255 ∧
          ∃ packets,
            arrived link.coming =
              commandComplete packets opcode result ++ rest) ∧
    (∀ link addr rest accepts written,
      (∃ coming,
        configureControllerAddressWithTimeout link addr =
          some ⟨accepts, written, coming⟩ ∧
        arrived coming = rest) ↔
        link.accepts = true :: true :: true :: accepts ∧
          written =
            link.written ++
              [commandPacket hciWriteBdAddr addr.bytes,
                commandPacket hciReset [],
                commandPacket hciReadBdAddr []] ∧
          ∃ first second third,
            arrived link.coming =
              commandComplete first hciWriteBdAddr [] ++
                (commandComplete second hciReset [] ++
                  (commandComplete third hciReadBdAddr
                    addr.bytes ++ rest))) ∧
    (parseBdaddrText none = none) ∧
    ∀ (text : Bytes) (addr : BdAddr),
      parseBdaddrText (some text) = some addr ↔
        ∃ pairs lineEnds,
          pairs.length = bdAddrLen ∧
            text = pairsText pairs ++ lineEnds ∧
            (∀ ch ∈ lineEnds, isLineEnd ch = true) ∧
            pairs.map (fun pair => pairValue pair.1 pair.2) =
              addr.bytes.reverse.map some ∧
            (∃ byte ∈ addr.bytes, byte ≠ 0) ∧
            ∃ byte ∈ addr.bytes, byte ≠ 0xff := by
  refine ⟨?_, ?_, rfl, ?_⟩
  · exact controllerCommand_eq_some_iff
  · exact configureControllerAddress_eq_some_iff
  · exact parseBdaddrText_eq_some_iff

end Bluetooth

end MicaBoards
