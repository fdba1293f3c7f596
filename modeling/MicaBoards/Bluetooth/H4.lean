import MicaBoards.Foundations.FramedStream
import Mathlib.Data.List.GetD
import Mathlib.Order.Basic
import Mathlib.Tactic.SplitIfs

/-
  The H4 decoder of the Seekwave transport
  (`boards/s905x5m/userland/skwbt/include/skw_h4.h`).

  A stream is the list of the bytes its buffer holds. A
  receiver refuses frames by their type and size; every such
  rule makes a framing.

  Key definitions include:
    * `skwH4Decode`
    * `FrameRule`
    * `FrameRule.framing`
-/

------------------------------------------------------------
-- The Decoder
------------------------------------------------------------

namespace MicaBoards

namespace Bluetooth

/- The packet types. -/
def skwH4CommandPkt : UInt8 := 0x01

def skwH4AclPkt : UInt8 := 0x02

def skwH4ScoPkt : UInt8 := 0x03

def skwH4EventPkt : UInt8 := 0x04

def skwH4IsoPkt : UInt8 := 0x05

def skwH4LogPkt : UInt8 := 0x07

/- SKW_H4_KERNEL_MAX_FRAME -/
def skwH4KernelMaxFrame : Nat := 1028

/- SKW_H4_EVENT_MAX_FRAME -/
def skwH4EventMaxFrame : Nat := 258

/- SKW_H4_COMMAND_MAX_FRAME -/
def skwH4CommandMaxFrame : Nat := 259

/- SKW_H4_SCO_MAX_FRAME -/
def skwH4ScoMaxFrame : Nat := 259

/- SKW_H4_ISO_MAX_FRAME -/
def skwH4IsoMaxFrame : Nat := 256

/- SKW_H4_STREAM_CAPACITY -/
def skwH4StreamCapacity : Nat := 4096

/- enum skw_h4_status -/
inductive SkwH4Status where
| invalid
| incomplete
| complete
deriving DecidableEq, Repr

/- struct skw_h4_frame -/
structure SkwH4Frame where
  type : UInt8
  headerSize : Nat
  payloadSize : Nat
  frameSize : Nat
deriving DecidableEq, Repr

/- The first switch of `skw_h4_decode`. -/
def skwH4HeaderSize (type : UInt8) : Option Nat :=
  if type = skwH4CommandPkt then some 4
  else if type = skwH4AclPkt then some 5
  else if type = skwH4ScoPkt then some 4
  else if type = skwH4EventPkt then some 3
  else if type = skwH4IsoPkt then some 5
  else if type = skwH4LogPkt then some 4
  else none

/- A byte of the buffer. -/
def byteAt (data : List UInt8) (i : Nat) : Nat :=
  (data.getD i 0).toNat

/-
  The second switch, none where it returns
  SKW_H4_INVALID. ISO data keeps 14 bits of its length field;
  the two above are flags, and not both may be set.
-/
def skwH4PayloadSize
    (type : UInt8)
    (data : List UInt8) : Option Nat :=
  if type = skwH4CommandPkt ∨ type = skwH4ScoPkt then
    some (byteAt data 3)
  else if type = skwH4EventPkt then
    some (byteAt data 2)
  else if type = skwH4AclPkt then
    some (byteAt data 3 + 256 * byteAt data 4)
  else if type = skwH4IsoPkt then
    let encoded := byteAt data 3 + 256 * byteAt data 4
    if encoded / 16384 = 3 then none
    else some (encoded % 16384)
  else if type = skwH4LogPkt then
    some (byteAt data 2 + 256 * byteAt data 3)
  else
    none

/- `skw_h4_decode` -/
def skwH4Decode
    (data : List UInt8) : SkwH4Status × SkwH4Frame :=
  match data with
  | [] => (.incomplete, ⟨0, 0, 0, 0⟩)
  | type :: _ =>
    match skwH4HeaderSize type with
    | none => (.invalid, ⟨type, 0, 0, 0⟩)
    | some headerSize =>
      if data.length < headerSize then
        (.incomplete, ⟨type, headerSize, 0, 0⟩)
      else
        match skwH4PayloadSize type data with
        | none => (.invalid, ⟨type, headerSize, 0, 0⟩)
        | some payloadSize =>
          let frameSize := headerSize + payloadSize
          let frame :=
            ⟨type, headerSize, payloadSize, frameSize⟩
          if skwH4StreamCapacity < frameSize then
            (.invalid, frame)
          else if data.length < frameSize then
            (.incomplete, frame)
          else
            (.complete, frame)

/- A log frame, by its first byte. -/
def isLog (frame : List UInt8) : Bool :=
  frame.head? = some skwH4LogPkt

------------------------------------------------------------
-- Headers
------------------------------------------------------------

/- A header has a type and a length field. -/
theorem skwH4HeaderSize_bounds
    {type : UInt8}
    {headerSize : Nat}
    (hHeader : skwH4HeaderSize type = some headerSize) :
    3 ≤ headerSize ∧ headerSize ≤ 5 := by
  unfold skwH4HeaderSize at hHeader
  split_ifs at hHeader <;> cases hHeader <;> omega

/- A byte that is there is that of the longer buffer. -/
theorem byteAt_append
    {xs : List UInt8}
    (ys : List UInt8)
    {i : Nat}
    (hLength : i < xs.length) :
    byteAt (xs ++ ys) i = byteAt xs i := by
  rw [byteAt, byteAt, List.getD_append _ _ _ _ hLength]

/- The payload size is in the header. -/
theorem skwH4PayloadSize_append
    {type : UInt8}
    {headerSize : Nat}
    (hHeader : skwH4HeaderSize type = some headerSize)
    {xs : List UInt8}
    (ys : List UInt8)
    (hLength : headerSize ≤ xs.length) :
    skwH4PayloadSize type (xs ++ ys) =
      skwH4PayloadSize type xs := by
  have hLow := (skwH4HeaderSize_bounds hHeader).1
  have hTwo : byteAt (xs ++ ys) 2 = byteAt xs 2 :=
    byteAt_append ys (by omega)
  by_cases hEvent : type = skwH4EventPkt
  · subst hEvent
    simp [skwH4PayloadSize, hTwo, skwH4EventPkt,
      skwH4CommandPkt, skwH4ScoPkt]
  · have hFour : 4 ≤ headerSize := by
      unfold skwH4HeaderSize at hHeader
      split_ifs at hHeader <;> cases hHeader <;> omega
    have hThree : byteAt (xs ++ ys) 3 = byteAt xs 3 :=
      byteAt_append ys (by omega)
    by_cases hLast : headerSize = 5
    · have hFourth : byteAt (xs ++ ys) 4 = byteAt xs 4 :=
        byteAt_append ys (by omega)
      simp only [skwH4PayloadSize, hTwo, hThree, hFourth]
    · have hAcl : type ≠ skwH4AclPkt := by
        rintro rfl
        exact hLast (Option.some.inj hHeader).symm
      have hIso : type ≠ skwH4IsoPkt := by
        rintro rfl
        exact hLast (Option.some.inj hHeader).symm
      simp only [skwH4PayloadSize, hTwo, hThree, if_neg hAcl,
        if_neg hIso]

------------------------------------------------------------
-- What Decoding Says
------------------------------------------------------------

/- What is known of a frame: nothing, its type, its size. -/
inductive Decoded : List UInt8 → SkwH4Status → SkwH4Frame → Prop
| unknown
    {type : UInt8}
    {rest : List UInt8}
    (hType : skwH4HeaderSize type = none) :
    Decoded (type :: rest) .invalid ⟨type, 0, 0, 0⟩
| header
    {type : UInt8}
    {rest : List UInt8}
    {headerSize : Nat}
    (hType : skwH4HeaderSize type = some headerSize)
    (hShort : rest.length + 1 < headerSize) :
    Decoded (type :: rest) .incomplete ⟨type, headerSize, 0, 0⟩
| flags
    {type : UInt8}
    {rest : List UInt8}
    {headerSize : Nat}
    (hType : skwH4HeaderSize type = some headerSize)
    (hHeader : headerSize ≤ rest.length + 1)
    (hPayload : skwH4PayloadSize type (type :: rest) = none) :
    Decoded (type :: rest) .invalid ⟨type, headerSize, 0, 0⟩
| sized
    {type : UInt8}
    {rest : List UInt8}
    {headerSize payloadSize : Nat}
    {status : SkwH4Status}
    (hType : skwH4HeaderSize type = some headerSize)
    (hHeader : headerSize ≤ rest.length + 1)
    (hPayload :
      skwH4PayloadSize type (type :: rest) = some payloadSize)
    (hStatus :
      status =
        if skwH4StreamCapacity < headerSize + payloadSize then
          .invalid
        else if rest.length + 1 < headerSize + payloadSize then
          .incomplete
        else
          .complete) :
    Decoded (type :: rest) status
      ⟨type, headerSize, payloadSize,
        headerSize + payloadSize⟩

/- The decoder's answer on a buffer that is not empty. -/
theorem decoded_skwH4Decode
    {data : List UInt8}
    (hData : data ≠ []) :
    Decoded data (skwH4Decode data).1
      (skwH4Decode data).2 := by
  cases data with
  | nil => exact absurd rfl hData
  | cons type rest =>
      cases hType : skwH4HeaderSize type with
      | none =>
          simp only [skwH4Decode, hType]
          exact .unknown hType
      | some headerSize =>
          simp only [skwH4Decode, hType, List.length_cons]
          split_ifs with hShort
          · exact .header hType hShort
          · have hHeader := Nat.le_of_not_lt hShort
            cases hPayload :
                skwH4PayloadSize type (type :: rest) with
            | none => exact .flags hType hHeader hPayload
            | some payloadSize =>
                simp only
                split_ifs with hLarge hMore
                · exact
                    .sized hType hHeader hPayload
                      (by rw [if_pos hLarge])
                · exact
                    .sized hType hHeader hPayload
                      (by rw [if_neg hLarge, if_pos hMore])
                · exact
                    .sized hType hHeader hPayload
                      (by rw [if_neg hLarge, if_neg hMore])

/- A complete frame is there, and has at least a header. -/
theorem frameSize_of_complete
    {data : List UInt8}
    (hData : data ≠ [])
    (hComplete : (skwH4Decode data).1 = .complete) :
    3 ≤ (skwH4Decode data).2.frameSize ∧
      (skwH4Decode data).2.frameSize ≤ data.length ∧
      (skwH4Decode data).2.frameSize ≤ skwH4StreamCapacity := by
  have hDecoded := decoded_skwH4Decode hData
  rw [hComplete] at hDecoded
  generalize (skwH4Decode data).2 = frame at hDecoded
  cases hDecoded with
  | sized hType hHeader hPayload hStatus =>
      have hLow := (skwH4HeaderSize_bounds hType).1
      split_ifs at hStatus with hLarge hMore
      simp only [List.length_cons]
      omega

/- An incomplete frame fits the stream with room to spare. -/
theorem length_lt_of_incomplete
    {data : List UInt8}
    (hData : data ≠ [])
    (hIncomplete : (skwH4Decode data).1 = .incomplete) :
    data.length < skwH4StreamCapacity := by
  have hCapacity : skwH4StreamCapacity = 4096 := rfl
  have hDecoded := decoded_skwH4Decode hData
  rw [hIncomplete] at hDecoded
  generalize (skwH4Decode data).2 = frame at hDecoded
  cases hDecoded with
  | header hType hShort =>
      have hHigh := (skwH4HeaderSize_bounds hType).2
      simp only [List.length_cons]
      omega
  | sized hType hHeader hPayload hStatus =>
      split_ifs at hStatus with hLarge hMore
      simp only [List.length_cons]
      omega

/-
  More bytes do not change the type, what is invalid, a size
  that is known, or a frame that is complete.
-/
theorem skwH4Decode_append
    {xs : List UInt8}
    (ys : List UInt8)
    (hData : xs ≠ []) :
    (skwH4Decode (xs ++ ys)).2.type =
        (skwH4Decode xs).2.type ∧
      ((skwH4Decode xs).1 = .invalid →
        (skwH4Decode (xs ++ ys)).1 = .invalid) ∧
      ((skwH4Decode xs).2.frameSize ≠ 0 →
        (skwH4Decode (xs ++ ys)).2 = (skwH4Decode xs).2) ∧
      ((skwH4Decode xs).1 = .complete →
        skwH4Decode (xs ++ ys) = skwH4Decode xs) := by
  have hDecoded := decoded_skwH4Decode hData
  generalize hXs : skwH4Decode xs = decoded at hDecoded
  rcases decoded with ⟨status, frame⟩
  simp only at hDecoded
  cases hDecoded with
  | unknown hType =>
      simp [skwH4Decode, hType]
  | @header type rest headerSize hType hShort =>
      refine ⟨?_, by simp, by simp, by simp⟩
      have hLater :=
        @decoded_skwH4Decode (type :: rest ++ ys) (by simp)
      generalize (skwH4Decode (type :: rest ++ ys)).1 = later
        at hLater
      generalize (skwH4Decode (type :: rest ++ ys)).2 = frame
        at hLater ⊢
      cases hLater <;> rfl
  | @flags type rest headerSize hType hHeader hPayload =>
      have hLonger :
          ¬ (rest ++ ys).length + 1 < headerSize := by
        rw [List.length_append]
        omega
      have hSame :=
        @skwH4PayloadSize_append _ _ hType (type :: rest) ys
          hHeader
      rw [List.cons_append] at hSame
      have hDecode :
          skwH4Decode (type :: rest ++ ys) =
            (.invalid, ⟨type, headerSize, 0, 0⟩) := by
        simp only [skwH4Decode, List.cons_append, hType,
          List.length_cons, hLonger, if_false, hSame, hPayload]
      rw [hDecode]
      simp
  | @sized type rest headerSize payloadSize _ hType hHeader
      hPayload hStatus =>
      have hLonger :
          ¬ (rest ++ ys).length + 1 < headerSize := by
        rw [List.length_append]
        omega
      have hSame :=
        @skwH4PayloadSize_append _ _ hType (type :: rest) ys
          hHeader
      rw [List.cons_append] at hSame
      have hDecode :
          skwH4Decode (type :: rest ++ ys) =
            (if skwH4StreamCapacity <
                headerSize + payloadSize then
              .invalid
            else if (rest ++ ys).length + 1 <
                headerSize + payloadSize then
              .incomplete
            else
              .complete,
            ⟨type, headerSize, payloadSize,
              headerSize + payloadSize⟩) := by
        simp only [skwH4Decode, List.cons_append, hType,
          List.length_cons, hLonger, if_false, hSame, hPayload]
        split_ifs <;> rfl
      rw [hDecode]
      subst hStatus
      refine ⟨rfl, ?_, fun _ => rfl, ?_⟩
      · intro hInvalid
        split_ifs at hInvalid with hLarge hMore
        rw [if_pos hLarge]
      · intro hComplete
        split_ifs at hComplete with hLarge hMore
        have hEnough :
            ¬ (rest ++ ys).length + 1 <
              headerSize + payloadSize := by
          rw [List.length_append]
          omega
        rw [if_neg hLarge, if_neg hEnough, if_neg hLarge,
          if_neg hMore]

/- The decoded type is the first byte. -/
theorem type_skwH4Decode
    {data : List UInt8}
    (hData : data ≠ []) :
    data.head? = some (skwH4Decode data).2.type := by
  have hDecoded := decoded_skwH4Decode hData
  generalize (skwH4Decode data).1 = status at hDecoded
  generalize (skwH4Decode data).2 = frame at hDecoded ⊢
  cases hDecoded <;> rfl

/- A complete frame is decoded from its own bytes. -/
theorem skwH4Decode_take
    {data : List UInt8}
    (hData : data ≠ [])
    (hComplete : (skwH4Decode data).1 = .complete) :
    skwH4Decode (data.take (skwH4Decode data).2.frameSize) =
      skwH4Decode data := by
  have hDecoded := decoded_skwH4Decode hData
  generalize hDecode : skwH4Decode data = decoded at *
  rcases decoded with ⟨status, frame⟩
  simp only at hDecoded hComplete ⊢
  subst hComplete
  cases hDecoded with
  | @sized type rest headerSize payloadSize _ hType hHeader
      hPayload hStatus =>
      split_ifs at hStatus with hLarge hMore
      have hLow := (skwH4HeaderSize_bounds hType).1
      have hTake :
          (type :: rest).take (headerSize + payloadSize) =
            type :: rest.take (headerSize + payloadSize - 1) :=
        List.take_cons (by omega)
      have hLength :
          (rest.take (headerSize + payloadSize - 1)).length + 1 =
            headerSize + payloadSize := by
        rw [List.length_take]
        omega
      have hSame :=
        @skwH4PayloadSize_append _ _ hType
          (type :: rest.take (headerSize + payloadSize - 1))
          ((type :: rest).drop (headerSize + payloadSize))
          (by rw [List.length_cons]; omega)
      rw [← hTake, List.take_append_drop, hPayload, hTake]
        at hSame
      simp only [hTake, skwH4Decode, hType, List.length_cons,
        hLength, ← hSame, if_neg hLarge, Nat.lt_irrefl,
        if_false,
        show ¬ headerSize + payloadSize < headerSize by omega]

------------------------------------------------------------
-- Rules
------------------------------------------------------------

/-
  The frames a receiver refuses. One it refuses before it
  knows the size it refuses whatever the size is.
-/
structure FrameRule where
  refuses : SkwH4Frame → Bool
  early : ∀ {frame later},
    frame.type = later.type →
    frame.frameSize = 0 →
    refuses frame = true →
    refuses later = true

namespace FrameRule

variable (rule : FrameRule)

/- What a receiver with the rule does with its buffer. -/
def verdict (data : List UInt8) : Verdict :=
  if data = [] then .incomplete
  else if (skwH4Decode data).1 = .invalid ∨
      rule.refuses (skwH4Decode data).2 = true then
    .invalid
  else if (skwH4Decode data).1 = .incomplete then
    .incomplete
  else
    .complete (skwH4Decode data).2.frameSize

@[simp] theorem verdict_nil :
    rule.verdict [] = .incomplete := rfl

/- A verdict is complete on a complete frame not refused. -/
theorem verdict_eq_complete_iff
    {data : List UInt8}
    {size : Nat} :
    rule.verdict data = .complete size ↔
      data ≠ [] ∧
        (skwH4Decode data).1 = .complete ∧
        rule.refuses (skwH4Decode data).2 = false ∧
        (skwH4Decode data).2.frameSize = size := by
  unfold verdict
  cases hStatus : (skwH4Decode data).1 <;>
    split_ifs <;> simp_all

/- A verdict is invalid on what is invalid or refused. -/
theorem verdict_eq_invalid_iff
    {data : List UInt8} :
    rule.verdict data = .invalid ↔
      data ≠ [] ∧
        ((skwH4Decode data).1 = .invalid ∨
          rule.refuses (skwH4Decode data).2 = true) := by
  unfold verdict
  split_ifs <;> simp_all

/- A verdict waits for more of a frame not refused. -/
theorem verdict_eq_incomplete_iff
    {data : List UInt8} :
    rule.verdict data = .incomplete ↔
      data = [] ∨
        ((skwH4Decode data).1 = .incomplete ∧
          rule.refuses (skwH4Decode data).2 = false) := by
  unfold verdict
  cases hStatus : (skwH4Decode data).1 <;>
    split_ifs <;> simp_all

/- What a rule refuses it refuses with more bytes. -/
theorem refuses_append
    {xs : List UInt8}
    (ys : List UInt8)
    (hData : xs ≠ [])
    (hRefuses : rule.refuses (skwH4Decode xs).2 = true) :
    rule.refuses (skwH4Decode (xs ++ ys)).2 = true := by
  rcases skwH4Decode_append ys hData with
    ⟨hType, _, hSized, _⟩
  by_cases hSize : (skwH4Decode xs).2.frameSize = 0
  · exact rule.early hType.symm hSize hRefuses
  · rwa [hSized hSize]

/- The framing of a rule. -/
def framing : Framing UInt8 where
  verdict := rule.verdict
  bounds := by
    intro xs size hVerdict
    rcases rule.verdict_eq_complete_iff.mp hVerdict with
      ⟨hData, hComplete, _, rfl⟩
    have hBounds := frameSize_of_complete hData hComplete
    omega
  append_complete := by
    intro xs size ys hVerdict
    rcases rule.verdict_eq_complete_iff.mp hVerdict with
      ⟨hData, hComplete, hTaken, hSize⟩
    have hSame :=
      (skwH4Decode_append ys hData).2.2.2 hComplete
    apply rule.verdict_eq_complete_iff.mpr
    rw [hSame]
    exact ⟨by simp [hData], hComplete, hTaken, hSize⟩
  append_invalid := by
    intro xs ys hVerdict
    rcases rule.verdict_eq_invalid_iff.mp hVerdict with
      ⟨hData, hInvalid | hRefuses⟩
    · exact rule.verdict_eq_invalid_iff.mpr
        ⟨by simp [hData],
          Or.inl
            ((skwH4Decode_append ys hData).2.1 hInvalid)⟩
    · exact rule.verdict_eq_invalid_iff.mpr
        ⟨by simp [hData],
          Or.inr (rule.refuses_append ys hData hRefuses)⟩
  take_complete := by
    intro xs size hVerdict
    rcases rule.verdict_eq_complete_iff.mp hVerdict with
      ⟨hData, hComplete, hTaken, rfl⟩
    have hBounds := frameSize_of_complete hData hComplete
    apply rule.verdict_eq_complete_iff.mpr
    rw [skwH4Decode_take hData hComplete]
    refine ⟨?_, hComplete, hTaken, rfl⟩
    rw [ne_eq, List.take_eq_nil_iff]
    rintro (hZero | hNil)
    · omega
    · exact hData hNil

/- A verdict that is incomplete leaves room in the stream. -/
theorem length_lt_of_verdict
    {data : List UInt8}
    (hVerdict : rule.verdict data = .incomplete) :
    data.length < skwH4StreamCapacity := by
  by_cases hData : data = []
  · subst hData
    decide
  · unfold verdict at hVerdict
    split_ifs at hVerdict with hInvalid hIncomplete
    exact length_lt_of_incomplete hData hIncomplete

/- A whole frame the receiver takes. -/
def Admissible (frame : List UInt8) : Prop :=
  rule.verdict frame = .complete frame.length

/-
  An admissible frame has its length, and a type and size that
  are not refused.
-/
theorem admissible_iff
    {frame : List UInt8} :
    rule.Admissible frame ↔
      frame ≠ [] ∧
        (skwH4Decode frame).1 = .complete ∧
        rule.refuses (skwH4Decode frame).2 = false ∧
        (skwH4Decode frame).2.frameSize = frame.length :=
  rule.verdict_eq_complete_iff

/- The frame at the front of a stream is admissible. -/
theorem admissible_take
    {stream : List UInt8}
    {size : Nat}
    (hVerdict : rule.verdict stream = .complete size) :
    rule.Admissible (stream.take size) := by
  have hSize := (rule.framing.bounds hVerdict).2
  have hTake := rule.framing.take_complete hVerdict
  rw [Admissible, List.length_take, Nat.min_eq_left hSize]
  exact hTake

/-
  Bytes with a header whose frame is taken are completed by
  any payload.
-/
theorem admissible_fill
    {type : UInt8}
    {rest : List UInt8}
    {headerSize payloadSize : Nat}
    (hType : skwH4HeaderSize type = some headerSize)
    (hHeader : headerSize ≤ rest.length + 1)
    (hPayload :
      skwH4PayloadSize type (type :: rest) = some payloadSize)
    (hCapacity :
      headerSize + payloadSize ≤ skwH4StreamCapacity)
    (hLength : rest.length + 1 ≤ headerSize + payloadSize)
    (hTaken :
      rule.refuses
          ⟨type, headerSize, payloadSize,
            headerSize + payloadSize⟩ =
        false) :
    rule.Admissible
      (type :: rest ++
        List.replicate
          (headerSize + payloadSize - (rest.length + 1))
          0) := by
  have hSame :=
    @skwH4PayloadSize_append _ _ hType (type :: rest)
      (List.replicate
        (headerSize + payloadSize - (rest.length + 1)) 0)
      hHeader
  have hWhole :
      (type :: rest ++
          List.replicate
            (headerSize + payloadSize - (rest.length + 1))
            0).length =
        headerSize + payloadSize := by
    simp only [List.length_append, List.length_cons,
      List.length_replicate]
    omega
  have hDecode :
      skwH4Decode
          (type :: rest ++
            List.replicate
              (headerSize + payloadSize - (rest.length + 1))
              0) =
        (.complete,
          ⟨type, headerSize, payloadSize,
            headerSize + payloadSize⟩) := by
    have hLonger :
        ¬ headerSize + payloadSize < headerSize := by omega
    simp only [List.cons_append] at hSame hWhole ⊢
    simp only [skwH4Decode, hType, hWhole, hLonger, if_false,
      hSame, hPayload, Nat.not_lt.mpr hCapacity,
      Nat.lt_irrefl]
  rw [Admissible, hWhole]
  apply rule.verdict_eq_complete_iff.mpr
  rw [hDecode]
  exact ⟨by simp, rfl, hTaken, rfl⟩

end FrameRule

end Bluetooth

end MicaBoards
