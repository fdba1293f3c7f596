import Mathlib.Algebra.Group.Nat.Defs
import Mathlib.Data.List.Basic

/-
  A serial line of three wires: a strobe that is low while
  bytes are sent, a clock whose rising edges take one bit of
  the data wire each, the lowest bit of a byte first.

  Main declarations:
    * `bitsOf`, `ofBits`
    * `Receiver`
    * `receiveAll_clockBits`
-/

------------------------------------------------------------
-- Bits
------------------------------------------------------------

namespace MicaBoards

namespace ThreeWire

/- The bits of a number, the lowest first. -/
def bitsOf : Nat → Nat → List Bool
| 0, _ => []
| n + 1, value => (value % 2 = 1) :: bitsOf n (value / 2)

/- The number of these bits. -/
def ofBits : List Bool → Nat
| [] => 0
| bit :: bits => (if bit then 1 else 0) + 2 * ofBits bits

@[simp] theorem length_bitsOf (n value : Nat) :
    (bitsOf n value).length = n := by
  induction n generalizing value with
  | zero => rfl
  | succ n ih => rw [bitsOf, List.length_cons, ih]

theorem ofBits_bitsOf (n value : Nat) :
    ofBits (bitsOf n value) = value % 2 ^ n := by
  induction n generalizing value with
  | zero =>
      rw [bitsOf, ofBits, Nat.pow_zero, Nat.mod_one]
  | succ n ih =>
      have hSplit : value % 2 ^ (n + 1) =
          value % 2 + 2 * (value / 2 % 2 ^ n) := by
        rw [Nat.pow_succ, Nat.mul_comm, Nat.mod_mul]
      rw [bitsOf, ofBits, ih, hSplit]
      rcases Nat.mod_two_eq_zero_or_one value with hBit | hBit
      · simp [hBit]
      · simp [hBit]

------------------------------------------------------------
-- The Receiver
------------------------------------------------------------

inductive Line
| strobe
| clock
| data
deriving DecidableEq, Repr

/- A wire is set to a level. -/
structure LineEvent where
  line : Line
  level : Bool
deriving DecidableEq, Repr

/- What a receiver makes of the wires. -/
inductive Frame
| start
| byte (value : UInt8)
| stop
deriving DecidableEq, Repr

/- The levels of the wires, and the bits of a byte so far. -/
structure Receiver where
  strobe : Bool
  clock : Bool
  data : Bool
  bits : List Bool
deriving DecidableEq, Repr

namespace Receiver

def receive
    (receiver : Receiver)
    (event : LineEvent) : Receiver × List Frame :=
  match event.line with
  | .strobe =>
      if event.level = receiver.strobe then
        (receiver, [])
      else if event.level then
        ({ receiver with strobe := true, bits := [] }, [.stop])
      else
        ({ receiver with strobe := false, bits := [] },
          [.start])
  | .data => ({ receiver with data := event.level }, [])
  | .clock =>
      if event.level ∧ !receiver.clock ∧ !receiver.strobe then
        let bits := receiver.bits ++ [receiver.data]
        if bits.length = 8 then
          ({ receiver with clock := true, bits := [] },
            [.byte (UInt8.ofNat (ofBits bits))])
        else
          ({ receiver with clock := true, bits := bits }, [])
      else
        ({ receiver with clock := event.level }, [])

def receiveAll
    (receiver : Receiver) :
    List LineEvent → Receiver × List Frame
| [] => (receiver, [])
| event :: events =>
    let (next, frames) := receiver.receive event
    let (last, rest) := next.receiveAll events
    (last, frames ++ rest)

theorem receiveAll_append
    (receiver : Receiver)
    (front behind : List LineEvent) :
    receiver.receiveAll (front ++ behind) =
      (((receiver.receiveAll front).1.receiveAll behind).1,
        (receiver.receiveAll front).2 ++
          ((receiver.receiveAll front).1.receiveAll
            behind).2) := by
  induction front generalizing receiver with
  | nil => rfl
  | cons event front ih =>
      simp only [List.cons_append, receiveAll, ih,
        List.append_assoc]

end Receiver

------------------------------------------------------------
-- Sending
------------------------------------------------------------

/- A bit is put on the data wire while the clock is low. -/
def clockBit (bit : Bool) : List LineEvent :=
  [⟨.clock, false⟩, ⟨.data, bit⟩, ⟨.clock, true⟩]

theorem receiveAll_clockBit
    {receiver : Receiver}
    (hStrobe : receiver.strobe = false)
    (bit : Bool) :
    receiver.receiveAll (clockBit bit) =
      if receiver.bits.length = 7 then
        (⟨false, true, bit, []⟩,
          [.byte (UInt8.ofNat
            (ofBits (receiver.bits ++ [bit])))])
      else
        (⟨false, true, bit, receiver.bits ++ [bit]⟩, []) := by
  by_cases hFull : receiver.bits.length = 7
  · simp [clockBit, Receiver.receiveAll, Receiver.receive,
      hStrobe, hFull]
  · simp [clockBit, Receiver.receiveAll, Receiver.receive,
      hStrobe, hFull]

/-
  The bits that are missing of a byte, once clocked in, make
  it the next byte.
-/
theorem receiveAll_clockBits
    {receiver : Receiver}
    {bits : List Bool}
    (hStrobe : receiver.strobe = false)
    (hNonempty : bits ≠ [])
    (hLength : receiver.bits.length + bits.length = 8) :
    (receiver.receiveAll (bits.flatMap clockBit)).2 =
        [.byte (UInt8.ofNat (ofBits (receiver.bits ++ bits)))] ∧
      (receiver.receiveAll (bits.flatMap clockBit)).1.strobe =
        false ∧
      (receiver.receiveAll (bits.flatMap clockBit)).1.bits =
        [] := by
  induction bits generalizing receiver with
  | nil => exact absurd rfl hNonempty
  | cons bit bits ih =>
      rw [List.flatMap_cons, Receiver.receiveAll_append,
        receiveAll_clockBit hStrobe]
      rw [List.length_cons] at hLength
      cases bits with
      | nil =>
          have hFull : receiver.bits.length = 7 := by
            simpa using hLength
          rw [if_pos hFull]
          exact ⟨rfl, rfl, rfl⟩
      | cons next bits =>
          have hRoom : ¬ receiver.bits.length = 7 := by
            rw [List.length_cons] at hLength
            omega
          have hRest :=
            @ih ⟨false, true, bit, receiver.bits ++ [bit]⟩ rfl
              (by simp) (by simp at hLength ⊢; omega)
          rw [if_neg hRoom]
          simpa using hRest

/- A byte clocked in bit by bit is the next byte. -/
theorem receiveAll_byte
    {receiver : Receiver}
    (hStrobe : receiver.strobe = false)
    (hBits : receiver.bits = [])
    (value : UInt8) :
    (receiver.receiveAll
        ((bitsOf 8 value.toNat).flatMap clockBit)).2 =
        [.byte value] ∧
      (receiver.receiveAll
        ((bitsOf 8 value.toNat).flatMap clockBit)).1.strobe =
        false ∧
      (receiver.receiveAll
        ((bitsOf 8 value.toNat).flatMap clockBit)).1.bits =
        [] := by
  have hNonempty : bitsOf 8 value.toNat ≠ [] := by
    simp [bitsOf]
  have hByte :=
    receiveAll_clockBits hStrobe hNonempty
      (by rw [hBits, length_bitsOf]; rfl)
  have hValue : UInt8.ofNat (value.toNat % 2 ^ 8) = value := by
    rw [Nat.mod_eq_of_lt value.toNat_lt, UInt8.ofNat_toNat]
  rwa [hBits, List.nil_append, ofBits_bitsOf, hValue] at hByte

end ThreeWire

end MicaBoards
