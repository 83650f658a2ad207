import CDosX86.X86Stack
import Mathlib.Tactic.IntervalCases

namespace X86

-- A segment as the processor reads it from its descriptor of eight bytes; the width is left open
-- so that the descriptor can be given by its fields, the last byte first.
structure Segment where
  base : Dword
  limit : BitVec 20
  access : BitVec 8
  flags : BitVec 4
  deriving DecidableEq

def Segment.ofBits {n : Nat} (d : BitVec n) : Segment where
  base := d.extractLsb' 56 8 ++ d.extractLsb' 32 8 ++ d.extractLsb' 16 16
  limit := d.extractLsb' 48 4 ++ d.extractLsb' 0 16
  access := d.extractLsb' 40 8
  flags := d.extractLsb' 52 4

theorem Segment.ofBits_append (baseHigh granularity access baseMiddle : BitVec 8)
    (baseLow limitLow : BitVec 16) :
    ofBits (baseHigh ++ granularity ++ access ++ baseMiddle ++ baseLow ++ limitLow) =
      { base := baseHigh ++ baseMiddle ++ baseLow
        limit := granularity.extractLsb' 0 4 ++ limitLow
        access := access
        flags := granularity.extractLsb' 4 4 } := by
  simp (disch := omega) only [ofBits, BitVec.extractLsb'_append_eq_of_add_le,
    BitVec.extractLsb'_append_eq_of_le]
  simp

-- The last offset inside: with the granularity flag the limit counts pages of 4 KiB.
def Segment.last (s : Segment) : Nat :=
  if s.flags.getLsbD 3 then s.limit.toNat * 4096 + 4095 else s.limit.toNat

def Segment.linear (s : Segment) (offset : Dword) : Option Dword :=
  if offset.toNat ≤ s.last then some (s.base + offset) else none

def Segment.present (s : Segment) : Bool := s.access.getLsbD 7

def Segment.executable (s : Segment) : Bool := s.access.getLsbD 4 && s.access.getLsbD 3

structure GateDesc where
  offset : Dword
  sel : Selector
  attributes : BitVec 8
  deriving DecidableEq

def GateDesc.ofBits {n : Nat} (d : BitVec n) : GateDesc where
  offset := d.extractLsb' 48 16 ++ d.extractLsb' 0 16
  sel := d.extractLsb' 16 16
  attributes := d.extractLsb' 40 8

theorem GateDesc.ofBits_append (offsetHigh sel offsetLow : BitVec 16)
    (attributes zero : BitVec 8) :
    ofBits (offsetHigh ++ attributes ++ zero ++ sel ++ offsetLow) =
      { offset := offsetHigh ++ offsetLow, sel := sel, attributes := attributes } := by
  simp (disch := omega) only [ofBits, BitVec.extractLsb'_append_eq_of_add_le,
    BitVec.extractLsb'_append_eq_of_le]
  simp

def GateDesc.present (g : GateDesc) : Bool := g.attributes.getLsbD 7

-- A 32-bit interrupt gate; of a trap gate the type is 0xF.
def GateDesc.interruptGate (g : GateDesc) : Bool := g.attributes.extractLsb' 0 5 = 0x0E

theorem Segment.linear_flat {s : Segment} (hbase : s.base = 0) (hlimit : s.limit = 0xFFFFF)
    (hflags : s.flags.getLsbD 3 = true) (offset : Dword) : s.linear offset = some offset := by
  have hlt := offset.isLt
  have hlast : s.last = 0xFFFFF * 4096 + 4095 := by
    rw [last, hflags, if_pos rfl, hlimit]
    rfl
  have hsum : (0 : Dword) + offset = offset := BitVec.zero_add offset
  rw [linear, hlast, if_pos (by omega), hbase, hsum]

-- Where the processor goes on at an interrupt, when its gate and the segment of it allow.
def entryPoint (segment : Nat → Segment) (gate : Nat → GateDesc) (vector : Nat) : Option Dword :=
  let g := gate vector
  let s := segment (g.sel.toNat / 8)
  if g.present && g.interruptGate && s.present && s.executable then s.linear g.offset else none

theorem entryPoint_absent {segment : Nat → Segment} {gate : Nat → GateDesc} {vector : Nat}
    (h : (gate vector).present = false) : entryPoint segment gate vector = none := by
  rw [entryPoint, h, Bool.false_and, Bool.false_and, Bool.false_and]
  exact if_neg Bool.false_ne_true

theorem entryPoint_open {segment : Nat → Segment} {gate : Nat → GateDesc} {vector : Nat}
    {g : GateDesc} {s : Segment} (hgate : gate vector = g) (hseg : segment (g.sel.toNat / 8) = s)
    (hopen : (g.present && g.interruptGate && s.present && s.executable) = true) :
    entryPoint segment gate vector = s.linear g.offset := by
  rw [entryPoint, hgate, hseg]
  exact if_pos hopen

end X86
