import Mathlib.Data.List.Basic

-- The 8259A interrupt controller in its fully nested, edge-triggered mode, and two of them in
-- cascade. Rotating priorities, polling and spurious requests are left out.
namespace I8259

abbrev Byte := BitVec 8

inductive Setup where
  | icw2 (single : Bool) (icw4 : Bool)
  | icw3 (icw4 : Bool)
  | icw4
  | done
  deriving DecidableEq, Repr

structure Chip where
  setup : Setup
  imr : Byte
  irr : Byte
  isr : Byte
  base : Byte
  cascade : Byte
  mode8086 : Bool
  autoEoi : Bool

-- The highest priority is that of line 0.
def first (b : Byte) : Option Nat := (List.range 8).find? fun i => b.getLsbD i

def line (i : Nat) : Byte := BitVec.twoPow 8 i

namespace Chip

def icw1 (v : Byte) (c : Chip) : Chip :=
  { c with
    setup := .icw2 (v.getLsbD 1) (v.getLsbD 0)
    imr := 0
    irr := 0
    isr := 0
    mode8086 := false
    autoEoi := false }

def endOfInterrupt (c : Chip) : Chip :=
  match first c.isr with
  | some i => { c with isr := c.isr &&& ~~~line i }
  | none => c

def ocw2 (v : Byte) (c : Chip) : Chip :=
  if v >>> 5 = 1 then c.endOfInterrupt
  else if v >>> 5 = 3 then { c with isr := c.isr &&& ~~~line (v &&& 7).toNat }
  else c

def command (v : Byte) (c : Chip) : Chip :=
  if v.getLsbD 4 then c.icw1 v
  else if v.getLsbD 3 then c
  else c.ocw2 v

def data (v : Byte) (c : Chip) : Chip :=
  match c.setup with
  | .icw2 single icw4 =>
      { c with
        base := v &&& 0xF8
        setup := if single then (if icw4 then .icw4 else .done) else .icw3 icw4 }
  | .icw3 icw4 => { c with cascade := v, setup := if icw4 then .icw4 else .done }
  | .icw4 => { c with mode8086 := v.getLsbD 0, autoEoi := v.getLsbD 1, setup := .done }
  | .done => { c with imr := v }

def raise (i : Nat) (c : Chip) : Chip := { c with irr := c.irr ||| line i }

-- The line whose request the chip passes on: no line of its priority or of a higher one may be in
-- service.
def pending (c : Chip) : Option Nat :=
  if c.setup = .done then
    (first (c.irr &&& ~~~c.imr)).filter fun i => (first c.isr).all fun j => i < j
  else none

def serve (i : Nat) (c : Chip) : Chip :=
  { c with
    irr := c.irr &&& ~~~line i
    isr := if c.autoEoi then c.isr else c.isr ||| line i }

def vector (i : Nat) (c : Chip) : Byte := c.base ||| BitVec.ofNat 8 i

end Chip

theorem first_eq_some {b : Byte} {i : Nat} :
    first b = some i ↔ i < 8 ∧ b.getLsbD i = true ∧ ∀ j < i, b.getLsbD j = false := by
  rw [first, List.find?_range_eq_some]
  simp only [Bool.not_eq_eq_eq_not, Bool.not_true, List.mem_range]
  tauto

theorem first_eq_none {b : Byte} : first b = none ↔ b = 0 := by
  constructor
  · intro h
    rw [first, List.find?_range_eq_none] at h
    apply BitVec.eq_of_getLsbD_eq
    intro i hi
    simpa using h i hi
  · rintro rfl
    rfl

theorem getLsbD_line (i j : Nat) : (line i).getLsbD j = (decide (i < 8) && decide (i = j)) := by
  rw [line, BitVec.getLsbD_twoPow]

-- No interrupt of the priority of `i` or of a higher one is in service.
def Above (i : Nat) (isr : Byte) : Prop := ∀ j ≤ i, isr.getLsbD j = false

theorem first_serve {isr : Byte} {i : Nat} (hi : i < 8) (h : Above i isr) :
    first (isr ||| line i) = some i := by
  refine first_eq_some.mpr ⟨hi, by simp [getLsbD_line, hi], fun j hj => ?_⟩
  have hne : ¬ i = j := by omega
  simp [getLsbD_line, h j (by omega), hne]

theorem serve_clear {isr : Byte} {i : Nat} (h : Above i isr) :
    (isr ||| line i) &&& ~~~line i = isr := by
  apply BitVec.eq_of_getLsbD_eq
  intro j hj
  have hbit := h i (Nat.le_refl i)
  simp only [BitVec.getLsbD_and, BitVec.getLsbD_or, BitVec.getLsbD_not, getLsbD_line, hj]
  rcases eq_or_ne i j with rfl | hne
  · simpa [hj] using hbit
  · simp [hne]

namespace Chip

variable {c : Chip} {i : Nat}

theorem pending_eq_some (h : c.pending = some i) :
    i < 8 ∧ c.irr.getLsbD i = true ∧ c.imr.getLsbD i = false ∧ Above i c.isr := by
  rw [pending] at h
  split_ifs at h
  obtain ⟨hfirst, habove⟩ := Option.filter_eq_some_iff.mp h
  obtain ⟨hi, hbit, -⟩ := first_eq_some.mp hfirst
  simp only [BitVec.getLsbD_and, BitVec.getLsbD_not, Bool.and_eq_true, hi, decide_true,
    Bool.true_and, Bool.not_eq_eq_eq_not, Bool.not_true] at hbit
  refine ⟨hi, hbit.1, hbit.2, ?_⟩
  intro j hj
  cases hisr : first c.isr with
  | none =>
      rw [first_eq_none.mp hisr]
      exact BitVec.getLsbD_zero
  | some k =>
      rw [hisr] at habove
      have hk : i < k := by simpa using habove
      exact (first_eq_some.mp hisr).2.2 j (by omega)

theorem pending_of_idle (hsetup : c.setup = .done) (hisr : c.isr = 0) (hi : i < 8)
    (hirr : c.irr.getLsbD i = true) (himr : c.imr.getLsbD i = false)
    (hlow : ∀ j < i, c.imr.getLsbD j = true) : c.pending = some i := by
  have hfirst : first (c.irr &&& ~~~c.imr) = some i := by
    refine first_eq_some.mpr ⟨hi, ?_, fun j hj => ?_⟩
    · rw [BitVec.getLsbD_and, BitVec.getLsbD_not, hirr, himr]
      simpa using hi
    · rw [BitVec.getLsbD_and, BitVec.getLsbD_not, hlow j hj]
      simp
  rw [pending, if_pos hsetup, hfirst, hisr]
  rfl

-- An interrupt that is taken goes before all that are being served, so the end of an interrupt
-- that names none is the end of the one taken last.
theorem isr_endOfInterrupt (hauto : c.autoEoi = false) (h : c.pending = some i) {d : Chip}
    (hd : d.isr = (c.serve i).isr) : d.endOfInterrupt.isr = c.isr := by
  obtain ⟨hi, -, -, habove⟩ := pending_eq_some h
  rw [serve, hauto] at hd
  rw [endOfInterrupt, hd, if_neg Bool.false_ne_true, first_serve hi habove]
  exact serve_clear habove

theorem imr_endOfInterrupt (c : Chip) : c.endOfInterrupt.imr = c.imr := by
  rw [endOfInterrupt]
  split <;> rfl

theorem endOfInterrupt_idle (h : c.isr = 0) : c.endOfInterrupt = c := by
  rw [endOfInterrupt, first_eq_none.mpr h]

end Chip

-- The slave's output is the request on line 2 of the master.
structure Pair where
  master : Chip
  slave : Chip

def slaveLine : Nat := 2

namespace Pair

def masterInput (p : Pair) : Chip :=
  { p.master with
    irr := if p.slave.pending.isSome then p.master.irr ||| line slaveLine
      else p.master.irr &&& ~~~line slaveLine }

-- What the controllers put on the bus when the processor acknowledges an interrupt: on a line that
-- the master's ICW3 names, the slave answers if it has been told that number.
def acknowledge (p : Pair) : Option (Byte × Pair) :=
  p.masterInput.pending.map fun i =>
    let p := { p with master := p.masterInput.serve i }
    if p.master.cascade.getLsbD i then
      match p.slave.pending with
      | some j =>
          if (p.slave.cascade &&& 7).toNat = i then
            (p.slave.vector j, { p with slave := p.slave.serve j })
          else (0xFF, p)
      | none => (0xFF, p)
    else (p.master.vector i, p)

def endOfInterrupt (irq : Nat) (p : Pair) : Pair where
  master := p.master.endOfInterrupt
  slave := if irq < 8 then p.slave else p.slave.endOfInterrupt

def raise (irq : Nat) (p : Pair) : Pair :=
  if irq < 8 then { p with master := p.master.raise irq }
  else { p with slave := p.slave.raise (irq - 8) }

@[simp] theorem master_isr_raise (irq : Nat) (p : Pair) :
    (p.raise irq).master.isr = p.master.isr := by
  rw [raise]
  split <;> rfl

@[simp] theorem slave_isr_raise (irq : Nat) (p : Pair) :
    (p.raise irq).slave.isr = p.slave.isr := by
  rw [raise]
  split <;> rfl

end Pair

end I8259
