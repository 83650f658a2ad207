import CDosX86.CycleCount
import CDosX86.Mos6502.Frame

namespace CDosX86

open StateMonad Mos6502

-- The state of the processor behind the opcode, where its instruction starts.
def atOperand (m : Machine) : Cpu C64Mem := (fetch (arch m)).2

theorem armCycles_base (i : Instr) (s : Cpu C64Mem) :
    armCycles (BitVec.ofNat 64 i.baseCycles) s.p i =
      BitVec.ofNat 64 (i.baseCycles + i.takenCycle s) := by
  cases i with
  | branch f on =>
      rw [armCycles, Instr.takenCycle]
      split <;> rfl
  | _ => rfl

theorem cycles_executes {m : Machine} {i : Instr} (h : executes (arch m) = some i) :
    (stepM m).cpu.cycles =
      m.cpu.cycles + BitVec.ofNat 64 (i.baseCycles + i.takenCycle (atOperand m)) := by
  rw [executes] at h
  split at h
  · cases h
  · next hrun =>
    have hop : decode (m.mem.read m.cpu.pc).1 = some i := h
    have hswitch := switch_eq (m.mem.read m.cpu.pc).1
    rw [hop] at hswitch
    rw [stepM_running (Bool.eq_false_iff.mpr hrun), ← armCycles_base]
    exact (congrArg (fun f : M Unit => (f _).2.cpu.cycles) hswitch).trans (costs_armOf _ i _).2

theorem eq_add_cycles_iff (c : BitVec 64) {n : Nat} (hn : n ≤ 1) :
    c = c + BitVec.ofNat 64 n ↔ n = 0 := by
  have hc := c.isLt
  rw [← BitVec.toNat_inj, BitVec.toNat_add, BitVec.toNat_ofNat]
  omega

theorem cycles_but_for_pages {m : Machine} {i : Instr} (h : executes (arch m) = some i) :
    (stepM m).cpu.cycles =
        m.cpu.cycles + BitVec.ofNat 64 (i.baseCycles + i.takenCycle (atOperand m)) ∧
      ((stepM m).cpu.cycles = m.cpu.cycles + BitVec.ofNat 64 (i.nmosCycles (atOperand m)) ↔
        i.pageCycle (atOperand m) = 0) := by
  refine ⟨cycles_executes h, ?_⟩
  rw [cycles_executes h, Instr.nmosCycles, BitVec.ofNat_add _ (i.pageCycle (atOperand m)),
    ← BitVec.add_assoc]
  exact eq_add_cycles_iff _ (i.pageCycle_le (atOperand m))

-- LDA $10FF,X with X = 1 reads from the next page.
def crossingLoad : Machine :=
  let m := Machine.zero.load 0 [0xBD, 0xFF, 0x10]
  { m with cpu := { m.cpu with x := 1 } }

theorem cycles_but_for_pages_crossing :
    (stepM crossingLoad).cpu.cycles = crossingLoad.cpu.cycles +
        BitVec.ofNat 64 ((Instr.load .a .absx).baseCycles +
          (Instr.load .a .absx).takenCycle (atOperand crossingLoad)) ∧
      ((stepM crossingLoad).cpu.cycles = crossingLoad.cpu.cycles +
          BitVec.ofNat 64 ((Instr.load .a .absx).nmosCycles (atOperand crossingLoad)) ↔
        (Instr.load .a .absx).pageCycle (atOperand crossingLoad) = 0) :=
  cycles_but_for_pages (by decide)

theorem crossing_load_short :
    executes (arch crossingLoad) = some (.load .a .absx) ∧
      (Instr.load .a .absx).nmosCycles (atOperand crossingLoad) = 5 ∧
      (stepM crossingLoad).cpu.cycles = crossingLoad.cpu.cycles + 4 ∧
      (stepM crossingLoad).cpu.cycles ≠ crossingLoad.cpu.cycles +
        BitVec.ofNat 64 ((Instr.load .a .absx).nmosCycles (atOperand crossingLoad)) := by
  have hcycles := cycles_executes (m := crossingLoad) (i := .load .a .absx) (by decide)
  rw [hcycles]
  exact ⟨by decide, by decide, by decide, by decide⟩

end CDosX86
