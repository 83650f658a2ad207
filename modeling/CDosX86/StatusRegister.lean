import CDosX86.C64Calls
import CDosX86.IrqTransparency

namespace CDosX86

open Mos6502

theorem test_flagU (p : Byte) : (p &&& flagU ≠ 0) ↔ flag .u p = true := by
  rw [← bne_iff_ne]
  exact Bool.eq_iff_iff.mp (test_bit p 5 (by decide))

theorem test_flagB (p : Byte) : (p &&& flagB ≠ 0) ↔ flag .b p = true := by
  rw [← bne_iff_ne]
  exact Bool.eq_iff_iff.mp (test_bit p 4 (by decide))

theorem status_reset (startPc : Word) (m : Machine) : StatusOk (resetM startPc m).cpu.p := by
  have hreset : StatusOk (flagU ||| flagI) := ⟨by decide, by decide⟩
  exact hreset

theorem C64.status_call (c : Call) (k : C64) (h : StatusOk k.cpu.p) : StatusOk (k.call c).cpu.p := by
  cases c with
  | step => exact status_step h
  | irq => exact status_irq h
  | reset startPc => exact status_reset startPc k.machine
  | key c =>
      exact keep_injectKey (I := fun m => StatusOk m.cpu.p) (fun _ _ _ hm => hm) c h
  | write addr val => exact h

-- The status is the last of the three bytes that an accepted interrupt pushes.
def irqStatusSlot (m : Machine) : Byte := (irqM m).mem.ram (stackPage (m.cpu.sp - 2))

def phpStatusSlot (m : Machine) : Byte := (stepM m).mem.ram (stackPage m.cpu.sp)

theorem php_pushes {m : Machine} (hrun : m.cpu.halted = false)
    (hop : (cpu6502Read m.cpu.pc m).1 = 0x08) :
    phpStatusSlot m = putFlag .u true (putFlag .b true m.cpu.p) := by
  have hrun' : ¬ (arch m).halted = true := by simp [arch, hrun]
  have hdecode : decode (Bus.read (arch m).pc (arch m).mem).1 = some .php := by
    have : (Bus.read (arch m).pc (arch m).mem).1 = 0x08 := hop
    rw [this]
    rfl
  obtain ⟨-, hstack⟩ := step_php (s := arch m) ((if_neg hrun').trans hdecode)
  rw [← arch_stepM] at hstack
  have hslot := congrFun hstack m.cpu.sp
  rwa [show (arch m).sp = m.cpu.sp from rfl, Function.update_self] at hslot

theorem irq_pushes_status {m : Machine} (hi : m.cpu.p &&& flagI = 0)
    (hrun : m.cpu.halted = false) :
    irqStatusSlot m = putFlag .u true (putFlag .b false m.cpu.p) := by
  have hclear : flag .i (arch m).p = false := by
    rw [← Bool.not_eq_true]
    exact fun h => (test_flagI m.cpu.p).mpr h hi
  obtain ⟨hsp, hframe⟩ := irq_pushes (s := arch m) hclear hrun
  have htop : stackAt (irq (arch m)) ((irq (arch m)).sp + 1) =
      putFlag .u true (putFlag .b false m.cpu.p) := hframe.1
  have hslot : (arch m).sp - 1 - 1 - 1 + 1 = m.cpu.sp - 2 := by
    change m.cpu.sp - 1 - 1 - 1 + 1 = m.cpu.sp - 2
    bv_omega
  rwa [hsp, hslot, ← arch_irqM] at htop

structure StatusWellFormed (m : Machine) : Prop where
  status : m.cpu.p &&& flagU ≠ 0 ∧ m.cpu.p &&& flagB = 0
  php : m.cpu.halted = false → (cpu6502Read m.cpu.pc m).1 = 0x08 →
    phpStatusSlot m &&& flagU ≠ 0 ∧ phpStatusSlot m &&& flagB ≠ 0
  irq : m.cpu.p &&& flagI = 0 → m.cpu.halted = false →
    irqStatusSlot m &&& flagU ≠ 0 ∧ irqStatusSlot m &&& flagB = 0

theorem StatusWellFormed.of_status {m : Machine} (h : StatusOk m.cpu.p) : StatusWellFormed m := by
  have hb (p : Byte) : p &&& flagB = 0 ↔ flag .b p = false := by
    rw [← Bool.not_eq_true, ← test_flagB, not_not]
  refine ⟨⟨(test_flagU _).mpr h.1, (hb _).mpr h.2⟩, ?_, ?_⟩
  · intro hrun hop
    rw [php_pushes hrun hop, test_flagU, test_flagB]
    simp
  · intro hi hrun
    rw [irq_pushes_status hi hrun, test_flagU, hb]
    simp

theorem status_well_formed (startPc : Word) (k : C64) (cs : List Call) :
    StatusWellFormed ((k.reset startPc).calls cs).machine :=
  .of_status (C64.calls_keep C64.status_call cs (status_reset startPc k.machine))

end CDosX86
