import CDosX86.StackDiscipline
import Mathlib.Logic.Relation

namespace CDosX86

open Mos6502

inductive CpuEvent : Machine → Machine → Prop
  | step (m : Machine) : CpuEvent m (stepM m)
  | irq (m : Machine) : CpuEvent m (irqM m)

def CpuReachable (m : Machine) : Prop :=
  ∃ m₀ startPc, Relation.ReflTransGen CpuEvent (resetM startPc m₀) m

theorem arch_irqM (m : Machine) : arch (irqM m) = irq (arch m) := sim_irq m

theorem status_step {m : Machine} (h : StatusOk m.cpu.p) : StatusOk (stepM m).cpu.p := by
  have hs : StatusOk (step (arch m)).p :=
    statusOk_stable.keeps_step (fun _ _ _ => statusOk_spStable) h
  rwa [← arch_stepM] at hs

theorem status_irq {m : Machine} (h : StatusOk m.cpu.p) : StatusOk (irqM m).cpu.p := by
  have hs : StatusOk (irq (arch m)).p := statusOk_stable.keeps_irq statusOk_spStable h
  rwa [← arch_irqM] at hs

theorem CpuReachable.status {m : Machine} (h : CpuReachable m) : StatusOk m.cpu.p := by
  obtain ⟨m₀, startPc, hrun⟩ := h
  induction hrun with
  | refl =>
      change StatusOk (flagU ||| flagI)
      exact ⟨by decide, by decide⟩
  | tail _ hstep ih =>
      cases hstep with
      | step => exact status_step ih
      | irq => exact status_irq ih

-- `s` is the interrupted state and `t` the state in which the handler's RTI is fetched.
structure HandlerRun (s t : Machine) : Prop where
  run : Relation.ReflTransGen CpuEvent (irqM s) t
  rti : executes (arch t) = some .rti
  sp : t.cpu.sp = (irqM s).cpu.sp
  frame : ∀ k < 3, t.mem.ram (stackPage (t.cpu.sp + 1 + BitVec.ofNat 8 k)) =
    (irqM s).mem.ram (stackPage (t.cpu.sp + 1 + BitVec.ofNat 8 k))
  a : t.cpu.a = s.cpu.a
  x : t.cpu.x = s.cpu.x
  y : t.cpu.y = s.cpu.y

theorem irq_transparent {s t : Machine} (hs : CpuReachable s) :
    (flag .i s.cpu.p = false → s.cpu.halted = false → HandlerRun s t →
      (stepM t).cpu.a = s.cpu.a ∧ (stepM t).cpu.x = s.cpu.x ∧ (stepM t).cpu.y = s.cpu.y ∧
        (stepM t).cpu.sp = s.cpu.sp ∧ (stepM t).cpu.pc = s.cpu.pc ∧
        (stepM t).cpu.p = s.cpu.p) ∧
      (flag .i s.cpu.p = true ∨ s.cpu.halted = true → irqM s = s) := by
  refine ⟨fun hi hrun h => ?_, irq_ignored⟩
  have hsp : (arch t).sp = (irq (arch s)).sp := by
    rw [← arch_irqM]
    exact h.sp
  have hkept : LiveKept 3 (irq (arch s)) (arch t) := by
    rw [LiveKept, ← hsp, ← arch_irqM]
    exact h.frame
  have hback := irq_rti_restores (s := arch s) hs.status hi hrun h.rti hsp hkept
  rw [← arch_stepM] at hback
  obtain ⟨hsp', hpc, hp, ha, hx, hy⟩ := hback
  exact ⟨ha.trans h.a, hx.trans h.x, hy.trans h.y, hsp', hpc, hp⟩

def beforeCli : Machine :=
  ((Machine.zero.load 0x0800 [0x58, 0xEA]).load 0x0900 [0x40]).load 0xFFFE [0x00, 0x09]

def interrupted : Machine := stepM (resetM 0x0800 beforeCli)

theorem irq_transparent_at_interrupted :
    (stepM (irqM interrupted)).cpu.pc = interrupted.cpu.pc ∧
      (stepM (irqM interrupted)).cpu.p = interrupted.cpu.p := by
  have hreach : CpuReachable interrupted := ⟨beforeCli, 0x0800, .single (.step _)⟩
  have hrun : HandlerRun interrupted (irqM interrupted) :=
    { run := .refl, rti := rfl, sp := rfl, frame := fun _ _ => rfl, a := rfl, x := rfl, y := rfl }
  have h := (irq_transparent hreach).1 (by decide) rfl hrun
  exact h.2.2.2.2

end CDosX86
