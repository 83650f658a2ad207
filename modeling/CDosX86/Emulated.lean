import CDosX86.ReferenceCpu
import CDosX86.TraceRing

namespace CDosX86

open Mos6502

-- A machine without the console that its screen is mirrored on.
structure Emulated where
  cpu : Cpu6502
  bus : C64Bus
  trace : Trace

def Machine.emulated (m : Machine) : Emulated where
  cpu := m.cpu
  bus := busView m.mem
  trace := m.trace

namespace Machine

variable {m m' : Machine}

theorem emulated_of_archView (harch : archView m = archView m')
    (hcycles : m.cpu.cycles = m'.cpu.cycles) (htrace : m.trace = m'.trace) :
    m.emulated = m'.emulated := by
  simp only [archView, Cpu.map, arch, Cpu.mk.injEq] at harch
  obtain ⟨ha, hx, hy, hsp, hpc, hp, hhalted, hbus⟩ := harch
  have hcpu : m.cpu = m'.cpu := by
    cases hm : m.cpu
    cases hm' : m'.cpu
    simp_all
  rw [emulated, emulated, hcpu, hbus, htrace]

variable (h : m.emulated = m'.emulated)

include h

theorem cpu_eq : m.cpu = m'.cpu := congrArg Emulated.cpu h

theorem bus_eq : busView m.mem = busView m'.mem := congrArg Emulated.bus h

theorem trace_eq : m.trace = m'.trace := congrArg Emulated.trace h

theorem archView_eq : archView m = archView m' := by
  rw [archView, archView, arch, arch, Cpu.map, Cpu.map, cpu_eq h, bus_eq h]

theorem read_eq (addr : Word) : (m.mem.read addr).1 = (m'.mem.read addr).1 := by
  have hm := congrArg Prod.fst (busView_read addr m.mem)
  have hm' := congrArg Prod.fst (busView_read addr m'.mem)
  rw [bus_eq h] at hm
  exact hm.symm.trans hm'

theorem emulated_stepM : (stepM m).emulated = (stepM m').emulated := by
  have hread : (m.mem.read m.cpu.pc).1 = (m'.mem.read m'.cpu.pc).1 := by
    rw [read_eq h, cpu_eq h]
  refine emulated_of_archView ?_ (cycles_stepM_congr (cpu_eq h) (read_eq h _)) ?_
  · rw [archView_step, archView_step, archView_eq h]
  · cases hrun : m.cpu.halted with
    | true => rw [trace_halted hrun, trace_halted (cpu_eq h ▸ hrun), trace_eq h]
    | false =>
        have hop : (cpu6502Read m.cpu.pc m).1 = (cpu6502Read m'.cpu.pc m').1 := hread
        rw [trace_running hrun, trace_running (cpu_eq h ▸ hrun), hop, trace_eq h, cpu_eq h]

theorem emulated_irqM : (irqM m).emulated = (irqM m').emulated := by
  have harch (k : Machine) : archView (irqM k) = irq (archView k) := by
    have hsim : arch (irqM k) = irq (arch k) := sim_irq k
    rw [archView, hsim]
    exact busHom.map_irq (arch k)
  refine emulated_of_archView ?_ ?_ ?_
  · rw [harch, harch, archView_eq h]
  · rw [cycles_irqM, cycles_irqM, cpu_eq h]
  · have htrace (k : Machine) : (irqM k).trace = k.trace := keepsTrace_irq _ k rfl
    rw [htrace, htrace, trace_eq h]

theorem emulated_resetM (startPc : Word) :
    (resetM startPc m).emulated = (resetM startPc m').emulated := by
  change Emulated.mk _ (busView m.mem) m.trace = Emulated.mk _ (busView m'.mem) m'.trace
  rw [bus_eq h, trace_eq h]
  rfl

theorem emulated_write (addr : Word) (val : Byte) :
    (cpu6502Write addr val m).2.emulated = (cpu6502Write addr val m').2.emulated := by
  have hbus (k : Machine) : busView (cpu6502Write addr val k).2.mem =
      Bus.write addr val (busView k.mem) := busHom.map_write addr val k.mem
  rw [emulated, emulated, hbus, hbus, bus_eq h]
  change Emulated.mk m.cpu _ m.trace = Emulated.mk m'.cpu _ m'.trace
  rw [cpu_eq h, trace_eq h]

theorem emulated_writes (ws : List (Word × Byte)) :
    (ws.foldl (fun m w => (cpu6502Write w.1 w.2 m).2) m).emulated =
      (ws.foldl (fun m w => (cpu6502Write w.1 w.2 m).2) m').emulated := by
  induction ws generalizing m m' with
  | nil => exact h
  | cons w ws ih => exact ih (emulated_write h w.1 w.2)

end Machine

namespace C64

def emulated (k : C64) : Emulated := k.machine.emulated

variable {k k' : C64} (h : k.emulated = k'.emulated)

include h

theorem emulated_injectKey (c : Byte) : (k.injectKey c).emulated = (k'.injectKey c).emulated := by
  have hram : k.mem.ram = k'.mem.ram := congrArg C64Bus.ram (Machine.bus_eq h)
  have hwrites : k.keyWrites c = k'.keyWrites c := by rw [keyWrites, keyWrites, hram]
  rw [emulated, emulated, machine_injectKey, machine_injectKey, hwrites]
  exact Machine.emulated_writes h _

theorem emulated_call (c : Call) : (k.call c).emulated = (k'.call c).emulated := by
  cases c with
  | step => exact Machine.emulated_stepM h
  | irq => exact Machine.emulated_irqM h
  | reset startPc => exact Machine.emulated_resetM h startPc
  | key c => exact emulated_injectKey h c
  | write addr val => exact Machine.emulated_write h addr val

end C64

end CDosX86
