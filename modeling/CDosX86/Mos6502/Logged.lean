import CDosX86.Mos6502.BusHom
import CDosX86.Mos6502.Frame

namespace Mos6502

structure Logged (δ : Type) where
  mem : δ
  log : List (Word × Byte)

variable {δ : Type} [Bus δ]

instance : Bus (Logged δ) where
  read addr m := ((Bus.read addr m.mem).1, { m with mem := (Bus.read addr m.mem).2 })
  write addr v m := { mem := Bus.write addr v m.mem, log := m.log ++ [(addr, v)] }

namespace Logged

def start (m : δ) : Logged δ := { mem := m, log := [] }

def forget : BusHom (Logged δ) δ where
  toFun m := m.mem
  map_read _ _ := rfl
  map_write _ _ _ := rfl

end Logged

def stepWrites (s : Cpu δ) : List (Word × Byte) := (step (s.map Logged.start)).mem.log

def irqWrites (s : Cpu δ) : List (Word × Byte) := (irq (s.map Logged.start)).mem.log

theorem mem_step_start (s : Cpu δ) : (step (s.map Logged.start)).mem.mem = (step s).mem :=
  congrArg Cpu.mem (Logged.forget.map_step (s.map Logged.start))

theorem mem_irq_start (s : Cpu δ) : (irq (s.map Logged.start)).mem.mem = (irq s).mem :=
  congrArg Cpu.mem (Logged.forget.map_irq (s.map Logged.start))

structure LogInvariant (J : List (Word × Byte) → δ → Prop) : Prop where
  read : ∀ log addr m, J log m → J log (Bus.read addr m).2
  write : ∀ log addr v m, J log m → J (log ++ [(addr, v)]) (Bus.write addr v m)

namespace LogInvariant

variable {J : List (Word × Byte) → δ → Prop} (hJ : LogInvariant J)

include hJ

theorem stable (before : List (Word × Byte)) :
    Stable fun s : Cpu (Logged δ) => J (before ++ s.mem.log) s.mem.mem where
  pc _ _ h := h
  put _ r _ h := by cases r <;> exact h
  flags _ _ _ _ _ h := h
  pulled _ _ h := h
  halt _ h := h
  read s addr h := hJ.read _ addr _ h
  write s addr v h := by
    change J (before ++ (s.mem.log ++ [(addr, v)])) (Bus.write addr v s.mem.mem)
    rw [← List.append_assoc]
    exact hJ.write _ addr v _ h

theorem step {before : List (Word × Byte)} {s : Cpu δ} (h : J before s.mem) :
    J (before ++ stepWrites s) (step s).mem := by
  have hstart : J (before ++ (s.map Logged.start).mem.log) (s.map Logged.start).mem.mem := by
    rwa [show (s.map Logged.start).mem.log = [] from rfl, List.append_nil]
  have hstep := (hJ.stable before).keeps_step (fun _ _ _ _ _ ht => ht) hstart
  rwa [mem_step_start] at hstep

theorem irq {before : List (Word × Byte)} {s : Cpu δ} (h : J before s.mem) :
    J (before ++ irqWrites s) (irq s).mem := by
  have hstart : J (before ++ (s.map Logged.start).mem.log) (s.map Logged.start).mem.mem := by
    rwa [show (s.map Logged.start).mem.log = [] from rfl, List.append_nil]
  have hirq := (hJ.stable before).keeps_irq (fun _ _ ht => ht) hstart
  rwa [mem_irq_start] at hirq

end LogInvariant

end Mos6502
