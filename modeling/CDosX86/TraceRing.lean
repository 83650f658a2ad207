import CDosX86.C64Calls
import CDosX86.C64Commands
import CDosX86.CycleCount
import CDosX86.RingBuffer

namespace CDosX86

open StateMonad Mos6502

def KeepsTrace {α : Type} (f : M α) : Prop := ∀ t, Keeps (fun m : Machine => m.trace = t) f

theorem keepsTrace_switch (op : Byte) : KeepsTrace (cpu6502Switch op) := by
  intro t m ht
  obtain ⟨cost, hcost⟩ := switch_cost op
  exact (hcost m).1.trans ht

theorem keepsTrace_irq : KeepsTrace cpu6502Irq := by
  intro t m ht
  by_cases h : flag .i m.cpu.p = true ∨ m.cpu.halted = true
  · rw [irq_ignored h]
    exact ht
  · rw [irq_taken h]
    exact ht

instance traceLen_neZero : NeZero 64 := ⟨by decide⟩

def Trace.ring (t : Trace) : RingBuffer 64 (Word × Byte) where
  slot i := (t.pc i, t.op i)
  next := t.idx

theorem Trace.dump_eq (t : Trace) (count : Nat) : traceDumpOrdered t count = t.ring.dump count := rfl

theorem ring_traceFetch (pc : Word) (op sp : Byte) (t : Trace) :
    (traceFetch pc op sp t).ring = t.ring.push (pc, op) := by
  have hslot : (traceFetch pc op sp t).ring.slot = (t.ring.push (pc, op)).slot := by
    funext i
    change (Function.update t.pc t.idx pc i, Function.update t.op t.idx op i) =
      Function.update t.ring.slot t.idx (pc, op) i
    rcases eq_or_ne i t.idx with rfl | hi
    · simp only [Function.update_self]
    · simp only [Function.update_of_ne hi]
      rfl
  rw [RingBuffer.mk.injEq]
  exact ⟨hslot, rfl⟩

theorem trace_halted {m : Machine} (h : m.cpu.halted = true) : (stepM m).trace = m.trace :=
  congrArg Machine.trace (stepM_halted h)

theorem trace_running {m : Machine} (h : m.cpu.halted = false) :
    (stepM m).trace =
      traceFetch m.cpu.pc (cpu6502Read m.cpu.pc m).1 m.cpu.sp m.trace := by
  rw [stepM_running h]
  exact keepsTrace_switch _ _ _ rfl

def fetched (m : Machine) : List (Word × Byte) :=
  if m.cpu.halted then [] else [(m.cpu.pc, (cpu6502Read m.cpu.pc m).1)]

namespace C64

def logged (k : C64) : Call → List (Word × Byte)
  | .step => fetched k.machine
  | _ => []

def executionLog (k : C64) (cs : List Call) : List (Word × Byte) := gather logged k cs

def TraceHolds (log : List (Word × Byte)) (k : C64) : Prop :=
  k.machine.trace.ring.Records (0, 0) log

theorem TraceHolds.of_trace {log : List (Word × Byte)} {k k' : C64}
    (h : k'.machine.trace = k.machine.trace) (hk : k.TraceHolds log) :
    k'.TraceHolds (log ++ []) := by
  rwa [List.append_nil, TraceHolds, h]

theorem TraceHolds.call {log : List (Word × Byte)} {k : C64} (hk : k.TraceHolds log) (c : Call) :
    (k.call c).TraceHolds (log ++ k.logged c) := by
  cases c with
  | step =>
      change TraceHolds (log ++ fetched k.machine) k.step
      cases h : k.machine.cpu.halted with
      | true =>
          rw [fetched, if_pos h]
          exact hk.of_trace (trace_halted h)
      | false =>
          rw [fetched, if_neg (by simp [h]), TraceHolds, step, trace_running h, ring_traceFetch]
          exact hk.push _
  | irq => exact hk.of_trace (keepsTrace_irq _ k.machine rfl)
  | reset startPc => exact hk.of_trace rfl
  | key c =>
      exact hk.of_trace
        (keep_injectKey (I := fun m => m.trace = k.machine.trace) (fun _ _ _ hm => hm) c rfl)
  | write addr val => exact hk.of_trace rfl

end C64

structure Trace.ZeroInit (t : Trace) : Prop where
  pc : t.pc = fun _ => 0
  op : t.op = fun _ => 0
  idx : t.idx = 0

theorem trace_dump_refines_log (k : C64) (cs : List Call) (count : Nat)
    (hzero : k.machine.trace.ZeroInit) (hcount : count ≤ traceLen) :
    traceDumpOrdered (k.calls cs).machine.trace count =
      ((k.executionLog cs).rtake count).leftpad count (0, 0) := by
  have hstart : k.TraceHolds [] := .of_const fun i => by
    simp [Trace.ring, hzero.pc, hzero.op]
  rw [Trace.dump_eq]
  exact C64.gather_keeps (fun _ _ c h => h.call c) cs hstart count hcount

theorem trace_dump_refines_log_at_zero :
    traceDumpOrdered (C64.zero.calls [.reset 0xFFFF, .step]).machine.trace 2 = [(0, 0), (0xFFFF, 0)] :=
  trace_dump_refines_log C64.zero [.reset 0xFFFF, .step] 2 ⟨rfl, rfl, rfl⟩ (by decide)

end CDosX86
