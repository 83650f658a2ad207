import CDosX86.Cpu6502Refines
import CDosX86.Mos6502.Stack

namespace CDosX86

open Mos6502

theorem stackPage_plain (b : Byte) : stackPage b ≠ vicRaster ∧ stackPage b ≠ cia1Prb := by
  constructor
  · unfold stackPage vicRaster
    bv_omega
  · unfold stackPage cia1Prb
    bv_omega

theorem stackPage_inj (b c : Byte) : stackPage b = stackPage c ↔ b = c := by
  unfold stackPage
  constructor
  · intro h
    bv_omega
  · rintro rfl
    rfl

instance : StackBus C64Mem where
  stack m b := m.ram (stackPage b)
  read_stack b m := C64Mem.read_plain (stackPage_plain b).1 (stackPage_plain b).2 m
  write_stack b v m := by
    funext c
    change (m.write (stackPage b) v).ram (stackPage c) = _
    rw [C64Mem.write_ram]
    by_cases h : c = b
    · subst h
      simp
    · rw [Function.update_of_ne h, Function.update_of_ne (by rwa [ne_eq, stackPage_inj])]
  stack_read addr m := by
    change (fun b => (m.read addr).2.ram (stackPage b)) = _
    rw [C64Mem.read_ram]

theorem arch_stepM (m : Machine) : arch (stepM m) = step (arch m) := sim_step m

def Returns (c : Matched Machine) : Prop :=
  match c.opener with
  | .call => (stepM c.closing).cpu.pc = c.before.cpu.pc + 3
  | .saveA => (stepM c.closing).cpu.a = c.before.cpu.a
  | .saveP => (stepM c.closing).cpu.p = (c.before.cpu.p ||| flagU) &&& ~~~flagB

theorem restores_status (p : Byte) :
    putFlag .u true (putFlag .b false p) = (p ||| flagU) &&& ~~~flagB := by
  apply ext_flag
  intro f
  change _ = flag f (putFlag .b false (putFlag .u true p))
  simp only [flag_putFlag]
  cases f <;> rfl

theorem well_nested_run {m m' : Machine} {ps : List (Matched Machine)}
    (h : Nested stepM arch 0 m ps m') :
    m'.cpu.sp = m.cpu.sp ∧ ∀ c ∈ ps, Returns c := by
  obtain ⟨-, hsp, hps⟩ := h.sound arch_stepM [] rfl trivial
  refine ⟨hsp, fun c hc => ?_⟩
  have hrestored := hps c hc
  rcases c with ⟨_ | _ | _, before, closing⟩
  · exact hrestored
  · exact hrestored
  · exact hrestored.trans (restores_status _)

def callAtTop : Machine :=
  let m := (Machine.zero.load 0xFFFE [0x20, 0x00, 0x09]).load 0x0900 [0x60]
  { m with cpu := { m.cpu with pc := 0xFFFE, sp := 0x00 } }

theorem call_at_top_nested :
    Nested stepM arch 0 callAtTop [⟨.call, callAtTop, stepM callAtTop⟩]
      (stepM (stepM callAtTop)) := by
  change Nested stepM arch 0 callAtTop (_ :: ([] ++ [])) _
  exact Nested.bracket .call rfl (by decide) (Nested.done _ _) rfl (Nested.done _ _)

theorem well_nested_run_call_at_top :
    (stepM (stepM callAtTop)).cpu.sp = callAtTop.cpu.sp ∧
      ∀ c ∈ [⟨.call, callAtTop, stepM callAtTop⟩], Returns c :=
  well_nested_run call_at_top_nested

end CDosX86
