import CDosX86.StackDiscipline
import CDosX86.Mos6502.Decimal

namespace CDosX86

open Mos6502

def arithOpcodes : List (Byte × Arith × Mode) :=
  [(0x69, .adc, .imm), (0x65, .adc, .zp), (0x75, .adc, .zpx), (0x6D, .adc, .abs),
   (0x7D, .adc, .absx), (0x79, .adc, .absy), (0x61, .adc, .indx), (0x71, .adc, .indy),
   (0xE9, .sbc, .imm), (0xE5, .sbc, .zp), (0xF5, .sbc, .zpx), (0xED, .sbc, .abs),
   (0xFD, .sbc, .absx), (0xF9, .sbc, .absy), (0xE1, .sbc, .indx), (0xF1, .sbc, .indy)]

theorem arithOpcodes_decode {op : Byte} {o : Arith} {md : Mode} (h : (op, o, md) ∈ arithOpcodes) :
    decode op = some (o.instr md) := by
  simp only [arithOpcodes, List.mem_cons, Prod.mk.injEq, List.not_mem_nil, or_false] at h
  rcases h with h | h | h | h | h | h | h | h | h | h | h | h | h | h | h | h
  all_goals
    obtain ⟨rfl, rfl, rfl⟩ := h
    rfl

def operandByte (md : Mode) (m : Machine) : Byte := (readAt (addrOf md) (fetch8 m).2).1

theorem operandByte_eq (md : Mode) (m : Machine) :
    operandByte md m = (operand md (fetch (arch m)).2).1 :=
  (sim_operandOf md (fetch8 m).2).1

structure DecimalStep (o : Arith) (md : Mode) (m : Machine) : Prop where
  running : m.cpu.halted = false
  fetched : ((cpu6502Read m.cpu.pc m).1, o, md) ∈ arithOpcodes
  decimal : m.cpu.p &&& flagD ≠ 0
  accumulator : IsBcd m.cpu.a
  operand : IsBcd (operandByte md m)

theorem DecimalStep.executes {o : Arith} {md : Mode} {m : Machine} (h : DecimalStep o md m) :
    executes (arch m) = some (o.instr md) := by
  have hrun : ¬ (arch m).halted = true := by
    have := h.running
    simp [arch, this]
  exact (if_neg hrun).trans (arithOpcodes_decode h.fetched)

def ArithInDecimal (o : Arith) (md : Mode) (m : Machine) : Prop :=
  o.Decimal m.cpu.a (operandByte md m) (flag .c m.cpu.p)
    (stepM m).cpu.a (flag .c (stepM m).cpu.p)

instance (o : Arith) (md : Mode) (m : Machine) : Decidable (ArithInDecimal o md m) :=
  inferInstanceAs (Decidable (o.Decimal ..))

theorem decimal_mode_exact (o : Arith) (md : Mode) (m : Machine) (h : DecimalStep o md m) :
    ArithInDecimal o md m ↔ o.DigitsStay m.cpu.a (operandByte md m) (flag .c m.cpu.p) := by
  have hm : IsBcd (Mos6502.operand md (fetch (arch m)).2).1 := operandByte_eq md m ▸ h.operand
  have hstep := step_decimal_iff h.executes h.accumulator hm
  rw [← arch_stepM, ← operandByte_eq] at hstep
  exact hstep

def adding (a v : Byte) : Machine :=
  stepM (stepM (resetM 0x0800 (Machine.zero.load 0x0800 [0xF8, 0xA9, a, 0x69, v])))

theorem decimal_mode_exact_adding_12_34 :
    ArithInDecimal .adc .imm (adding 0x12 0x34) ↔ Arith.adc.DigitsStay 0x12 0x34 false :=
  decimal_mode_exact .adc .imm (adding 0x12 0x34)
    { running := rfl
      fetched := by decide
      decimal := by decide
      accumulator := by decide
      operand := by decide }

theorem decimal_mode_adding_09_01 :
    ¬ ∀ (o : Arith) (md : Mode) (m : Machine), DecimalStep o md m → ArithInDecimal o md m := by
  intro h
  have hsum := h .adc .imm (adding 0x09 0x01)
    { running := rfl
      fetched := by decide
      decimal := by decide
      accumulator := by decide
      operand := by decide }
  have hten : (stepM (adding 0x09 0x01)).cpu.a = 0x0A := rfl
  exact absurd (hten.symm.trans hsum.1) (by decide)

end CDosX86
