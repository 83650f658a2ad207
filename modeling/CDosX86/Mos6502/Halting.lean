import CDosX86.Mos6502.Frame

namespace Mos6502

variable {δ : Type} [Bus δ]

theorem operand_halted (md : Mode) (s : Cpu δ) : (operand md s).2.halted = s.halted := by
  cases md <;> rfl

theorem ea_halted (md : Mode) (s : Cpu δ) : (ea md s).2.halted = s.halted := by
  cases md <;> rfl

omit [Bus δ] in
theorem assign_halted (r : Reg) (v : Byte) (s : Cpu δ) : (assign r v s).2.halted = s.halted := by
  cases r <;> rfl

theorem exec_halted {i : Instr} (hi : i ≠ .brk) (s : Cpu δ) :
    (exec i s).2.halted = s.halted := by
  cases i with
  | brk => exact absurd rfl hi
  | load r md => exact (assign_halted r _ _).trans (operand_halted md s)
  | logic o md => exact (assign_halted .a _ _).trans (operand_halted md s)
  | adc md | sbc md | compare _ md | bit md => exact operand_halted md s
  | store _ md | shift _ md | inc md | dec md => exact ea_halted md s
  | incr r | decr r => exact assign_halted r _ s
  | transfer src dst => exact assign_halted dst _ s
  | _ => rfl

theorem step_halts {s : Cpu δ} (hrun : s.halted = false) (hhalt : (step s).halted = true) :
    step s = { s with
      pc := s.pc + 1
      halted := true
      mem := (Bus.read s.pc s.mem).2 } := by
  have hne : ¬ s.halted = true := by simp [hrun]
  rw [step, if_neg hne] at hhalt ⊢
  change (execOp (fetch s).1 (fetch s).2).2.halted = true at hhalt
  change (execOp (fetch s).1 (fetch s).2).2 = _
  rw [execOp] at hhalt ⊢
  cases hop : decode (fetch s).1 with
  | none => rfl
  | some i =>
      rw [hop] at hhalt
      by_cases hi : i = .brk
      · rw [hi]
        rfl
      · have hkept : (exec i (fetch s).2).2.halted = false := (exec_halted hi _).trans hrun
        exact absurd (hkept.symm.trans hhalt) (by decide)

theorem irq_halted (s : Cpu δ) : (irq s).halted = s.halted := by
  rw [irq]
  split <;> rfl

end Mos6502
