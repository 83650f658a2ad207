import CDosX86.Mos6502.Exec

namespace Mos6502

def page (w : Word) : Byte := w.extractLsb' 8 8

def Mode.readCycles : Mode → Nat
  | .imm => 2
  | .zp => 3
  | .zpx | .zpy | .abs | .absx | .absy => 4
  | .indy => 5
  | .indx => 6

-- The chip spends the cycle of a crossed page on every indexed store.
def Mode.storeCycles : Mode → Nat
  | .absx | .absy => 5
  | .indy => 6
  | m => m.readCycles

def Mode.modifyCycles (m : Mode) : Nat := m.storeCycles + 2

-- The cycles of the NMOS chip, those apart that depend on the state.
def Instr.baseCycles : Instr → Nat
  | .load _ m | .logic _ m | .adc m | .sbc m | .compare _ m | .bit m => m.readCycles
  | .store _ m => m.storeCycles
  | .shift _ m | .inc m | .dec m => m.modifyCycles
  | .shiftA _ | .incr _ | .decr _ | .transfer _ _ | .txs | .tsx | .setFlag _ _ | .nop => 2
  | .branch _ _ => 2
  | .pha | .php | .jmp => 3
  | .pla | .plp => 4
  | .jmpInd => 5
  | .jsr | .rts | .rti => 6
  | .brk => 7

def Instr.reads : Instr → Option Mode
  | .load _ m | .logic _ m | .adc m | .sbc m | .compare _ m | .bit m => some m
  | _ => none

section

variable {δ : Type} [Bus δ]

-- The address of a mode before its index register is added to it.
def indexBase : Mode → Exec δ Word
  | .absx | .absy => fetchWord
  | .indy => do
      let ptr ← fetch
      let lo ← readBus (zeroPage ptr)
      let hi ← readBus (zeroPage (ptr + 1))
      return hi ++ lo
  | m => ea m

def Crosses (m : Mode) (s : Cpu δ) : Prop := page (ea m s).1 ≠ page (indexBase m s).1

instance (m : Mode) (s : Cpu δ) : Decidable (Crosses m s) := inferInstanceAs (Decidable (_ ≠ _))

def branchTarget (s : Cpu δ) : Word := (fetch s).2.pc + (fetch s).1.signExtend 16

-- `s` is the state behind the opcode.
def Instr.takenCycle (s : Cpu δ) : Instr → Nat
  | .branch f on => if flag f s.p = on then 1 else 0
  | _ => 0

def Instr.pageCycle (s : Cpu δ) : Instr → Nat
  | .branch f on => if flag f s.p = on ∧ page (branchTarget s) ≠ page (fetch s).2.pc then 1 else 0
  | i => match i.reads with
    | some m => if Crosses m s then 1 else 0
    | none => 0

def Instr.nmosCycles (s : Cpu δ) (i : Instr) : Nat :=
  i.baseCycles + i.takenCycle s + i.pageCycle s

theorem Instr.pageCycle_le (s : Cpu δ) (i : Instr) : i.pageCycle s ≤ 1 := by
  unfold pageCycle
  repeat' split
  all_goals omega

end

end Mos6502
