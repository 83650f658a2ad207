import CDosX86.Cpu6502Arith
import CDosX86.Mos6502.Timing

namespace CDosX86

open StateMonad Mos6502

def addrImm : M Word := do
  let pc := (← get).cpu.pc
  modifyCpu fun c => { c with pc := c.pc + 1 }
  return pc

def addrOf : Mode → M Word
  | .imm => addrImm
  | .zp => addrZp
  | .zpx => addrZpx
  | .zpy => addrZpy
  | .abs => addrAbs
  | .absx => addrAbsx
  | .absy => addrAbsy
  | .indx => addrIndx
  | .indy => addrIndy

def regOf : Reg → M Byte
  | .a => regA
  | .x => regX
  | .y => regY

def loadOf : Reg → M Byte → BitVec 64 → M Unit
  | .a => loadA
  | .x => loadX
  | .y => loadY

def shiftOf : Shift → Byte → M Byte
  | .asl => doAsl
  | .lsr => doLsr
  | .rol => doRol
  | .ror => doRor

def maskOf (f : Flag) : Byte := BitVec.twoPow 8 f.bit

def armOf (n : BitVec 64) : Instr → M Unit
  | .load r m => loadOf r (readAt (addrOf m)) n
  | .store r m => store (addrOf m) (regOf r) n
  | .logic .ora m => oraA (readAt (addrOf m)) n
  | .logic .and m => andA (readAt (addrOf m)) n
  | .logic .eor m => eorA (readAt (addrOf m)) n
  | .adc m => adc (readAt (addrOf m)) n
  | .sbc m => sbc (readAt (addrOf m)) n
  | .compare r m => compare (regOf r) (readAt (addrOf m)) n
  | .bit m => bit (readAt (addrOf m)) n
  | .shiftA o => shiftA (shiftOf o) n
  | .shift o m => shiftMem (shiftOf o) (addrOf m) n
  | .inc m => incMem (addrOf m) n
  | .dec m => decMem (addrOf m) n
  | .incr r => loadOf r (do return (← regOf r) + 1) n
  | .decr r => loadOf r (do return (← regOf r) - 1) n
  | .transfer src dst => loadOf dst (regOf src) n
  | .txs => txs
  | .tsx => loadX regSp n
  | .pha => pha
  | .pla => loadA pop8 n
  | .php => php
  | .plp => plp
  | .setFlag f true => do orFlag (maskOf f); addCycles n
  | .setFlag f false => do clearFlag (maskOf f); addCycles n
  | .branch f true => branchSet (maskOf f)
  | .branch f false => branchClear (maskOf f)
  | .jmp => jmpAbs
  | .jmpInd => jmpInd
  | .jsr => jsr
  | .rts => rts
  | .rti => rti
  | .brk => brk
  | .nop => addCycles n

theorem switch_eq (op : Byte) :
    cpu6502Switch op = match decode op with
      | some i => armOf (BitVec.ofNat 64 i.baseCycles) i
      | none => putHalted := by
  obtain ⟨k, hk, rfl⟩ : ∃ k, k < 256 ∧ op = BitVec.ofNat 8 k := ⟨op.toNat, op.isLt, by simp⟩
  interval_cases k
  all_goals rfl

theorem switch_factors (op : Byte) :
    ∃ n, cpu6502Switch op = match decode op with
      | some i => armOf n i
      | none => putHalted := by
  rw [switch_eq]
  cases decode op with
  | none => exact ⟨0, rfl⟩
  | some i => exact ⟨_, rfl⟩

end CDosX86
