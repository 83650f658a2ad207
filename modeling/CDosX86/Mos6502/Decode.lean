import CDosX86.Mos6502.State

namespace Mos6502

inductive Mode where
  | imm | zp | zpx | zpy | abs | absx | absy | indx | indy
  deriving DecidableEq, Repr

inductive Reg where
  | a | x | y
  deriving DecidableEq, Repr

inductive Logic where
  | ora | and | eor
  deriving DecidableEq, Repr

inductive Shift where
  | asl | rol | lsr | ror
  deriving DecidableEq, Repr

inductive Instr where
  | load (r : Reg) (m : Mode)
  | store (r : Reg) (m : Mode)
  | logic (o : Logic) (m : Mode)
  | adc (m : Mode)
  | sbc (m : Mode)
  | compare (r : Reg) (m : Mode)
  | bit (m : Mode)
  | shiftA (o : Shift)
  | shift (o : Shift) (m : Mode)
  | inc (m : Mode)
  | dec (m : Mode)
  | incr (r : Reg)
  | decr (r : Reg)
  | transfer (src dst : Reg)
  | txs
  | tsx
  | pha
  | pla
  | php
  | plp
  | setFlag (f : Flag) (on : Bool)
  | branch (f : Flag) (on : Bool)
  | jmp
  | jmpInd
  | jsr
  | rts
  | rti
  | brk
  | nop
  deriving DecidableEq, Repr

def aluMode : Nat → Mode
  | 0 => .indx
  | 1 => .zp
  | 2 => .imm
  | 3 => .abs
  | 4 => .indy
  | 5 => .zpx
  | 6 => .absy
  | _ => .absx

def decodeAlu (aaa bbb : Nat) : Option Instr :=
  let m := aluMode bbb
  match aaa with
  | 0 => some (.logic .ora m)
  | 1 => some (.logic .and m)
  | 2 => some (.logic .eor m)
  | 3 => some (.adc m)
  | 4 => if m = .imm then none else some (.store .a m)
  | 5 => some (.load .a m)
  | 6 => some (.compare .a m)
  | _ => some (.sbc m)

def memMode : Nat → Option Mode
  | 1 => some .zp
  | 3 => some .abs
  | 5 => some .zpx
  | 7 => some .absx
  | _ => none

def Mode.yIndexed : Mode → Mode
  | .zpx => .zpy
  | .absx => .absy
  | m => m

def decodeShift (o : Shift) (bbb : Nat) : Option Instr :=
  if bbb = 2 then some (.shiftA o) else (memMode bbb).map (.shift o)

def decodeRmw (aaa bbb : Nat) : Option Instr :=
  match aaa, bbb with
  | 0, _ => decodeShift .asl bbb
  | 1, _ => decodeShift .rol bbb
  | 2, _ => decodeShift .lsr bbb
  | 3, _ => decodeShift .ror bbb
  | 4, 2 => some (.transfer .x .a)
  | 4, 6 => some .txs
  | 4, 7 => none
  | 4, _ => (memMode bbb).map fun m => .store .x m.yIndexed
  | 5, 0 => some (.load .x .imm)
  | 5, 2 => some (.transfer .a .x)
  | 5, 6 => some .tsx
  | 5, _ => (memMode bbb).map fun m => .load .x m.yIndexed
  | 6, 2 => some (.decr .x)
  | 6, _ => (memMode bbb).map .dec
  | _, 2 => some .nop
  | _, _ => (memMode bbb).map .inc

def branchFlag : Nat → Flag
  | 0 => .n
  | 1 => .v
  | 2 => .c
  | _ => .z

def decodeControl (aaa bbb : Nat) : Option Instr :=
  match bbb, aaa with
  | 4, _ => some (.branch (branchFlag (aaa / 2)) (aaa % 2 == 1))
  | 0, 0 => some .brk
  | 0, 1 => some .jsr
  | 0, 2 => some .rti
  | 0, 3 => some .rts
  | 2, 0 => some .php
  | 2, 1 => some .plp
  | 2, 2 => some .pha
  | 2, 3 => some .pla
  | 2, 4 => some (.decr .y)
  | 2, 5 => some (.transfer .a .y)
  | 2, 6 => some (.incr .y)
  | 2, 7 => some (.incr .x)
  | 6, 0 => some (.setFlag .c false)
  | 6, 1 => some (.setFlag .c true)
  | 6, 2 => some (.setFlag .i false)
  | 6, 3 => some (.setFlag .i true)
  | 6, 4 => some (.transfer .y .a)
  | 6, 5 => some (.setFlag .v false)
  | 6, 6 => some (.setFlag .d false)
  | 6, 7 => some (.setFlag .d true)
  | 1, 1 => some (.bit .zp)
  | 3, 1 => some (.bit .abs)
  | 3, 2 => some .jmp
  | 3, 3 => some .jmpInd
  | 1, 4 => some (.store .y .zp)
  | 3, 4 => some (.store .y .abs)
  | 5, 4 => some (.store .y .zpx)
  | 0, 5 => some (.load .y .imm)
  | _, 5 => (memMode bbb).map (.load .y)
  | 0, 6 => some (.compare .y .imm)
  | 1, 6 => some (.compare .y .zp)
  | 3, 6 => some (.compare .y .abs)
  | 0, 7 => some (.compare .x .imm)
  | 1, 7 => some (.compare .x .zp)
  | 3, 7 => some (.compare .x .abs)
  | _, _ => none

def decode (op : Byte) : Option Instr :=
  let aaa := op.toNat / 32
  let bbb := op.toNat / 4 % 8
  match op.toNat % 4 with
  | 0 => decodeControl aaa bbb
  | 1 => decodeAlu aaa bbb
  | 2 => decodeRmw aaa bbb
  | _ => none

def documented : List Byte :=
  ((List.range 256).map (BitVec.ofNat 8)).filter fun op => (decode op).isSome

theorem mem_documented (op : Byte) : op ∈ documented ↔ (decode op).isSome = true := by
  have hall : op ∈ (List.range 256).map (BitVec.ofNat 8) :=
    List.mem_map.mpr ⟨op.toNat, List.mem_range.mpr op.isLt, by simp⟩
  simp [documented, List.mem_filter, hall]

theorem undocumented_decode {op : Byte} (h : op ∉ documented) : decode op = none := by
  rwa [mem_documented, Option.not_isSome_iff_eq_none] at h

end Mos6502
