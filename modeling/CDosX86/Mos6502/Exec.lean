import CDosX86.Mos6502.Decode

namespace Mos6502

def Reg.get {δ : Type} (r : Reg) (s : Cpu δ) : Byte :=
  match r with
  | .a => s.a
  | .x => s.x
  | .y => s.y

def Reg.put {δ : Type} (r : Reg) (v : Byte) (s : Cpu δ) : Cpu δ :=
  match r with
  | .a => { s with a := v }
  | .x => { s with x := v }
  | .y => { s with y := v }

def Logic.apply : Logic → Byte → Byte → Byte
  | .ora, a, m => a ||| m
  | .and, a, m => a &&& m
  | .eor, a, m => a ^^^ m

def Shift.apply : Shift → Bool → Byte → Byte
  | .asl, _, v => v <<< 1
  | .rol, c, v => v <<< 1 ||| (if c then 0x01 else 0x00)
  | .lsr, _, v => v >>> 1
  | .ror, c, v => v >>> 1 ||| (if c then 0x80 else 0x00)

def Shift.carry : Shift → Byte → Bool
  | .asl, v => v.getLsbD 7
  | .rol, v => v.getLsbD 7
  | .lsr, v => v.getLsbD 0
  | .ror, v => v.getLsbD 0

def putZN (v : Byte) (p : Byte) : Byte :=
  putFlag .n v.msb (putFlag .z (v == 0) p)

@[ext] structure AluResult where
  value : Byte
  carry : Bool
  overflow : Bool

def fitsSigned (k : Int) : Bool := decide (-128 ≤ k ∧ k ≤ 127)

def addBinary (a m : Byte) (c : Bool) : AluResult where
  value := a + m + BitVec.ofNat 8 c.toNat
  carry := decide (256 ≤ a.toNat + m.toNat + c.toNat)
  overflow := !fitsSigned (a.toInt + m.toInt + c.toNat)

def subBinary (a m : Byte) (c : Bool) : AluResult where
  value := a - m - BitVec.ofNat 8 (!c).toNat
  carry := decide (m.toNat + (!c).toNat ≤ a.toNat)
  overflow := !fitsSigned (a.toInt - m.toInt - (!c).toNat)

theorem addBinary_not (a m : Byte) (c : Bool) : addBinary a (~~~m) c = subBinary a m c := by
  have ha := a.isLt
  have hm := m.isLt
  have hnot : (~~~m).toNat = 255 - m.toNat := by simp [BitVec.toNat_not]
  have hneg : (~~~m).toInt = -m.toInt - 1 := by
    simp only [BitVec.toInt_eq_toNat_cond, hnot]
    split <;> split <;> omega
  ext1
  · apply BitVec.eq_of_toNat_eq
    cases c <;> simp only [addBinary, subBinary, BitVec.toNat_add, BitVec.toNat_sub, hnot] <;>
      simp <;> omega
  · cases c <;> simp [addBinary, subBinary, hnot] <;> omega
  · cases c <;>
      simp only [addBinary, subBinary, hneg, Bool.not_false, Bool.not_true, Bool.toNat_false,
        Bool.toNat_true] <;>
      congr 2 <;> omega

def putAlu (r : AluResult) (p : Byte) : Byte :=
  putZN r.value (putFlag .v r.overflow (putFlag .c r.carry p))

def putCompare (r m : Byte) (p : Byte) : Byte :=
  putZN (r - m) (putFlag .c (decide (m ≤ r)) p)

def putBit (a m : Byte) (p : Byte) : Byte :=
  putFlag .n (m.getLsbD 7) (putFlag .v (m.getLsbD 6) (putFlag .z (a &&& m == 0) p))

section

variable {δ : Type} [Bus δ]

def ea : Mode → Exec δ Word
  | .imm => nextPc
  | .zp => do return zeroPage (← fetch)
  | .zpx => do return zeroPage ((← fetch) + (← get).x)
  | .zpy => do return zeroPage ((← fetch) + (← get).y)
  | .abs => fetchWord
  | .absx => do return (← fetchWord) + zeroPage (← get).x
  | .absy => do return (← fetchWord) + zeroPage (← get).y
  | .indx => do
      let ptr := (← fetch) + (← get).x
      let lo ← readBus (zeroPage ptr)
      let hi ← readBus (zeroPage (ptr + 1))
      return hi ++ lo
  | .indy => do
      let ptr ← fetch
      let lo ← readBus (zeroPage ptr)
      let hi ← readBus (zeroPage (ptr + 1))
      return (hi ++ lo) + zeroPage (← get).y

def operand (m : Mode) : Exec δ Byte := do
  readBus (← ea m)

def rmw (m : Mode) (f : Byte → Byte → Byte × Byte) : Exec δ Unit := do
  let addr ← ea m
  let v ← readBus addr
  let r := f v (← get).p
  modify fun s => { s with p := r.2 }
  writeBus addr r.1

def Shift.step (o : Shift) (v p : Byte) : Byte × Byte :=
  let r := o.apply (flag .c p) v
  (r, putZN r (putFlag .c (o.carry v) p))

def assign (r : Reg) (v : Byte) : Exec δ Unit :=
  modify fun s => { r.put v s with p := putZN v s.p }

def exec : Instr → Exec δ Unit
  | .load r m => do assign r (← operand m)
  | .store r m => do
      let addr ← ea m
      writeBus addr (r.get (← get))
  | .logic o m => do
      let v ← operand m
      assign .a (o.apply (← get).a v)
  | .adc m => do
      let v ← operand m
      modify fun s =>
        let r := addBinary s.a v (flag .c s.p)
        { s with a := r.value, p := putAlu r s.p }
  | .sbc m => do
      let v ← operand m
      modify fun s =>
        let r := subBinary s.a v (flag .c s.p)
        { s with a := r.value, p := putAlu r s.p }
  | .compare r m => do
      let v ← operand m
      modify fun s => { s with p := putCompare (r.get s) v s.p }
  | .bit m => do
      let v ← operand m
      modify fun s => { s with p := putBit s.a v s.p }
  | .shiftA o => modify fun s =>
      { s with a := (o.step s.a s.p).1, p := (o.step s.a s.p).2 }
  | .shift o m => rmw m o.step
  | .inc m => rmw m fun v p => (v + 1, putZN (v + 1) p)
  | .dec m => rmw m fun v p => (v - 1, putZN (v - 1) p)
  | .incr r => do assign r (r.get (← get) + 1)
  | .decr r => do assign r (r.get (← get) - 1)
  | .transfer src dst => do assign dst (src.get (← get))
  | .txs => modify fun s => { s with sp := s.x }
  | .tsx => do assign .x (← get).sp
  | .pha => do push (← get).a
  | .pla => do assign .a (← pull)
  | .php => do push (putFlag .u true (putFlag .b true (← get).p))
  | .plp => do
      let v ← pull
      modify fun s => { s with p := putFlag .u true (putFlag .b false v) }
  | .setFlag f on => modify fun s => { s with p := putFlag f on s.p }
  | .branch f on => do
      let off ← fetch
      modify fun s =>
        { s with pc := if flag f s.p = on then s.pc + off.signExtend 16 else s.pc }
  | .jmp => do
      let target ← ea .abs
      modify fun s => { s with pc := target }
  | .jmpInd => do
      let ptr ← ea .abs
      let lo ← readBus ptr
      let hi ← readBus (ptr + 1)
      modify fun s => { s with pc := hi ++ lo }
  | .jsr => do
      let target ← ea .abs
      pushWord ((← get).pc - 1)
      modify fun s => { s with pc := target }
  | .rts => do
      let ret ← pullWord
      modify fun s => { s with pc := ret + 1 }
  | .rti => do
      let v ← pull
      modify fun s => { s with p := putFlag .u true (putFlag .b false v) }
      let ret ← pullWord
      modify fun s => { s with pc := ret }
  | .brk => modify fun s => { s with halted := true }
  | .nop => pure ()

def execOp (op : Byte) : Exec δ Unit :=
  match decode op with
  | some i => exec i
  | none => modify fun s => { s with halted := true }

def step (s : Cpu δ) : Cpu δ :=
  if s.halted then s else ((do execOp (← fetch) : Exec δ Unit) s).2

def enterIrq : Exec δ Unit := do
  pushWord (← get).pc
  push (putFlag .u true (putFlag .b false (← get).p))
  modify fun s => { s with p := putFlag .i true s.p }
  let lo ← readBus 0xFFFE
  let hi ← readBus 0xFFFF
  modify fun s => { s with pc := hi ++ lo }

def irq (s : Cpu δ) : Cpu δ :=
  if flag .i s.p || s.halted then s else (enterIrq s).2

end

end Mos6502
