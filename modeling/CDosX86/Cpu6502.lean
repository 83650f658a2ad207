import CDosX86.Cpu6502Mem

namespace CDosX86

structure Cpu6502 where
  a : Byte
  x : Byte
  y : Byte
  sp : Byte
  pc : Word
  p : Byte
  cycles : BitVec 64
  halted : Bool

structure Trace where
  pc : Fin 64 → Word
  op : Fin 64 → Byte
  idx : Fin 64
  hitE3e0 : BitVec 32
  spAtA06e : BitVec 32

structure Machine where
  cpu : Cpu6502
  mem : C64Mem
  trace : Trace

abbrev M (α : Type) := StateM Machine α

def flagC : Byte := 0x01
def flagZ : Byte := 0x02
def flagI : Byte := 0x04
def flagD : Byte := 0x08
def flagB : Byte := 0x10
def flagU : Byte := 0x20
def flagV : Byte := 0x40
def flagN : Byte := 0x80

def modifyCpu (f : Cpu6502 → Cpu6502) : M Unit :=
  modify fun m => { m with cpu := f m.cpu }

def cpu6502Read (addr : Word) : M Byte := fun m =>
  ((m.mem.read addr).1, { m with mem := (m.mem.read addr).2 })

def cpu6502Write (addr : Word) (val : Byte) : M Unit :=
  modify fun m => { m with mem := m.mem.write addr val }

def orFlag (mask : Byte) : M Unit := modifyCpu fun c => { c with p := c.p ||| mask }

def clearFlag (mask : Byte) : M Unit := modifyCpu fun c => { c with p := c.p &&& ~~~mask }

def flagIf (cond : Bool) (mask : Byte) : M Unit :=
  if cond then orFlag mask else clearFlag mask

def addCycles (n : BitVec 64) : M Unit := modifyCpu fun c => { c with cycles := c.cycles + n }

def setZn (val : Byte) : M Unit := do
  flagIf (val == 0) flagZ
  flagIf (val &&& 0x80 != 0) flagN

def fetch8 : M Byte := do
  let pc := (← get).cpu.pc
  modifyCpu fun c => { c with pc := c.pc + 1 }
  cpu6502Read pc

def fetch16 : M Word := do
  let lo := (← fetch8).setWidth 16
  let hi := (← fetch8).setWidth 16
  return lo ||| hi <<< 8

def push8 (val : Byte) : M Unit := do
  cpu6502Write (0x0100 + (← get).cpu.sp.setWidth 16) val
  modifyCpu fun c => { c with sp := c.sp - 1 }

def pop8 : M Byte := do
  modifyCpu fun c => { c with sp := c.sp + 1 }
  cpu6502Read (0x0100 + (← get).cpu.sp.setWidth 16)

def addrZp : M Word := do
  return (← fetch8).setWidth 16

def addrZpx : M Word := do
  return ((← fetch8) + (← get).cpu.x).setWidth 16

def addrZpy : M Word := do
  return ((← fetch8) + (← get).cpu.y).setWidth 16

def addrAbs : M Word := fetch16

def addrAbsx : M Word := do
  return (← fetch16) + (← get).cpu.x.setWidth 16

def addrAbsy : M Word := do
  return (← fetch16) + (← get).cpu.y.setWidth 16

def addrIndx : M Word := do
  let zp := (← fetch8) + (← get).cpu.x
  let lo := (← cpu6502Read (zp.setWidth 16)).setWidth 16
  let hi := (← cpu6502Read ((zp + 1).setWidth 16)).setWidth 16
  return lo ||| hi <<< 8

def addrIndy : M Word := do
  let zp ← fetch8
  let lo := (← cpu6502Read (zp.setWidth 16)).setWidth 16
  let hi := (← cpu6502Read ((zp + 1).setWidth 16)).setWidth 16
  let base := lo ||| hi <<< 8
  return base + (← get).cpu.y.setWidth 16

def doAdc (val : Byte) : M Unit := do
  let c := (← get).cpu
  let carry : Word := if c.p &&& flagC ≠ 0 then 1 else 0
  let result : Word := c.a.setWidth 16 + val.setWidth 16 + carry
  flagIf (result > 0xFF) flagC
  flagIf ((c.a.setWidth 16 ^^^ result) &&& (val.setWidth 16 ^^^ result) &&& 0x80 != 0) flagV
  modifyCpu fun c => { c with a := result.setWidth 8 }
  setZn (result.setWidth 8)

def doSbc (val : Byte) : M Unit := doAdc (~~~val)

def doAsl (val : Byte) : M Byte := do
  flagIf (val &&& 0x80 != 0) flagC
  let val := val <<< 1
  setZn val
  return val

def doLsr (val : Byte) : M Byte := do
  flagIf (val &&& 0x01 != 0) flagC
  let val := val >>> 1
  setZn val
  return val

def doRol (val : Byte) : M Byte := do
  let carryIn : Byte := if (← get).cpu.p &&& flagC ≠ 0 then 1 else 0
  flagIf (val &&& 0x80 != 0) flagC
  let val := val <<< 1 ||| carryIn
  setZn val
  return val

def doRor (val : Byte) : M Byte := do
  let carryIn : Byte := if (← get).cpu.p &&& flagC ≠ 0 then 0x80 else 0
  flagIf (val &&& 0x01 != 0) flagC
  let val := val >>> 1 ||| carryIn
  setZn val
  return val

def cpu6502Reset (startPc : Word) : M Unit :=
  modifyCpu fun _ =>
    { a := 0, x := 0, y := 0, sp := 0xFD, pc := startPc, p := flagU ||| flagI,
      cycles := 0, halted := false }

def cpu6502Irq : M Unit := do
  let c := (← get).cpu
  if c.p &&& flagI ≠ 0 then return ()
  if c.halted then return ()
  push8 ((c.pc >>> 8 &&& 0xFF).setWidth 8)
  push8 ((c.pc &&& 0xFF).setWidth 8)
  push8 (c.p &&& ~~~flagB ||| flagU)
  orFlag flagI
  let lo := (← cpu6502Read 0xFFFE).setWidth 16
  let hi := (← cpu6502Read 0xFFFF).setWidth 16
  modifyCpu fun c => { c with pc := lo ||| hi <<< 8 }
  addCycles 7

def readAt (addr : M Word) : M Byte := do
  cpu6502Read (← addr)

def regA : M Byte := do return (← get).cpu.a

def regX : M Byte := do return (← get).cpu.x

def regY : M Byte := do return (← get).cpu.y

def regSp : M Byte := do return (← get).cpu.sp

def putA (v : Byte) : M Unit := modifyCpu fun c => { c with a := v }

def putX (v : Byte) : M Unit := modifyCpu fun c => { c with x := v }

def putY (v : Byte) : M Unit := modifyCpu fun c => { c with y := v }

def putSp (v : Byte) : M Unit := modifyCpu fun c => { c with sp := v }

def putPc (v : Word) : M Unit := modifyCpu fun c => { c with pc := v }

def putP (v : Byte) : M Unit := modifyCpu fun c => { c with p := v }

def putHalted : M Unit := modifyCpu fun c => { c with halted := true }

def loadA (val : M Byte) (n : BitVec 64) : M Unit := do
  let v ← val
  putA v
  setZn v
  addCycles n

def loadX (val : M Byte) (n : BitVec 64) : M Unit := do
  let v ← val
  putX v
  setZn v
  addCycles n

def loadY (val : M Byte) (n : BitVec 64) : M Unit := do
  let v ← val
  putY v
  setZn v
  addCycles n

def store (addr : M Word) (reg : M Byte) (n : BitVec 64) : M Unit := do
  cpu6502Write (← addr) (← reg)
  addCycles n

def andA (val : M Byte) (n : BitVec 64) : M Unit :=
  loadA (do let v ← val; return (← regA) &&& v) n

def oraA (val : M Byte) (n : BitVec 64) : M Unit :=
  loadA (do let v ← val; return (← regA) ||| v) n

def eorA (val : M Byte) (n : BitVec 64) : M Unit :=
  loadA (do let v ← val; return (← regA) ^^^ v) n

def adc (val : M Byte) (n : BitVec 64) : M Unit := do
  doAdc (← val)
  addCycles n

def sbc (val : M Byte) (n : BitVec 64) : M Unit := do
  doSbc (← val)
  addCycles n

def compare (reg : M Byte) (val : M Byte) (n : BitVec 64) : M Unit := do
  let v ← val
  let r ← reg
  flagIf (r ≥ v) flagC
  setZn (r - v)
  addCycles n

def bit (val : M Byte) (n : BitVec 64) : M Unit := do
  let v ← val
  let r := (← regA) &&& v
  flagIf (r == 0) flagZ
  flagIf (v &&& 0x40 != 0) flagV
  flagIf (v &&& 0x80 != 0) flagN
  addCycles n

def incMem (addr : M Word) (n : BitVec 64) : M Unit := do
  let a ← addr
  let v := (← cpu6502Read a) + 1
  cpu6502Write a v
  setZn v
  addCycles n

def decMem (addr : M Word) (n : BitVec 64) : M Unit := do
  let a ← addr
  let v := (← cpu6502Read a) - 1
  cpu6502Write a v
  setZn v
  addCycles n

def shiftA (op : Byte → M Byte) (n : BitVec 64) : M Unit := do
  putA (← op (← regA))
  addCycles n

def shiftMem (op : Byte → M Byte) (addr : M Word) (n : BitVec 64) : M Unit := do
  let a ← addr
  cpu6502Write a (← op (← cpu6502Read a))
  addCycles n

def branchIf (taken : Byte → Bool) : M Unit := do
  let off ← fetch8
  addCycles 2
  if taken (← get).cpu.p then
    putPc ((← get).cpu.pc + off.signExtend 16)
    addCycles 1

def branchSet (mask : Byte) : M Unit := branchIf fun p => p &&& mask != 0

def branchClear (mask : Byte) : M Unit := branchIf fun p => p &&& mask == 0

def txs : M Unit := do
  putSp (← regX)
  addCycles 2

def pha : M Unit := do
  push8 (← regA)
  addCycles 3

def php : M Unit := do
  push8 ((← get).cpu.p ||| flagB ||| flagU)
  addCycles 3

def plp : M Unit := do
  putP ((← pop8) &&& ~~~flagB ||| flagU)
  addCycles 4

def jmpAbs : M Unit := do
  putPc (← addrAbs)
  addCycles 3

-- The high byte is fetched from ptr + 1, without the page-boundary bug of the real chip.
def jmpInd : M Unit := do
  let ptr ← fetch16
  let lo := (← cpu6502Read ptr).setWidth 16
  let hi := (← cpu6502Read (ptr + 1)).setWidth 16
  putPc (lo ||| hi <<< 8)
  addCycles 5

def jsr : M Unit := do
  let addr ← fetch16
  let ret := (← get).cpu.pc - 1
  push8 ((ret >>> 8 &&& 0xFF).setWidth 8)
  push8 ((ret &&& 0xFF).setWidth 8)
  putPc addr
  addCycles 6

def rts : M Unit := do
  let lo := (← pop8).setWidth 16
  let hi := (← pop8).setWidth 16
  putPc ((lo ||| hi <<< 8) + 1)
  addCycles 6

def rti : M Unit := do
  putP ((← pop8) &&& ~~~flagB ||| flagU)
  let lo := (← pop8).setWidth 16
  let hi := (← pop8).setWidth 16
  putPc (lo ||| hi <<< 8)
  addCycles 6

def brk : M Unit := do
  putHalted
  addCycles 7

def cpu6502Switch (opcode : Byte) : M Unit :=
  match opcode with
  | 0xA9 => loadA fetch8 2
  | 0xA5 => loadA (readAt addrZp) 3
  | 0xB5 => loadA (readAt addrZpx) 4
  | 0xAD => loadA (readAt addrAbs) 4
  | 0xBD => loadA (readAt addrAbsx) 4
  | 0xB9 => loadA (readAt addrAbsy) 4
  | 0xA1 => loadA (readAt addrIndx) 6
  | 0xB1 => loadA (readAt addrIndy) 5
  | 0x85 => store addrZp regA 3
  | 0x95 => store addrZpx regA 4
  | 0x8D => store addrAbs regA 4
  | 0x9D => store addrAbsx regA 5
  | 0x99 => store addrAbsy regA 5
  | 0x81 => store addrIndx regA 6
  | 0x91 => store addrIndy regA 6
  | 0xA2 => loadX fetch8 2
  | 0xA6 => loadX (readAt addrZp) 3
  | 0xB6 => loadX (readAt addrZpy) 4
  | 0xAE => loadX (readAt addrAbs) 4
  | 0xBE => loadX (readAt addrAbsy) 4
  | 0x86 => store addrZp regX 3
  | 0x96 => store addrZpy regX 4
  | 0x8E => store addrAbs regX 4
  | 0xA0 => loadY fetch8 2
  | 0xA4 => loadY (readAt addrZp) 3
  | 0xB4 => loadY (readAt addrZpx) 4
  | 0xAC => loadY (readAt addrAbs) 4
  | 0xBC => loadY (readAt addrAbsx) 4
  | 0x84 => store addrZp regY 3
  | 0x94 => store addrZpx regY 4
  | 0x8C => store addrAbs regY 4
  | 0xAA => loadX regA 2
  | 0x8A => loadA regX 2
  | 0xA8 => loadY regA 2
  | 0x98 => loadA regY 2
  | 0x9A => txs
  | 0xBA => loadX regSp 2
  | 0x48 => pha
  | 0x68 => loadA pop8 4
  | 0x08 => php
  | 0x28 => plp
  | 0x78 => do orFlag flagI; addCycles 2
  | 0x58 => do clearFlag flagI; addCycles 2
  | 0xF8 => do orFlag flagD; addCycles 2
  | 0xD8 => do clearFlag flagD; addCycles 2
  | 0x38 => do orFlag flagC; addCycles 2
  | 0x18 => do clearFlag flagC; addCycles 2
  | 0xB8 => do clearFlag flagV; addCycles 2
  | 0xE8 => loadX (do return (← regX) + 1) 2
  | 0xC8 => loadY (do return (← regY) + 1) 2
  | 0xCA => loadX (do return (← regX) - 1) 2
  | 0x88 => loadY (do return (← regY) - 1) 2
  | 0xE6 => incMem addrZp 5
  | 0xF6 => incMem addrZpx 6
  | 0xEE => incMem addrAbs 6
  | 0xFE => incMem addrAbsx 7
  | 0xC6 => decMem addrZp 5
  | 0xD6 => decMem addrZpx 6
  | 0xCE => decMem addrAbs 6
  | 0xDE => decMem addrAbsx 7
  | 0xE0 => compare regX fetch8 2
  | 0xC0 => compare regY fetch8 2
  | 0xC9 => compare regA fetch8 2
  | 0xC5 => compare regA (readAt addrZp) 3
  | 0xCD => compare regA (readAt addrAbs) 4
  | 0xD5 => compare regA (readAt addrZpx) 4
  | 0xDD => compare regA (readAt addrAbsx) 4
  | 0xD9 => compare regA (readAt addrAbsy) 4
  | 0xC1 => compare regA (readAt addrIndx) 6
  | 0xD1 => compare regA (readAt addrIndy) 5
  | 0xE4 => compare regX (readAt addrZp) 3
  | 0xEC => compare regX (readAt addrAbs) 4
  | 0xC4 => compare regY (readAt addrZp) 3
  | 0xCC => compare regY (readAt addrAbs) 4
  | 0x35 => andA (readAt addrZpx) 4
  | 0x3D => andA (readAt addrAbsx) 4
  | 0x39 => andA (readAt addrAbsy) 4
  | 0x21 => andA (readAt addrIndx) 6
  | 0x31 => andA (readAt addrIndy) 5
  | 0x15 => oraA (readAt addrZpx) 4
  | 0x1D => oraA (readAt addrAbsx) 4
  | 0x19 => oraA (readAt addrAbsy) 4
  | 0x01 => oraA (readAt addrIndx) 6
  | 0x11 => oraA (readAt addrIndy) 5
  | 0x55 => eorA (readAt addrZpx) 4
  | 0x5D => eorA (readAt addrAbsx) 4
  | 0x59 => eorA (readAt addrAbsy) 4
  | 0x41 => eorA (readAt addrIndx) 6
  | 0x51 => eorA (readAt addrIndy) 5
  | 0x75 => adc (readAt addrZpx) 4
  | 0x7D => adc (readAt addrAbsx) 4
  | 0x79 => adc (readAt addrAbsy) 4
  | 0x61 => adc (readAt addrIndx) 6
  | 0x71 => adc (readAt addrIndy) 5
  | 0xF5 => sbc (readAt addrZpx) 4
  | 0xFD => sbc (readAt addrAbsx) 4
  | 0xF9 => sbc (readAt addrAbsy) 4
  | 0xE1 => sbc (readAt addrIndx) 6
  | 0xF1 => sbc (readAt addrIndy) 5
  | 0x29 => andA fetch8 2
  | 0x25 => andA (readAt addrZp) 3
  | 0x2D => andA (readAt addrAbs) 4
  | 0x09 => oraA fetch8 2
  | 0x05 => oraA (readAt addrZp) 3
  | 0x0D => oraA (readAt addrAbs) 4
  | 0x49 => eorA fetch8 2
  | 0x45 => eorA (readAt addrZp) 3
  | 0x4D => eorA (readAt addrAbs) 4
  | 0x24 => bit (readAt addrZp) 3
  | 0x2C => bit (readAt addrAbs) 4
  | 0x69 => adc fetch8 2
  | 0x65 => adc (readAt addrZp) 3
  | 0x6D => adc (readAt addrAbs) 4
  | 0xE9 => sbc fetch8 2
  | 0xE5 => sbc (readAt addrZp) 3
  | 0xED => sbc (readAt addrAbs) 4
  | 0x0A => shiftA doAsl 2
  | 0x06 => shiftMem doAsl addrZp 5
  | 0x4A => shiftA doLsr 2
  | 0x46 => shiftMem doLsr addrZp 5
  | 0x2A => shiftA doRol 2
  | 0x26 => shiftMem doRol addrZp 5
  | 0x6A => shiftA doRor 2
  | 0x66 => shiftMem doRor addrZp 5
  | 0x16 => shiftMem doAsl addrZpx 6
  | 0x0E => shiftMem doAsl addrAbs 6
  | 0x1E => shiftMem doAsl addrAbsx 7
  | 0x56 => shiftMem doLsr addrZpx 6
  | 0x4E => shiftMem doLsr addrAbs 6
  | 0x5E => shiftMem doLsr addrAbsx 7
  | 0x36 => shiftMem doRol addrZpx 6
  | 0x2E => shiftMem doRol addrAbs 6
  | 0x3E => shiftMem doRol addrAbsx 7
  | 0x76 => shiftMem doRor addrZpx 6
  | 0x6E => shiftMem doRor addrAbs 6
  | 0x7E => shiftMem doRor addrAbsx 7
  | 0xD0 => branchClear flagZ
  | 0xF0 => branchSet flagZ
  | 0x10 => branchClear flagN
  | 0x30 => branchSet flagN
  | 0x50 => branchClear flagV
  | 0x70 => branchSet flagV
  | 0x90 => branchClear flagC
  | 0xB0 => branchSet flagC
  | 0x4C => jmpAbs
  | 0x6C => jmpInd
  | 0x20 => jsr
  | 0x60 => rts
  | 0x40 => rti
  | 0xEA => addCycles 2
  | 0x00 => brk
  | _ => putHalted

def traceFetch (pcBefore : Word) (opcode : Byte) (sp : Byte) (t : Trace) : Trace where
  pc := Function.update t.pc t.idx pcBefore
  op := Function.update t.op t.idx opcode
  idx := t.idx + 1
  hitE3e0 := if pcBefore = 0xE3E0 then t.hitE3e0 + 1 else t.hitE3e0
  spAtA06e :=
    if pcBefore = 0xA06E ∧ t.spAtA06e = 0xFFFFFFFF then sp.setWidth 32 else t.spAtA06e

def cpu6502Step : M Unit := do
  if (← get).cpu.halted then return ()
  let pcBefore := (← get).cpu.pc
  let opcode ← fetch8
  modify fun m => { m with trace := traceFetch pcBefore opcode m.cpu.sp m.trace }
  cpu6502Switch opcode

def stepM (m : Machine) : Machine := (cpu6502Step m).2

def irqM (m : Machine) : Machine := (cpu6502Irq m).2

def resetM (startPc : Word) (m : Machine) : Machine := (cpu6502Reset startPc m).2

def Machine.zero : Machine where
  cpu :=
    { a := 0, x := 0, y := 0, sp := 0, pc := 0, p := 0, cycles := 0, halted := false }
  mem := { ram := fun _ => 0, rasterCounter := 0, console := Console.zero }
  trace :=
    { pc := fun _ => 0, op := fun _ => 0, idx := 0, hitE3e0 := 0, spAtA06e := 0xFFFFFFFF }

def Machine.load (m : Machine) (addr : Word) : List Byte → Machine
  | [] => m
  | b :: bs =>
      ({ m with mem := { m.mem with ram := Function.update m.mem.ram addr b } } : Machine).load
        (addr + 1) bs

end CDosX86
