import CDosX86.C64Commands

namespace CDosX86

def test1Base : Word := 0x0800

def test1Program : List Byte := [0xA2, 0x00, 0xE8, 0xE0, 0x05, 0xD0, 0xFB, 0x00]

def test2Base : Word := 0x0900

def test2Program : List Byte :=
  [0xA9, 0x11, 0x20, 0x09, 0x09, 0x85, 0x10, 0x00, 0xEA, 0xA9, 0x22, 0x60]

def testMaxSteps : Nat := 100

def writeProgram (base : Word) (program : List Byte) (m : C64Mem) : C64Mem :=
  program.zipIdx.foldl (fun m (b, i) => m.write (base + BitVec.ofNat 16 i) b) m

def testRun : Nat → Machine → Nat × Machine
  | 0, m => (0, m)
  | n + 1, m =>
      if m.cpu.halted then (0, m)
      else
        let (steps, m) := testRun n (stepM m)
        (steps + 1, m)

-- A test runs a CPU of its own, on the memory and the trace that the C64 uses.
def testProgram (base : Word) (program : List Byte) (k : C64) : Nat × Cpu6502 × C64 :=
  let m := { k.machine with mem := writeProgram base program k.mem }
  let (steps, m) := testRun testMaxSteps (resetM base m)
  (steps, m.cpu, { k with machine := { m with cpu := k.cpu } })

def oneIf (b : Bool) : BitVec 32 := if b then 1 else 0

def test1Loop (k : C64) : C64 :=
  let (steps, cpu, k) := testProgram test1Base test1Program k
  let k := k.print (text "Test 1 (LDX/INX/CPX/BNE loop):\n")
  let k := (k.print (text "  Steps: ")).printDec (BitVec.ofNat 32 steps)
  let k := (k.print (text "  X: ")).printDec (cpu.x.setWidth 32)
  let k := (k.print (text " (expect 5)  Z: ")).printDec (oneIf (cpu.p &&& flagZ ≠ 0))
  let k := (k.print (text " (expect 1)  Halted: ")).printDec (oneIf cpu.halted)
  let k := k.print (text " (expect 1)\n")
  if cpu.x = 5 ∧ cpu.p &&& flagZ ≠ 0 ∧ cpu.halted then k.print (text "  RESULT: PASS\n\n")
  else k.print (text "  RESULT: FAIL\n\n")

def test2JsrRts (k : C64) : C64 :=
  let (steps, cpu, k) := testProgram test2Base test2Program k
  let (memVal, k) := k.readByte 0x0010
  let k := k.print (text "Test 2 (JSR/RTS):\n")
  let k := (k.print (text "  Steps: ")).printDec (BitVec.ofNat 32 steps)
  let k := (k.print (text "  A: ")).printDec (cpu.a.setWidth 32)
  let k := (k.print (text " (expect 34/0x22)  mem[$10]: ")).printDec (memVal.setWidth 32)
  let k := (k.print (text " (expect 34/0x22)  Halted: ")).printDec (oneIf cpu.halted)
  let k := k.print (text " (expect 1)\n")
  if cpu.a = 0x22 ∧ memVal = 0x22 ∧ cpu.halted then k.print (text "  RESULT: PASS\n\n")
  else k.print (text "  RESULT: FAIL\n\n")

def cpu6502RunTest (k : C64) : C64 := test2JsrRts (test1Loop (k.print (text "6502 CPU tests:\n")))

end CDosX86
