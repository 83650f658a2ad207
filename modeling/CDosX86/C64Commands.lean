import CDosX86.C64Type
import CDosX86.ShellParse

namespace CDosX86

namespace C64

def onConsole (f : Console → Console) (k : C64) : C64 :=
  k.withMem { k.mem with console := f k.mem.console }

def readByte (addr : Word) (k : C64) : Byte × C64 :=
  let (val, m) := k.mem.read addr
  (val, k.withMem m)

theorem cpu_onConsole (f : Console → Console) (k : C64) : (k.onConsole f).cpu = k.cpu := by
  rw [onConsole, withMem, cpu, cpu]

end C64

def traceLen : Nat := 64

def traceDumpOrdered (t : Trace) (count : Nat) : List (Word × Byte) :=
  (List.range count).map fun i =>
    let idx : Fin 64 := ⟨(t.idx.val + traceLen - count + i) % traceLen, Nat.mod_lt _ (by decide)⟩
    (t.pc idx, t.op idx)

def printTrace (t : Trace) (k : Console) : Console :=
  let k := k.print (text "Trace (oldest to newest):\n")
  let k := (traceDumpOrdered t traceLen).zipIdx.foldl
    (fun k ((pc, op), i) =>
      let k := ((k.printHexW (pc.setWidth 32) 4).print (text ":")).printHexW (op.setWidth 32) 2
      let k := k.print (text "  ")
      if (i + 1) % 6 = 0 then k.putchar newline else k) k
  k.putchar newline

-- The inner loops of `cmd_dump` and `cmd_c64mem`, which differ in the read alone.
def dumpRow (read : BitVec 32 → C64 → Byte × C64) (addr len i : BitVec 32) (k : C64) : C64 :=
  let k := (k.printHex (addr + i)).print (text ": ")
  let k := Loop.upto
    (fun j k =>
      let (b, k) := read (addr + i + BitVec.ofNat 32 j) k
      let k := k.putchar (hexDigit ((b >>> 4 &&& 0xF).setWidth 32))
      (k.putchar (hexDigit ((b &&& 0xF).setWidth 32))).putchar space)
    (min 16 (len.toNat - i.toNat)) k
  k.putchar newline

def dumpRows (read : BitVec 32 → C64 → Byte × C64) (addr len : BitVec 32) (k : C64) : C64 :=
  Loop.upto (fun row => dumpRow read addr len (BitVec.ofNat 32 (16 * row)))
    ((len.toNat + 15) / 16) k

def cmdDump (memory : BitVec 32 → Byte) (tokens : List (List Byte)) (k : C64) : C64 :=
  match tokens with
  | _ :: a :: l :: _ =>
      match parseNumber a, parseNumber l with
      | some addr, some len =>
          let len := if len > 256 then 256 else len
          dumpRows (fun addr k => (memory addr, k)) addr len k
      | _, _ => k.print (text "Bad address or length\n")
  | _ => k.print (text "Usage: DUMP <addr> <len>\n")

def cmdC64mem (tokens : List (List Byte)) (k : C64) : C64 :=
  match tokens with
  | _ :: a :: l :: _ =>
      match parseNumber a, parseNumber l with
      | some addr, some len =>
          let len := if len > 64 then 64 else len
          dumpRows (fun addr => C64.readByte (addr.setWidth 16)) addr len k
      | _, _ => k.print (text "Bad address or length\n")
  | _ => k.print (text "Usage: C64MEM <addr> <len>\n")

def cmdC64tracedump (k : C64) : C64 := k.onConsole (printTrace k.machine.trace)

def traceStep (i : Nat) (k : C64) : C64 :=
  let pcBefore := k.cpu.pc
  let (opcode, k) := k.readByte pcBefore
  let k := (k.print (text "PC=$")).printHex (pcBefore.setWidth 32)
  let k := (k.print (text " op=$")).printHex (opcode.setWidth 32)
  let k := (k.print (text " A=")).printDec (k.cpu.a.setWidth 32)
  let k := (k.print (text " X=")).printDec (k.cpu.x.setWidth 32)
  let k := (k.print (text " Y=")).printDec (k.cpu.y.setWidth 32)
  let k := (k.print (text " SP=")).printDec (k.cpu.sp.setWidth 32)
  let k := (k.print (text " P=$")).printHex (k.cpu.p.setWidth 32)
  let k := k.print (text (if k.cpu.p &&& flagI ≠ 0 then " (I=1)" else " (I=0)"))
  let k := (k.putchar newline).step
  if (i + 1) % 20 = 0 then k.irq else k

def traceLoop : Nat → Nat → C64 → C64
  | 0, _, k => k
  | n + 1, i, k =>
      if k.cpu.halted then k.print (text "(halted)\n") else traceLoop n (i + 1) (traceStep i k)

def cmdC64trace (tokens : List (List Byte)) (k : C64) : C64 :=
  let parsed :=
    match tokens with
    | _ :: n :: _ => parseNumber n
    | _ => some 30
  match parsed with
  | none => k.print (text "Bad step count\n")
  | some traceSteps =>
      let traceSteps := if traceSteps > 200 then 200 else traceSteps
      let k := (k.print (text "Tracing ")).printDec traceSteps
      traceLoop traceSteps.toNat 0 (k.print (text " steps from current state:\n"))

def cmdC64key (tokens : List (List Byte)) (k : C64) : C64 :=
  match tokens with
  | _ :: key :: _ =>
      if deref key = 0 then k.print (text "Usage: C64KEY <single char>\n")
      else
        let k := ((k.injectKey (deref key)).print (text "Injected '")).putchar (deref key)
        k.print (text "' into C64 keyboard buffer.\n")
  | _ => k.print (text "Usage: C64KEY <single char>\n")

def cmdC64enter (k : C64) : C64 :=
  (k.injectKey returnKey).print (text "Injected RETURN into C64 keyboard buffer.\n")

namespace Shell

def screenCodeToAscii (sc : Byte) : Byte :=
  let masked := sc &&& 0x7F
  let base := if masked > 63 then masked - 64 else masked
  if base = 0 then 0x40
  else if base ≥ 1 ∧ base ≤ 26 then 0x41 + (base - 1)
  else if base = 27 then 0x5B
  else if base = 28 then 0x24
  else if base = 29 then 0x5D
  else if base = 30 then 0x5E
  else if base = 31 then 0x3C
  else if base ≥ 32 ∧ base ≤ 63 then base
  else 0x2E

end Shell

def screenRow (row : Nat) (k : C64) : C64 :=
  let k := k.putchar 0x7C
  let k := Loop.upto
    (fun col k =>
      let (sc, k) := k.readByte (BitVec.ofNat 16 (0x0400 + row * 40 + col))
      k.putchar (Shell.screenCodeToAscii sc))
    40 k
  k.print (text "|\n")

def cmdC64screen (k : C64) : C64 :=
  let k := k.onConsole Console.clear
  let k := k.print (text "C64 screen memory ($0400-$07E7), decoded:\n")
  let k := k.print (text "+----------------------------------------+\n")
  let k := Loop.upto screenRow 25 k
  k.print (text "+----------------------------------------+\n")

end CDosX86
