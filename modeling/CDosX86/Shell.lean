import CDosX86.C64Init
import CDosX86.CpuTest

namespace CDosX86

open LittleEndian

inductive Command where
  | help
  | c64tracedump
  | c64trace
  | c64mem
  | c64screen
  | c64enter
  | c64resume
  | c64key
  | kbdstat
  | c64boot
  | cputest
  | dir
  | type
  | disktest
  | clear
  | peek
  | poke
  | dump
  deriving DecidableEq

-- The order of the comparisons in `shell_execute`.
def commandTable : List (List Byte × Command) :=
  [(text "HELP", .help), (text "C64TRACEDUMP", .c64tracedump), (text "C64TRACE", .c64trace),
    (text "C64MEM", .c64mem), (text "C64SCREEN", .c64screen), (text "C64ENTER", .c64enter),
    (text "C64RESUME", .c64resume), (text "C64KEY", .c64key), (text "KBDSTAT", .kbdstat),
    (text "C64BOOT", .c64boot), (text "CPUTEST", .cputest), (text "DIR", .dir),
    (text "TYPE", .type), (text "DISKTEST", .disktest), (text "CLEAR", .clear),
    (text "PEEK", .peek), (text "POKE", .poke), (text "DUMP", .dump)]

def lookup (name : List Byte) : Option Command :=
  (commandTable.find? fun c => kStrcasecmp name c.1 = 0).map (·.2)

def helpText : List String :=
  ["Available commands:\n",
    "  HELP           - show this list\n",
    "  CLEAR          - clear the screen\n",
    "  PEEK <addr>    - read a byte from memory\n",
    "  POKE <addr> <val> - write a byte to memory\n",
    "  DUMP <addr> <len> - hex dump memory\n",
    "  DIR            - list files on disk\n",
    "  TYPE <file>    - print a text file\n",
    "  DISKTEST       - test raw disk read/write\n",
    "  CPUTEST        - run 6502 interpreter self-tests\n",
    "\n-- C64 Develop/Debug Tools (not for release) --\n",
    "  C64BOOT        - enter the C64 (F12 to exit)\n",
    "  C64TYPE <text> - type a full line into C64, non-interactively\n",
    "  C64KEY <char>  - inject one character into C64\n",
    "  C64ENTER       - inject RETURN into C64\n",
    "  C64RESUME      - continue C64 execution (legacy)\n",
    "  C64SCREEN      - show current C64 screen\n",
    "  C64MEM <a> <l> - dump C64 memory\n",
    "  C64TRACE <n>   - step-trace the C64 CPU\n",
    "Addresses/values: decimal, 0xHEX, or $HEX\n"]

def cmdHelp (k : Console) : Console := helpText.foldl (fun k line => k.print (text line)) k

def cmdPeek (memory : BitVec 32 → Byte) (tokens : List (List Byte)) (k : Console) : Console :=
  match tokens with
  | _ :: a :: _ =>
      match parseNumber a with
      | some addr =>
          let val := (memory addr).setWidth 32
          let k := (k.print (text "[")).printHex addr
          let k := (k.print (text "] = ")).printHex val
          ((k.print (text " (")).printDec val).print (text ")\n")
      | none => k.print (text "Bad address\n")
  | _ => k.print (text "Usage: PEEK <addr>\n")

def cmdKbdstat (kb : Keyboard) (k : Console) : Console :=
  let k := (k.print (text "Handler calls: ")).printDec kb.handlerCallCount
  let k := (k.print (text "\nLast scancode: $")).printHex (kb.lastScancode.setWidth 32)
  let k := k.print (text "\nRecent history (oldest to newest): ")
  let k := Loop.upto (fun i k => (k.printHex ((kb.history i).setWidth 32)).putchar space) 64 k
  k.putchar newline

def cmdClear (k : Console) : Console := k.clear.print (text "READY.\n")

def FsEntry.bytes (e : FsEntry) : List Byte :=
  e.nameBytes ++ (encode 4 e.startLba.toNat ++ encode 4 e.length.toNat)

-- The bytes that lie in memory from the name of entry `i` on.
def namePointer (behindHeader : List Byte) (h : FsHeader) (i : Fin 21) : List Byte :=
  ((List.finRange 21).drop i).flatMap (fun j => (h.entries j).bytes) ++ behindHeader

def dirPrintEntry (behindHeader : List Byte) (h : FsHeader) (i : Fin 21) (k : Console) : Console :=
  let k := (k.print (text "  ")).print (cString (namePointer behindHeader h i))
  ((k.print (text "  ")).printDec (h.entries i).length).print (text " bytes\n")

namespace Kernel

section

variable {δ : Type}

def cmdPoke (tokens : List (List Byte)) (k : Kernel δ) : Kernel δ :=
  match tokens with
  | _ :: a :: v :: _ =>
      match parseNumber a, parseNumber v with
      | some addr, some val =>
          let k := { k with memory := Function.update k.memory addr (val.setWidth 8) }
          k.print (text "OK\n")
      | _, _ => k.print (text "Bad address or value\n")
  | _ => k.print (text "Usage: POKE <addr> <val>\n")

def resumeMaxSteps : Nat := 5000000

def resumeStart (k : Kernel δ) : Kernel δ :=
  let k := k.print (text "Resuming... (running live -- type on your keyboard!)\n")
  k.onKeyboard (Keyboard.setC64Mode true)

def resumeStep (steps : Nat) (k : C64) : C64 :=
  if (steps + 1) % 1000 = 0 then k.step.irq else k.step

def resumeLoop : Nat → Nat → C64 → Nat × C64
  | 0, steps, k => (steps, k)
  | n + 1, steps, k =>
      if k.cpu.halted then (steps, k) else resumeLoop n (steps + 1) (resumeStep steps k)

def resumeEnd (steps : Nat) (k : Kernel δ) : Kernel δ :=
  let k := k.onKeyboard (Keyboard.setC64Mode false)
  let cpu := k.c64.cpu
  let k := (k.print (text "Stopped after ")).printDec (BitVec.ofNat 32 steps)
  let k := k.print (text " steps.\n")
  let k := (k.print (text "  PC: $")).printHex (cpu.pc.setWidth 32)
  let k := (k.print (text "  A: ")).printDec (cpu.a.setWidth 32)
  let k := (k.print (text "  X: ")).printDec (cpu.x.setWidth 32)
  let k := (k.print (text "  Y: ")).printDec (cpu.y.setWidth 32)
  let k := ((k.print (text "  SP: ")).printDec (cpu.sp.setWidth 32)).putchar newline
  if cpu.halted then
    let (opcode, c64) := k.c64.readByte (cpu.pc - 1)
    let k := { k with c64 := c64 }
    let k := (k.print (text "  Halted -- opcode $")).printHex (opcode.setWidth 32)
    ((k.print (text " at PC-1: $")).printHex (cpu.pc.setWidth 32 - 1)).putchar newline
  else k

def cmdC64resume (k : Kernel δ) : Kernel δ :=
  let k := k.resumeStart
  let (steps, c64) := resumeLoop resumeMaxSteps 0 k.c64
  { k with c64 := c64 }.resumeEnd steps

end

end Kernel

end CDosX86
