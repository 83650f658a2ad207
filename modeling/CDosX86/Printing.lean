import CDosX86.ConsoleCells
import CDosX86.Kernel

namespace CDosX86

def decText (val : BitVec 32) : List Byte := if val = 0 then [0x30] else decDigits 10 val

def hexText (val : BitVec 32) : List Byte := text "0x" ++ hexDigits val 8

theorem Console.printDec_eq_print (val : BitVec 32) (k : Console) :
    k.printDec val = k.print (decText val) := by
  unfold Console.printDec decText
  split <;> rfl

theorem Console.printHex_eq_print (val : BitVec 32) (k : Console) :
    k.printHex val = k.print (hexText val) :=
  (k.print_append _ _).symm

theorem Console.upto_print (s : Nat → List Byte) (n : Nat) (k : Console) :
    Loop.upto (fun i k => k.print (s i)) n k = k.print ((List.range n).flatMap s) := by
  induction n with
  | zero => rfl
  | succ n ih =>
      rw [Loop.upto, ih, ← Console.print_append, List.range_succ, List.flatMap_append,
        List.flatMap_singleton]

theorem C64Mem.read_withConsole (addr : Word) (con : Console) (m : C64Mem) :
    ({ m with console := con } : C64Mem).read addr =
      ((m.read addr).1, { (m.read addr).2 with console := con }) := by
  rw [read, read, ioRead, ioRead]
  split_ifs <;> rfl

theorem C64Mem.read_console (addr : Word) (m : C64Mem) : (m.read addr).2.console = m.console := by
  rw [read, ioRead]
  split_ifs <;> rfl

namespace C64

theorem putchar_eq_print (c : Byte) (k : C64) : k.putchar c = k.print [c] := rfl

theorem printDec_eq_print (val : BitVec 32) (k : C64) : k.printDec val = k.print (decText val) := by
  rw [printDec, Console.printDec_eq_print]
  rfl

theorem printHex_eq_print (val : BitVec 32) (k : C64) : k.printHex val = k.print (hexText val) := by
  rw [printHex, Console.printHex_eq_print]
  rfl

theorem print_print (s t : List Byte) (k : C64) : (k.print s).print t = k.print (s ++ t) := by
  rw [print, print, print, mem_withMem, Console.print_append]
  rfl

theorem cpu_print (s : List Byte) (k : C64) : (k.print s).cpu = k.cpu := rfl

theorem trace_print (s : List Byte) (k : C64) :
    (k.print s).machine.trace = k.machine.trace := rfl

theorem cpu_readByte (addr : Word) (k : C64) : (k.readByte addr).2.cpu = k.cpu := rfl

theorem trace_readByte (addr : Word) (k : C64) :
    (k.readByte addr).2.machine.trace = k.machine.trace := rfl

theorem readByte_onConsole (addr : Word) (f : Console → Console) (k : C64) :
    (k.onConsole f).readByte addr =
      ((k.readByte addr).1, (k.readByte addr).2.onConsole f) := by
  have hread := C64Mem.read_withConsole addr (f k.mem.console) k.mem
  have hcon := C64Mem.read_console addr k.mem
  rw [readByte, onConsole, mem_withMem, hread, readByte, onConsole, mem_withMem, hcon]
  rfl

theorem readByte_print (addr : Word) (s : List Byte) (k : C64) :
    (k.print s).readByte addr = ((k.readByte addr).1, (k.readByte addr).2.print s) :=
  readByte_onConsole addr (Console.print s) k

theorem console_readByte (addr : Word) (k : C64) :
    (k.readByte addr).2.mem.console = k.mem.console :=
  C64Mem.read_console addr k.mem

end C64

namespace Kernel

variable {δ : Type}

theorem putchar_eq_print (c : Byte) (k : Kernel δ) : k.putchar c = k.print [c] := rfl

theorem printDec_eq_print (val : BitVec 32) (k : Kernel δ) :
    k.printDec val = k.print (decText val) := by
  have hfun : Console.printDec val = Console.print (decText val) :=
    funext fun con => con.printDec_eq_print val
  rw [printDec, print, hfun]

theorem printHex_eq_print (val : BitVec 32) (k : Kernel δ) :
    k.printHex val = k.print (hexText val) := by
  have hfun : Console.printHex val = Console.print (hexText val) :=
    funext fun con => con.printHex_eq_print val
  rw [printHex, print, hfun]

theorem print_print (s t : List Byte) (k : Kernel δ) :
    (k.print s).print t = k.print (s ++ t) :=
  congrArg (fun c => { k with c64 := c }) (C64.print_print s t k.c64)

theorem c64_print (s : List Byte) (k : Kernel δ) : (k.print s).c64 = k.c64.print s := rfl

end Kernel

end CDosX86
