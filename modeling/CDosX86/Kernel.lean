import CDosX86.C64Commands
import CDosX86.Fs
import CDosX86.Keyboard

namespace CDosX86

structure Pic where
  mask1 : Byte
  mask2 : Byte

namespace Pic

def setMask (irqLine : Nat) (pic : Pic) : Pic :=
  if irqLine < 8 then { pic with mask1 := pic.mask1 ||| (1 : Byte) <<< irqLine }
  else { pic with mask2 := pic.mask2 ||| (1 : Byte) <<< (irqLine - 8) }

def clearMask (irqLine : Nat) (pic : Pic) : Pic :=
  if irqLine < 8 then { pic with mask1 := pic.mask1 &&& ~~~((1 : Byte) <<< irqLine) }
  else { pic with mask2 := pic.mask2 &&& ~~~((1 : Byte) <<< (irqLine - 8)) }

def masked (irqLine : Nat) (pic : Pic) : Bool :=
  if irqLine < 8 then pic.mask1 >>> irqLine &&& 1 ≠ 0 else pic.mask2 >>> (irqLine - 8) &&& 1 ≠ 0

end Pic

-- `behindHeader` is what the linker put behind the static `header` of fs.c, `memory` the address
-- space as PEEK, POKE and DUMP see it.
structure Kernel (δ : Type) where
  c64 : C64
  fs : Fs
  behindHeader : List Byte
  keyboard : Keyboard
  pic : Pic
  memory : BitVec 32 → Byte
  lineBuf : List Byte
  dev : δ

namespace C64

@[simp] theorem exitRequested_withMem (m : C64Mem) (k : C64) :
    (k.withMem m).exitRequested = k.exitRequested := by
  rw [withMem]

@[simp] theorem exitRequested_onConsole (f : Console → Console) (k : C64) :
    (k.onConsole f).exitRequested = k.exitRequested := by
  rw [onConsole, exitRequested_withMem]

end C64

namespace Kernel

variable {δ : Type}

def onC64 (f : C64 → C64) (k : Kernel δ) : Kernel δ := { k with c64 := f k.c64 }

def onConsole (f : Console → Console) (k : Kernel δ) : Kernel δ := k.onC64 (C64.onConsole f)

def print (s : List Byte) (k : Kernel δ) : Kernel δ := k.onConsole (Console.print s)

def printDec (val : BitVec 32) (k : Kernel δ) : Kernel δ := k.onConsole (Console.printDec val)

def printHex (val : BitVec 32) (k : Kernel δ) : Kernel δ := k.onConsole (Console.printHex val)

def putchar (c : Byte) (k : Kernel δ) : Kernel δ := k.onConsole (Console.putchar c)

def onKeyboard (f : Keyboard → Keyboard) (k : Kernel δ) : Kernel δ :=
  { k with keyboard := f k.keyboard }

def onPic (f : Pic → Pic) (k : Kernel δ) : Kernel δ := { k with pic := f k.pic }

-- Proved by rewriting and not by `rfl`, so that fields are compared without running a command.
@[simp] theorem c64_onC64 (f : C64 → C64) (k : Kernel δ) : (k.onC64 f).c64 = f k.c64 := by
  rw [onC64]

@[simp] theorem dev_onC64 (f : C64 → C64) (k : Kernel δ) : (k.onC64 f).dev = k.dev := by
  rw [onC64]

@[simp] theorem fs_onC64 (f : C64 → C64) (k : Kernel δ) : (k.onC64 f).fs = k.fs := by
  rw [onC64]

@[simp] theorem keyboard_onC64 (f : C64 → C64) (k : Kernel δ) :
    (k.onC64 f).keyboard = k.keyboard := by
  rw [onC64]

@[simp] theorem pic_onC64 (f : C64 → C64) (k : Kernel δ) : (k.onC64 f).pic = k.pic := by
  rw [onC64]

@[simp] theorem lineBuf_onC64 (f : C64 → C64) (k : Kernel δ) : (k.onC64 f).lineBuf = k.lineBuf := by
  rw [onC64]

@[simp] theorem dev_onKeyboard (f : Keyboard → Keyboard) (k : Kernel δ) :
    (k.onKeyboard f).dev = k.dev := by
  rw [onKeyboard]

@[simp] theorem pic_onKeyboard (f : Keyboard → Keyboard) (k : Kernel δ) :
    (k.onKeyboard f).pic = k.pic := by
  rw [onKeyboard]

@[simp] theorem pic_onPic (f : Pic → Pic) (k : Kernel δ) : (k.onPic f).pic = f k.pic := by
  rw [onPic]

@[simp] theorem c64_onPic (f : Pic → Pic) (k : Kernel δ) : (k.onPic f).c64 = k.c64 := by
  rw [onPic]

@[simp] theorem dev_onPic (f : Pic → Pic) (k : Kernel δ) : (k.onPic f).dev = k.dev := by
  rw [onPic]

@[simp] theorem keyboard_onPic (f : Pic → Pic) (k : Kernel δ) :
    (k.onPic f).keyboard = k.keyboard := by
  rw [onPic]

@[simp] theorem onConsole_eq (f : Console → Console) (k : Kernel δ) :
    k.onConsole f = k.onC64 (C64.onConsole f) := by
  rw [onConsole]

@[simp] theorem print_eq (s : List Byte) (k : Kernel δ) :
    k.print s = k.onC64 (C64.onConsole (Console.print s)) := by
  rw [print, onConsole]

@[simp] theorem printDec_eq (val : BitVec 32) (k : Kernel δ) :
    k.printDec val = k.onC64 (C64.onConsole (Console.printDec val)) := by
  rw [printDec, onConsole]

@[simp] theorem printHex_eq (val : BitVec 32) (k : Kernel δ) :
    k.printHex val = k.onC64 (C64.onConsole (Console.printHex val)) := by
  rw [printHex, onConsole]

@[simp] theorem putchar_eq (c : Byte) (k : Kernel δ) :
    k.putchar c = k.onC64 (C64.onConsole (Console.putchar c)) := by
  rw [putchar, onConsole]

end Kernel

end CDosX86
