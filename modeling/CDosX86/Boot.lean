import CDosX86.ShellExecute

namespace CDosX86

-- What the kernel finds when the loader hands over; `_start` clears its own variables.
structure Hardware (δ : Type) where
  vga : Nat → Cell
  hwCursor : BitVec 16
  pic : Pic
  memory : BitVec 32 → Byte
  behindHeader : List Byte
  dev : δ

def Pic.maskAllButKeyboard (pic : Pic) : Pic := (Loop.upto Pic.setMask 16 pic).clearMask 1

def Hardware.plain {δ : Type} (d : δ) : Hardware δ where
  vga _ := blank
  hwCursor := 0
  pic := { mask1 := 0, mask2 := 0 }
  memory _ := 0
  behindHeader := []
  dev := d

namespace Kernel

variable {δ : Type}

def loaded (h : Hardware δ) : Kernel δ where
  c64 :=
    { machine :=
        { Machine.zero with
          mem :=
            { ram := fun _ => 0
              rasterCounter := 0
              console := { vga := h.vga, cursorPos := 0, lineStart := 0, hwCursor := h.hwCursor } } }
      exitRequested := false
      injectCallCount := 0 }
  fs := Fs.zero
  behindHeader := h.behindHeader
  keyboard := Keyboard.zero
  pic := h.pic
  memory := h.memory
  lineBuf := []
  dev := h.dev

variable [Ports δ]

def ataInit (k : Kernel δ) : Kernel δ := { k with dev := CDosX86.ataInit k.dev }

def printReady (k : Kernel δ) : Kernel δ := k.print (text "READY.\n")

-- `kernel_main` up to its loop, as it runs while no key is pressed.
def booted (h : Hardware δ) : Kernel δ :=
  let k := (loaded h).onPic Pic.maskAllButKeyboard
  ((k.onConsole Console.init).ataInit.printReady).shellInit

theorem keyboard_booted (h : Hardware δ) : (booted h).keyboard = Keyboard.zero := by
  simp [booted, shellInit, shellPrompt, printReady, ataInit, loaded]

theorem dev_booted (h : Hardware δ) : (booted h).dev = CDosX86.ataInit h.dev := by
  simp [booted, shellInit, shellPrompt, printReady, ataInit, loaded]

end Kernel

end CDosX86
