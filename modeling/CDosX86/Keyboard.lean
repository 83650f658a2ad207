import CDosX86.Console

namespace CDosX86

structure Keyboard where
  shiftPressed : Bool
  c64ModeActive : Bool
  f12Pressed : Bool
  handlerCallCount : BitVec 32
  lastScancode : Byte
  scancodeHistory : Fin 64 → Byte
  scancodeHistoryPos : Nat

-- Both tables have 128 entries; the ones not written here are 0.
def scancodeAscii : List Byte :=
  [0, 27] ++ text "1234567890-=" ++ [0x08, 0x09] ++ text "qwertyuiop[]" ++ [newline, 0] ++
    text "asdfghjkl;" ++ [0x27, 0x60, 0, 0x5C] ++ text "zxcvbnm,./" ++ [0] ++ text "*" ++
      [0, 0x20, 0]

def scancodeAsciiShift : List Byte :=
  [0, 27] ++ text "!@#$%^&*()_+" ++ [0x08, 0x09] ++ text "QWERTYUIOP" ++ [0x7B, 0x7D, newline, 0] ++
    text "ASDFGHJKL:" ++ [0x22, 0x7E, 0, 0x7C] ++ text "ZXCVBNM<>?" ++ [0] ++ text "*" ++
      [0, 0x20, 0]

def lshiftPress : Byte := 0x2A

def rshiftPress : Byte := 0x36

def lshiftRelease : Byte := 0xAA

def rshiftRelease : Byte := 0xB6

def f12Scancode : Byte := 0x58

namespace Keyboard

def zero : Keyboard where
  shiftPressed := false
  c64ModeActive := false
  f12Pressed := false
  handlerCallCount := 0
  lastScancode := 0
  scancodeHistory _ := 0
  scancodeHistoryPos := 0

def setC64Mode (active : Bool) (kb : Keyboard) : Keyboard := { kb with c64ModeActive := active }

def historySlot (index : Nat) : Fin 64 := ⟨index % 64, Nat.mod_lt index (by decide)⟩

def history (index : Nat) (kb : Keyboard) : Byte := kb.scancodeHistory (historySlot index)

def record (scancode : Byte) (kb : Keyboard) : Keyboard :=
  { kb with
    handlerCallCount := kb.handlerCallCount + 1
    lastScancode := scancode
    scancodeHistory :=
      Function.update kb.scancodeHistory (historySlot kb.scancodeHistoryPos) scancode
    scancodeHistoryPos := kb.scancodeHistoryPos + 1 }

def ascii (scancode : Byte) (kb : Keyboard) : Byte :=
  if kb.shiftPressed then scancodeAsciiShift.getD scancode.toNat 0
  else scancodeAscii.getD scancode.toNat 0

-- `keyboard_handler` up to the test `c != 0`; the scancode is what port 0x60 gives.
def handlerChar (scancode : Byte) (kb : Keyboard) : Byte × Keyboard :=
  let kb := kb.record scancode
  if scancode = f12Scancode then (0, { kb with f12Pressed := true })
  else if scancode &&& 0x80 ≠ 0 then
    if scancode = lshiftRelease ∨ scancode = rshiftRelease then
      (0, { kb with shiftPressed := false })
    else (0, kb)
  else if scancode = lshiftPress ∨ scancode = rshiftPress then
    (0, { kb with shiftPressed := true })
  else if scancode ≥ 128 then (0, kb)
  else (kb.ascii scancode, kb)

def f12WasPressed (kb : Keyboard) : Bool × Keyboard :=
  if kb.f12Pressed then (true, { kb with f12Pressed := false }) else (false, kb)

-- `none` is a poll that finds bit 0 of the status port clear.
def pollChar (waiting : Option Byte) (kb : Keyboard) : Byte × Keyboard :=
  match waiting with
  | none => (0, kb)
  | some scancode =>
      if scancode &&& 0x80 ≠ 0 then
        if scancode = lshiftRelease ∨ scancode = rshiftRelease then
          (0, { kb with shiftPressed := false })
        else (0, kb)
      else if scancode = lshiftPress ∨ scancode = rshiftPress then
        (0, { kb with shiftPressed := true })
      else if scancode = f12Scancode then (0, { kb with f12Pressed := true })
      else if scancode ≥ 128 then (0, kb)
      else (kb.ascii scancode, kb)

end Keyboard

end CDosX86
