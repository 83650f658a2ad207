import CDosX86.LittleEndian
import CDosX86.PromptInvariant

namespace CDosX86

open LittleEndian

-- The CRT controller of the VGA: an index port and a data port.
structure Crtc where
  index : Byte
  registers : Byte → Byte

namespace Crtc

def outb (port : BitVec 16) (v : Byte) (c : Crtc) : Crtc :=
  if port = 0x3D4 then { c with index := v }
  else if port = 0x3D5 then { c with registers := Function.update c.registers c.index v }
  else c

def cursorHigh : Byte := 0x0E

def cursorLow : Byte := 0x0F

-- The cell that the controller makes blink.
def location (c : Crtc) : BitVec 16 := c.registers cursorHigh ++ c.registers cursorLow

-- The four port writes of `update_cursor` and of `console_set_hw_cursor`.
def program (pos : BitVec 16) (c : Crtc) : Crtc :=
  let c := (c.outb 0x3D4 0x0F).outb 0x3D5 ((pos &&& 0xFF).setWidth 8)
  (c.outb 0x3D4 0x0E).outb 0x3D5 ((pos >>> 8 &&& 0xFF).setWidth 8)

theorem registers_program (pos : BitVec 16) (c : Crtc) :
    (c.program pos).registers =
      Function.update (Function.update c.registers cursorLow ((pos &&& 0xFF).setWidth 8)) cursorHigh
        ((pos >>> 8 &&& 0xFF).setWidth 8) := rfl

theorem location_program (pos : BitVec 16) (c : Crtc) : (c.program pos).location = pos := by
  have hlow : (c.program pos).registers cursorLow = (pos &&& 0xFF).setWidth 8 := by
    rw [registers_program, Function.update_of_ne (by decide), Function.update_self]
  have hhigh : (c.program pos).registers cursorHigh = (pos >>> 8 &&& 0xFF).setWidth 8 := by
    rw [registers_program, Function.update_self]
  rw [location, hlow, hhigh, high_byte, low_byte,
    BitVec.extractLsb'_append_extractLsb'_eq_extractLsb' (by decide : 8 = 0 + 8)]
  exact BitVec.extractLsb'_eq_self

end Crtc

theorem location_updateCursor (con : Console) (c : Crtc) :
    (c.program (BitVec.ofNat 16 (con.cursorPos / 2))).location = con.updateCursor.hwCursor :=
  Crtc.location_program _ c

-- The hardware cursor blinks where the next character will appear.
def Console.InStep (con : Console) : Prop := con.hwCursor = BitVec.ofNat 16 (con.cursorPos / 2)

namespace Console

theorem InStep.updateCursor (con : Console) : con.updateCursor.InStep := rfl

theorem InStep.putchar (c : Byte) (con : Console) : (con.putchar c).InStep := .updateCursor _

theorem InStep.print {s : List Byte} (hs : s ≠ []) (con : Console) : (con.print s).InStep := by
  rw [← List.dropLast_append_getLast hs, print_append]
  exact .putchar _ _

theorem InStep.backspace {con : Console} (h : con.InStep) : con.backspace.InStep := by
  rw [Console.backspace]
  split_ifs
  · exact h
  · exact .updateCursor _

theorem InStep.markLineStart {con : Console} (h : con.InStep) : con.markLineStart.InStep := h

end Console

namespace Kernel

variable {δ : Type} [Ports δ]

omit [Ports δ] in
theorem inStep_shellPrompt (k : Kernel δ) : k.shellPrompt.console.InStep :=
  (Console.InStep.print (by decide) k.console).markLineStart

theorem inStep_shellInputChar {k k' : Kernel δ} (h : k.console.InStep) {c : Byte}
    {polls : List (Option Byte)} (hrun : k.shellInputChar c polls = some k') :
    k'.console.InStep := by
  rw [shellInputChar] at hrun
  split_ifs at hrun
  · split at hrun
    · cases hrun
      exact inStep_shellPrompt _
    · cases hrun
  · cases hrun
    exact h.backspace
  · cases hrun
    exact h
  · cases hrun
    exact .putchar c _
  · cases hrun
    exact h

end Kernel

open Kernel

variable {δ : Type} [Ports δ]

theorem Serial.inStep {h : Hardware δ} {allowed : Command → Prop} {p : MainPoint} {k : Kernel δ}
    (hk : Serial h allowed p k) (hp : p = .hlt) : k.console.InStep := by
  induction hk with
  | start => cases hp
  | @main p k _ ih =>
      cases p with
      | shellInit => exact inStep_shellPrompt _
      | hlt => exact ih rfl
      | _ => cases hp
  | @key p k k' scancode polls hk _ _ hrun ih =>
      obtain rfl | ⟨-, hinput⟩ := keyboardHandler_cases hk.consistent.mode hrun
      · exact ih hp
      · exact inStep_shellInputChar
          (k := { k with keyboard := (k.keyboard.handlerChar scancode).2 }) (ih hp) hinput

-- What one types stands right before the cell that blinks.
structure BlinksAfter (typed : List Byte) (con : Console) : Prop where
  next : con.hwCursor.toNat = con.cursorPos / 2
  onScreen : con.hwCursor.toNat < vgaCols * vgaRows
  room : typed.length ≤ con.hwCursor.toNat
  cell : ∀ i, (h : i < typed.length) →
    con.vga (con.hwCursor.toNat - typed.length + i) = attrChar typed[i]

theorem ShowsLine.blinksAfter {typed : List Byte} {con : Console} (h : ShowsLine typed con)
    (hstep : con.InStep) : BlinksAfter typed con := by
  have hcursor := h.cursor
  have hlt := h.lt
  have heven := h.even
  have hcell : con.cursorPos / 2 = con.lineStart / 2 + typed.length := by omega
  have hnext : con.hwCursor.toNat = con.cursorPos / 2 := by
    rw [hstep, BitVec.toNat_ofNat]
    omega
  refine ⟨hnext, ?_, ?_, fun i hi => ?_⟩
  · simp only [vgaCols, vgaRows]
    omega
  · omega
  · rw [hnext, hcell, Nat.add_sub_cancel]
    exact h.cell i hi

-- Each write of the guest to its screen moves the hardware cursor, but it is back at every prompt.
theorem cursor_after_line {h : Hardware δ} {k : Kernel δ} (hk : Serial h notPoke .hlt k) :
    BlinksAfter k.lineBuf k.console :=
  (hk.consistent.shown rfl).blinksAfter (hk.inStep rfl)

-- The next line is typed on row 12, behind the report of CPUTEST and the prompt.
theorem cursor_after_line_typed :
    ∃ k, (booted (Hardware.plain (IdealDrive.holding []))).runKeys (cputestKeys ++ dirKeys) =
      some k ∧ BlinksAfter (text "dir") k.console ∧ k.console.hwCursor = 12 * 80 + 7 + 3 := by
  have hrun : ((booted (Hardware.plain (IdealDrive.holding []))).runKeys
      (cputestKeys ++ dirKeys)).map (fun k => (k.lineBuf, k.console.hwCursor)) =
        some (text "dir", 12 * 80 + 7 + 3) := by decide +kernel
  obtain ⟨k, hkeys, hleft⟩ := Option.map_eq_some_iff.mp hrun
  obtain ⟨hline, hcursor⟩ := Prod.mk.inj hleft
  have hblinks := cursor_after_line (serial_typed (by decide +kernel) hkeys)
  rw [hline] at hblinks
  exact ⟨k, hkeys, hblinks, hcursor⟩

end CDosX86
