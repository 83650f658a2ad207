import CDosX86.Interrupts

namespace CDosX86

-- A key that gives the character `c` when no shift key is down.
def Types (scancode c : Byte) : Prop :=
  scancode ≠ f12Scancode ∧ scancode &&& 0x80 = 0 ∧
    ¬ (scancode = lshiftPress ∨ scancode = rshiftPress) ∧ ¬ scancode ≥ 128 ∧
      scancodeAscii.getD scancode.toNat 0 = c ∧ c ≠ 0

instance (scancode c : Byte) : Decidable (Types scancode c) := inferInstanceAs (Decidable (_ ∧ _))

theorem Types.handlerChar {scancode c : Byte} (h : Types scancode c) {kb : Keyboard}
    (hshift : kb.shiftPressed = false) :
    kb.handlerChar scancode = (c, kb.record scancode) := by
  obtain ⟨hf12, hmake, hnoshift, hlow, hascii, -⟩ := h
  have hplain : (kb.record scancode).ascii scancode = c := by
    rw [Keyboard.ascii, Keyboard.record, hshift, if_neg (by decide), hascii]
  rw [Keyboard.handlerChar, if_neg hf12, if_neg (not_not.mpr hmake), if_neg hnoshift, if_neg hlow,
    hplain]

def enterKey : Byte := 0x1C

-- The kernel that a command of the line gets.
def entered {δ : Type} (k : Kernel δ) : Kernel δ :=
  Kernel.putchar newline { k with keyboard := k.keyboard.record enterKey }

theorem Kernel.entersCommand_enterKey {δ : Type} {k : Kernel δ} {c : Command}
    (hshift : k.keyboard.shiftPressed = false) (hmode : k.keyboard.c64ModeActive = false)
    (hline : commandOf k.lineBuf = some c) : k.entersCommand enterKey = some (c, entered k) := by
  have hkey : Types enterKey newline := by decide
  rw [entersCommand, hkey.handlerChar hshift, hline]
  exact if_pos ⟨rfl, hmode⟩

-- A scancode that IRQ1 brings, and what the polls of a session that it starts will find.
abbrev Event := Byte × List (Option Byte)

namespace Kernel

variable {δ : Type} [Ports δ]

def runKeys : List Event → Kernel δ → Option (Kernel δ)
  | [], k => some k
  | event :: events, k =>
      match k.keyboardHandler event.1 event.2 with
      | some k => runKeys events k
      | none => none

theorem runKeys_cons {event : Event} {events : List Event} {k k' : Kernel δ}
    (h : k.runKeys (event :: events) = some k') :
    ∃ k₁, k.keyboardHandler event.1 event.2 = some k₁ ∧ k₁.runKeys events = some k' := by
  rw [runKeys] at h
  split at h
  · next k₁ hone => exact ⟨k₁, hone, h⟩
  · cases h

theorem runKeys_concat {event : Event} {events : List Event} {k₀ k k' : Kernel δ}
    (hrun : k₀.runKeys events = some k) (hkey : k.keyboardHandler event.1 event.2 = some k') :
    k₀.runKeys (events ++ [event]) = some k' := by
  induction events generalizing k₀ with
  | nil =>
      cases hrun
      rw [List.nil_append, runKeys, hkey]
      rfl
  | cons first events ih =>
      obtain ⟨k₁, hone, hrest⟩ := runKeys_cons hrun
      rw [List.cons_append, runKeys, hone]
      exact ih hrest

-- `k` is `k₀` with `line` in the line buffer, as keys that give characters leave it.
structure Typed (k₀ k : Kernel δ) (line : List Byte) : Prop where
  lineBuf : k.lineBuf = line
  unshifted : k.keyboard.shiftPressed = false
  toShell : k.keyboard.c64ModeActive = false
  f12Pressed : k.keyboard.f12Pressed = k₀.keyboard.f12Pressed
  pic : k.pic = k₀.pic
  dev : k.dev = k₀.dev

theorem typed_booted (h : Hardware δ) : Typed (booted h) (booted h) [] := by
  refine ⟨?_, ?_, ?_, rfl, rfl, rfl⟩
  · simp [booted, shellInit, shellPrompt]
  · rw [keyboard_booted]
    rfl
  · rw [keyboard_booted]
    rfl

theorem Typed.key {k₀ k : Kernel δ} {line : List Byte} (h : Typed k₀ k line) {scancode c : Byte}
    (hkey : Types scancode c) (hnewline : c ≠ newline) (hback : c ≠ 0x08)
    (hroom : line.length < lineMax - 1) (polls : List (Option Byte)) :
    ∃ k', k.keyboardHandler scancode polls = some k' ∧ Typed k₀ k' (line ++ [c]) := by
  obtain ⟨hline, hshift, hshell, hf12, hpic, hdev⟩ := h
  have hchar := hkey.handlerChar hshift
  have hmode : (k.keyboard.record scancode).c64ModeActive = false := hshell
  have hrun : k.keyboardHandler scancode polls = some (putchar c
      { k with keyboard := k.keyboard.record scancode, lineBuf := line ++ [c] }) := by
    rw [keyboardHandler, hchar]
    dsimp only
    rw [if_pos hkey.2.2.2.2.2, hmode, if_neg (by decide), shellInputChar, if_neg hnewline,
      if_neg hback]
    dsimp only
    rw [hline, if_pos hroom]
  refine ⟨_, hrun, ?_, ?_, ?_, ?_, ?_, ?_⟩
  · simp
  · simpa [Keyboard.record] using hshift
  · simpa [Keyboard.record] using hshell
  · simpa [Keyboard.record] using hf12
  · simpa using hpic
  · simpa using hdev

def addsToLine (p : Byte × Byte) : Bool := Types p.1 p.2 ∧ p.2 ≠ newline ∧ p.2 ≠ 0x08

theorem Typed.keys (keys : List (Byte × Byte)) (hkeys : keys.all addsToLine = true)
    {k₀ k : Kernel δ} {line : List Byte} (hroom : line.length + keys.length < lineMax)
    (h : Typed k₀ k line) :
    ∃ k', k.runKeys (keys.map fun p => (p.1, [])) = some k' ∧
      Typed k₀ k' (line ++ keys.map (·.2)) := by
  induction keys generalizing k line with
  | nil => exact ⟨k, rfl, by simpa using h⟩
  | cons p keys ih =>
      rw [List.all_cons, Bool.and_eq_true] at hkeys
      obtain ⟨hfirst, hrest⟩ := hkeys
      obtain ⟨hkey, hnewline, hback⟩ := of_decide_eq_true hfirst
      rw [List.length_cons] at hroom
      obtain ⟨k₁, hone, h₁⟩ := h.key hkey hnewline hback (by rw [lineMax] at *; omega) []
      obtain ⟨k', hrun, h'⟩ := ih hrest (by simp; omega) h₁
      refine ⟨k', ?_, by simpa using h'⟩
      rw [List.map_cons, runKeys, hone]
      exact hrun

end Kernel

end CDosX86
