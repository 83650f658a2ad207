import CDosX86.LineEditor
import CDosX86.SerialRuns
import Mathlib.Data.List.GetD

namespace CDosX86

def typeable (c : Byte) : Bool :=
  (c ∈ scancodeAscii ∨ c ∈ scancodeAsciiShift) ∧ c ≠ 0 ∧ c ≠ newline ∧ c ≠ backspaceKey

def Pic.keyboardOnly : Pic := { mask1 := 0xFD, mask2 := 0xFF }

theorem upto_setMask (pic : Pic) : Loop.upto Pic.setMask 16 pic = ⟨0xFF, 0xFF⟩ := by
  have hbits : ∀ b : Byte,
      b ||| 0x01 ||| 0x02 ||| 0x04 ||| 0x08 ||| 0x10 ||| 0x20 ||| 0x40 ||| 0x80 = 0xFF := by
    decide +kernel
  simpa [Loop.upto, Pic.setMask] using ⟨hbits pic.mask1, hbits pic.mask2⟩

theorem clearMask_all : Pic.clearMask keyboardIrq ⟨0xFF, 0xFF⟩ = Pic.keyboardOnly := rfl

-- What C64BOOT does to the mask of the keyboard's line, and back.
theorem clearMask_setMask_keyboardOnly :
    (Pic.keyboardOnly.setMask 1).clearMask 1 = Pic.keyboardOnly := rfl

theorem pollChar_c64ModeActive (waiting : Option Byte) (kb : Keyboard) :
    (kb.pollChar waiting).2.c64ModeActive = kb.c64ModeActive := by
  cases waiting with
  | none => rfl
  | some scancode =>
      rw [Keyboard.pollChar]
      split_ifs <;> rfl

theorem handlerChar_c64ModeActive (scancode : Byte) (kb : Keyboard) :
    (kb.handlerChar scancode).2.c64ModeActive = kb.c64ModeActive := by
  rw [Keyboard.handlerChar]
  split_ifs <;> rfl

theorem handlerChar_mem (scancode : Byte) (kb : Keyboard) :
    (kb.handlerChar scancode).1 = 0 ∨ (kb.handlerChar scancode).1 ∈ scancodeAscii ∨
      (kb.handlerChar scancode).1 ∈ scancodeAsciiShift := by
  have hentry : ∀ (table : List Byte) i, table.getD i 0 = 0 ∨ table.getD i 0 ∈ table := by
    intro table i
    rcases Nat.lt_or_ge i table.length with hin | hout
    · rw [List.getD_eq_getElem table 0 hin]
      exact Or.inr (List.getElem_mem hin)
    · exact Or.inl (List.getD_eq_default table 0 hout)
  rw [Keyboard.handlerChar]
  split_ifs
  · exact Or.inl rfl
  · exact Or.inl rfl
  · exact Or.inl rfl
  · exact Or.inl rfl
  · exact Or.inl rfl
  · dsimp only [Keyboard.ascii]
    split_ifs
    · exact (hentry scancodeAsciiShift _).imp_right Or.inr
    · exact (hentry scancodeAscii _).imp_right Or.inl

theorem bootRound_c64ModeActive (waiting : Option Byte) (s : BootState) :
    (bootRound waiting s).2.keyboard.c64ModeActive = s.keyboard.c64ModeActive := by
  have hrun : ∀ s : BootState, (bootRun s).keyboard = s.keyboard := by
    intro s
    rw [bootRun]
    dsimp only
    split_ifs <;> rfl
  have hcheck : ∀ s : BootState,
      (bootCheck s).2.keyboard.c64ModeActive = s.keyboard.c64ModeActive := by
    intro s
    rw [bootCheck, Keyboard.f12WasPressed]
    split_ifs <;> rfl
  rw [bootRound, hcheck, bootPoll]
  dsimp only
  rw [pollChar_c64ModeActive, hrun]

theorem BootLoops.c64ModeActive {polls rest : List (Option Byte)} {s s' : BootState} {e : BootExit}
    (h : BootLoops polls s e rest s') : s'.keyboard.c64ModeActive = s.keyboard.c64ModeActive := by
  induction h with
  | halted _ => rfl
  | @exit waiting _ s _ _ _ hround =>
      have hmode := bootRound_c64ModeActive waiting s
      rwa [hround] at hmode
  | @round waiting _ _ s _ _ _ _ hround _ ih =>
      have hmode := bootRound_c64ModeActive waiting s
      rw [hround] at hmode
      exact ih.trans hmode

theorem Console.InScreen.init (con : Console) : con.init.InScreen := ⟨Nat.zero_lt_succ 3999, rfl⟩

namespace Kernel

variable {δ : Type} [Ports δ]

-- Keys go to the shell, and the keyboard's line is the only one that is not masked.
structure AtPrompt (k : Kernel δ) : Prop where
  mode : k.keyboard.c64ModeActive = false
  pic : k.pic = Pic.keyboardOnly

omit [Ports δ] in
theorem keyboard_bootEnd (e : BootExit) (k : Kernel δ) : (k.bootEnd e).keyboard = k.keyboard := by
  simp only [bootEnd]
  split_ifs
  · simp [onPic]
  · simp [onPic]
  · simp [onPic]

namespace AtPrompt

variable {k k' : Kernel δ}

omit [Ports δ] in
theorem of_undisturbed (h : k.AtPrompt) (hsame : Undisturbed k k') : k'.AtPrompt := by
  obtain ⟨hmode, hpic⟩ := h
  refine ⟨?_, hsame.pic.trans hpic⟩
  rw [hsame.keyboard]
  exact hmode

omit [Ports δ] in
@[simp] theorem onC64 (f : C64 → C64) : (k.onC64 f).AtPrompt ↔ k.AtPrompt := by
  constructor
  · intro h
    exact ⟨by simpa using h.mode, by simpa using h.pic⟩
  · intro h
    exact ⟨by simpa using h.mode, by simpa using h.pic⟩

omit [Ports δ] in
theorem cmdC64resume (h : k.AtPrompt) : k.cmdC64resume.AtPrompt := by
  refine ⟨?_, ?_⟩
  · simp only [Kernel.cmdC64resume, resumeEnd]
    split
    · simp [onKeyboard, Keyboard.setC64Mode]
    · simp [onKeyboard, Keyboard.setC64Mode]
  · rw [pic_cmdC64resume]
    exact h.pic

theorem bootStart (h : k.AtPrompt) : k.bootStart.2.keyboard.c64ModeActive = false ∧
    k.bootStart.2.pic.clearMask 1 = Pic.keyboardOnly := by
  have hinit := h.of_undisturbed (c64Init_undisturbed k)
  have hmode := hinit.mode
  have hpic := hinit.pic
  rw [Kernel.bootStart]
  dsimp only
  split
  · simp [hmode, hpic, Pic.keyboardOnly, Pic.clearMask]
  · simp [hmode, hpic, clearMask_setMask_keyboardOnly]

theorem bootStart_failed (h : k.AtPrompt) (hfail : k.bootStart.1 ≠ 0) :
    k.bootStart.2.AtPrompt := by
  have hinit := h.of_undisturbed (c64Init_undisturbed k)
  rw [Kernel.bootStart] at hfail ⊢
  dsimp only at hfail ⊢
  split_ifs at hfail ⊢
  · simpa using hinit
  · exact absurd rfl hfail

theorem cmdC64boot (h : k.AtPrompt) {polls : List (Option Byte)}
    (hrun : k.cmdC64boot polls = some k') : k'.AtPrompt := by
  obtain ⟨hfail, rfl⟩ | ⟨e, rest, s, hloop, rfl⟩ := cmdC64boot_cases hrun
  · exact h.bootStart_failed hfail
  · obtain ⟨hmode, hpic⟩ := h.bootStart
    have hkeys := (bootLoop_iff.mp hloop).c64ModeActive.trans hmode
    refine ⟨?_, ?_⟩
    · rw [keyboard_bootEnd]
      exact hkeys
    · rw [pic_bootEnd]
      exact hpic

theorem runCommand (h : k.AtPrompt) {c : Command} {tokens : List (List Byte)}
    {polls : List (Option Byte)} (hrun : k.runCommand c tokens polls = some k') :
    k'.AtPrompt := by
  cases c with
  | c64boot => exact h.cmdC64boot hrun
  | c64resume =>
      cases hrun
      exact h.cmdC64resume
  | dir =>
      cases hrun
      exact h.of_undisturbed (cmdDir_undisturbed k)
  | type =>
      cases hrun
      exact h.of_undisturbed (cmdType_undisturbed tokens k)
  | disktest =>
      cases hrun
      exact h.of_undisturbed (cmdDisktest_undisturbed k)
  | poke =>
      cases hrun
      exact h.of_undisturbed (cmdPoke_undisturbed tokens k)
  | _ =>
      rw [Kernel.runCommand, Option.some_inj] at hrun
      rw [← hrun]
      simpa using h

theorem shellExecute (h : k.AtPrompt) {line : List Byte} {polls : List (Option Byte)}
    (hrun : k.shellExecute line polls = some k') : k'.AtPrompt := by
  obtain rfl | rfl | ⟨s, rfl⟩ | ⟨c, -, hrun⟩ := shellExecute_cases hrun
  · simpa using h
  · exact h
  · simpa using h
  · exact h.runCommand hrun

theorem shellInputChar (h : k.AtPrompt) {c : Byte} {polls : List (Option Byte)}
    (hrun : k.shellInputChar c polls = some k') : k'.AtPrompt := by
  have hline : ∀ {k : Kernel δ}, k.AtPrompt → ∀ line, AtPrompt { k with lineBuf := line } :=
    fun h _ => ⟨h.mode, h.pic⟩
  rw [Kernel.shellInputChar] at hrun
  split_ifs at hrun
  · split at hrun
    · next k₁ hexec =>
      have hdone : k₁.AtPrompt := shellExecute (k := k.putchar newline) (by simpa using h) hexec
      cases hrun
      simpa [shellPrompt] using hline hdone []
    · cases hrun
  · cases hrun
    simpa using hline h _
  · cases hrun
    exact h
  · cases hrun
    simpa using hline h _
  · cases hrun
    exact h

end AtPrompt

omit [Ports δ] in
theorem InScreen.backspace {k : Kernel δ} (h : k.InScreen) :
    (k.onConsole Console.backspace).InScreen := by
  refine h.onConsole fun con hcon => ?_
  obtain ⟨hlt, heven⟩ := hcon
  rw [Console.backspace]
  split_ifs with hstart
  · exact ⟨hlt, heven⟩
  · refine ⟨?_, ?_⟩
    · change con.cursorPos - 2 < 4000
      omega
    · change (con.cursorPos - 2) % 2 = 0
      omega

theorem InScreen.shellInputChar {k k' : Kernel δ} (h : k.InScreen) {c : Byte}
    {polls : List (Option Byte)} (hrun : k.shellInputChar c polls = some k') : k'.InScreen := by
  have hline : ∀ {k : Kernel δ}, k.InScreen → ∀ line, InScreen { k with lineBuf := line } :=
    fun h _ => h
  rw [Kernel.shellInputChar] at hrun
  split_ifs at hrun
  · split at hrun
    · next k₁ hexec =>
      cases hrun
      have hdone := InScreen.shellExecute (k := k.putchar newline) (h.print [newline]) hexec
      exact ((hline hdone []).print _).onConsole fun _ hcon => ⟨hcon.lt, hcon.even⟩
    · cases hrun
  · cases hrun
    exact (hline h _).backspace
  · cases hrun
    exact h
  · cases hrun
    exact (hline h _).putchar c
  · cases hrun
    exact h

theorem lineBuf_shellInputChar {k k' : Kernel δ} {c : Byte} {polls : List (Option Byte)}
    (hrun : k.shellInputChar c polls = some k') : k'.lineBuf = edit k.lineBuf c := by
  have hkey : backspaceKey = 0x08 := rfl
  rw [shellInputChar] at hrun
  rw [edit, hkey]
  split_ifs at hrun ⊢ with hnewline hback hpos hroom
  · split at hrun
    · cases hrun
      simp [shellPrompt]
    · cases hrun
  · cases hrun
    simp
  · cases hrun
    have hempty : k.lineBuf = [] := List.length_eq_zero_iff.mp (by omega)
    rw [hempty]
    rfl
  · cases hrun
    simp
  · cases hrun
    rfl

theorem keyboardHandler_cases {k k' : Kernel δ} {scancode : Byte} {polls : List (Option Byte)}
    (hmode : k.keyboard.c64ModeActive = false) (hrun : k.keyboardHandler scancode polls = some k') :
    k' = { k with keyboard := (k.keyboard.handlerChar scancode).2 } ∨
      (k.keyboard.handlerChar scancode).1 ≠ 0 ∧
        shellInputChar (k.keyboard.handlerChar scancode).1 polls
          { k with keyboard := (k.keyboard.handlerChar scancode).2 } = some k' := by
  have hshell := (handlerChar_c64ModeActive scancode k.keyboard).trans hmode
  rw [keyboardHandler] at hrun
  dsimp only at hrun
  rw [hshell] at hrun
  split at hrun
  · next hchar => exact Or.inr ⟨hchar, hrun⟩
  · exact Or.inl (Option.some_inj.mp hrun).symm

end Kernel

theorem length_edit {line : List Byte} (h : line.length ≤ 127) (c : Byte) :
    (edit line c).length ≤ 127 := by
  rw [edit]
  split_ifs with hnewline hback hroom
  · exact Nat.zero_le _
  · rw [List.length_dropLast]
    omega
  · rw [List.length_append, List.length_singleton]
    exact hroom
  · exact h

theorem typeable_edit {line : List Byte} (h : ∀ c ∈ line, typeable c = true) {c : Byte}
    (hzero : c ≠ 0) (htable : c ∈ scancodeAscii ∨ c ∈ scancodeAsciiShift) :
    ∀ b ∈ edit line c, typeable b = true := by
  intro b hb
  rw [edit] at hb
  split_ifs at hb with hnewline hback hroom
  · cases hb
  · exact h b (List.dropLast_subset line hb)
  · rcases List.mem_append.mp hb with hb | hb
    · exact h b hb
    · rw [List.mem_singleton.mp hb]
      exact decide_eq_true ⟨htable, hzero, hnewline, hback⟩
  · exact h b hb

open Kernel

variable {δ : Type} [Ports δ]

structure Consistent (p : MainPoint) (k : Kernel δ) : Prop where
  mode : k.keyboard.c64ModeActive = false
  masked : p = .clearMask → k.pic = ⟨0xFF, 0xFF⟩
  pic : p.maskCleared = true → k.pic = Pic.keyboardOnly
  length : k.lineBuf.length ≤ 127
  typed : ∀ c ∈ k.lineBuf, typeable c = true
  inScreen : k.InScreen
  shown : p = .hlt → ShowsLine k.lineBuf k.console

namespace Consistent

variable {p : MainPoint} {k k' : Kernel δ}

omit [Ports δ] in
theorem loaded (h : Hardware δ) : Consistent .gdtInstall (Kernel.loaded h) where
  mode := rfl
  masked hp := by cases hp
  pic hp := by cases hp
  length := Nat.zero_le 127
  typed _ hc := by cases hc
  inScreen := ⟨Nat.zero_lt_succ 3999, rfl⟩
  shown hp := by cases hp

-- A call of `kernel_main` that only prints.
omit [Ports δ] in
theorem printed (h : Consistent p k) {q : MainPoint} (hq : q.maskCleared = true)
    (hlast : q ≠ .hlt) (hp : p.maskCleared = true) {f : Console → Console}
    (hf : ∀ con, con.InScreen → (f con).InScreen) : Consistent q (k.onConsole f) where
  mode := by simpa using h.mode
  masked hq' := by
    rw [hq'] at hq
    cases hq
  pic _ := by simpa using h.pic hp
  length := by simpa using h.length
  typed := by simpa using h.typed
  inScreen := h.inScreen.onConsole hf
  shown hq' := absurd hq' hlast

omit [Ports δ] in
theorem shellInit (h : Consistent .shellInit k) : Consistent .hlt k.shellInit where
  mode := by simpa [Kernel.shellInit, shellPrompt] using h.mode
  masked hp := by cases hp
  pic _ := by simpa [Kernel.shellInit, shellPrompt] using h.pic rfl
  length := by simp [Kernel.shellInit, shellPrompt]
  typed := by simp [Kernel.shellInit, shellPrompt]
  inScreen := (editing_shellInit h.inScreen).inScreen
  shown _ := by
    have hshown := (editing_shellInit h.inScreen).shown
    simpa [Kernel.shellInit, shellPrompt] using hshown

omit [Ports δ] in
theorem moves (h : Consistent p k) {q : MainPoint} (hmask : q ≠ .clearMask) (hlast : q ≠ .hlt)
    (hp : q.maskCleared = true → p.maskCleared = true) : Consistent q k :=
  ⟨h.mode, fun hq => absurd hq hmask, fun hq => h.pic (hp hq), h.length, h.typed, h.inScreen,
    fun hq => absurd hq hlast⟩

theorem main (h : Consistent p k) : Consistent p.next (p.run k) := by
  cases p with
  | setMasks =>
      exact ⟨h.mode, fun _ => upto_setMask k.pic, nofun, h.length, h.typed, h.inScreen, nofun⟩
  | clearMask =>
      have hpic : k.pic.clearMask keyboardIrq = Pic.keyboardOnly := by
        rw [h.masked rfl, clearMask_all]
      exact ⟨h.mode, nofun, fun _ => hpic, h.length, h.typed, h.inScreen, nofun⟩
  | sti => exact h.moves nofun nofun id
  | consoleInit => exact h.printed (q := .ataInit) rfl nofun rfl fun con _ =>
      Console.InScreen.init con
  | ataInit => exact ⟨h.mode, nofun, fun _ => h.pic rfl, h.length, h.typed, h.inScreen, nofun⟩
  | printReady => exact h.printed (q := .shellInit) rfl nofun rfl fun _ hcon => hcon.print _
  | shellInit => exact h.shellInit
  | hlt => exact h
  | _ => exact h.moves nofun nofun nofun

theorem key (h : Consistent p k) (hsti : p.afterSti = true) {scancode : Byte}
    {polls : List (Option Byte)} (hrun : k.keyboardHandler scancode polls = some k') :
    Consistent p k' := by
  have hcleared := MainPoint.maskCleared_of_afterSti hsti
  have hprompt : k.AtPrompt := ⟨h.mode, h.pic hcleared⟩
  have hmode := (handlerChar_c64ModeActive scancode k.keyboard).trans h.mode
  have hmasked : p ≠ .clearMask := by
    rintro rfl
    cases hsti
  obtain rfl | ⟨hchar, hinput⟩ := keyboardHandler_cases h.mode hrun
  · exact ⟨hmode, fun hp => absurd hp hmasked, fun _ => hprompt.pic, h.length, h.typed, h.inScreen,
      h.shown⟩
  · have hdone := AtPrompt.shellInputChar (k :=
      { k with keyboard := (k.keyboard.handlerChar scancode).2 }) ⟨hmode, hprompt.pic⟩ hinput
    have hline := lineBuf_shellInputChar hinput
    have htable := (handlerChar_mem scancode k.keyboard).resolve_left hchar
    have hscreen := InScreen.shellInputChar (k :=
      { k with keyboard := (k.keyboard.handlerChar scancode).2 }) h.inScreen hinput
    refine ⟨hdone.mode, fun hp => absurd hp hmasked, fun _ => hdone.pic, ?_, ?_, hscreen, ?_⟩
    · rw [hline]
      exact length_edit h.length _
    · rw [hline]
      exact typeable_edit h.typed hchar htable
    · intro hp
      have hediting : Editing k.lineBuf
          { k with keyboard := (k.keyboard.handlerChar scancode).2 } :=
        ⟨rfl, h.length, h.shown hp⟩
      rw [hline]
      exact (hediting.input hinput).shown

end Consistent

def notPoke : Command → Prop := (· ≠ .poke)

theorem Serial.consistent {h : Hardware δ} {allowed : Command → Prop} {p : MainPoint}
    {k : Kernel δ} (hk : Serial h allowed p k) : Consistent p k := by
  induction hk with
  | start => exact .loaded h
  | main _ ih => exact ih.main
  | key _ _ _ hsti _ hrun ih => exact ih.key hsti hrun

-- POKE is left out: it can write the screen and the variables of the kernel itself.
theorem serial_consistent {h : Hardware δ} {p : MainPoint} {k : Kernel δ}
    (hk : Serial h notPoke p k) : Consistent p k := hk.consistent

theorem serial_typed {h : Hardware δ} {history : List Event} {k : Kernel δ}
    (hpoke : .poke ∉ commandsEntered history (booted h))
    (hrun : (booted h).runKeys history = some k) : Serial h notPoke .hlt k := by
  refine (serial_booted h notPoke).history rfl (fun c hc => ?_) hrun
  rintro rfl
  exact hpoke hc

def cputestKeys : List Event :=
  [0x2E, 0x19, 0x16, 0x14, 0x12, 0x1F, 0x14, 0x1C].map fun key => (key, [])

def dirKeys : List Event := [0x20, 0x17, 0x13].map fun key => (key, [])

theorem serial_consistent_typed :
    ∃ k, (booted (Hardware.plain (IdealDrive.holding []))).runKeys (cputestKeys ++ dirKeys) =
      some k ∧ k.lineBuf = text "dir" ∧ Consistent .hlt k := by
  have hrun : ((booted (Hardware.plain (IdealDrive.holding []))).runKeys
      (cputestKeys ++ dirKeys)).map (fun k => k.lineBuf) = some (text "dir") := by decide +kernel
  obtain ⟨k, hkeys, hline⟩ := Option.map_eq_some_iff.mp hrun
  exact ⟨k, hkeys, hline, serial_consistent (serial_typed (by decide +kernel) hkeys)⟩

end CDosX86
