import CDosX86.Typing

namespace CDosX86

namespace Kernel

variable {δ : Type} [Ports δ]

theorem keyboardHandler_enters {scancode : Byte} {k k₁ : Kernel δ} {c : Command}
    (h : k.entersCommand scancode = some (c, k₁)) (polls : List (Option Byte)) :
    k.keyboardHandler scancode polls =
      (k₁.runCommand c (tokens k.lineBuf) polls).map lineDone := by
  rw [entersCommand] at h
  dsimp only at h
  split_ifs at h with hkey
  obtain ⟨hnewline, hmode⟩ := hkey
  obtain ⟨c', hcommand, heq⟩ := Option.map_eq_some_iff.mp h
  obtain ⟨rfl, rfl⟩ := Prod.mk.inj heq
  exact keyboardHandler_command hnewline hmode hcommand polls

theorem keyboardHandler_polls {scancode : Byte} {k : Kernel δ}
    (h : ∀ k₁, k.entersCommand scancode ≠ some (.c64boot, k₁)) (polls : List (Option Byte)) :
    k.keyboardHandler scancode polls = k.keyboardHandler scancode [] := by
  rw [keyboardHandler, keyboardHandler]
  dsimp only
  split
  · split
    · rfl
    · next hmode =>
      rw [shellInputChar, shellInputChar]
      split
      · next hnewline =>
        have hline : commandOf k.lineBuf ≠ some .c64boot := by
          intro hcommand
          refine h (putchar newline { k with keyboard := (k.keyboard.handlerChar scancode).2 }) ?_
          rw [entersCommand]
          dsimp only
          rw [if_pos ⟨hnewline, by simpa using hmode⟩, hcommand]
          rfl
        rw [shellExecute_polls hline]
      · rfl
  · rfl

theorem cmdDir_undisturbed (k : Kernel δ) : Undisturbed k k.cmdDir := by
  have hmount := mount_undisturbed k
  rw [cmdDir]
  dsimp only
  split_ifs
  · simpa using hmount
  · simpa using hmount

theorem cmdType_undisturbed (tokens : List (List Byte)) (k : Kernel δ) :
    Undisturbed k (k.cmdType tokens) := by
  have hmount := mount_undisturbed k
  obtain ⟨s, heq⟩ | ⟨s, heq⟩ | ⟨entry, s, heq⟩ := cmdType_cases tokens k
  · simpa [heq] using Undisturbed.refl k
  · simpa [heq] using hmount
  · have hread : Undisturbed k { k.mount.2 with
        dev := (fsReadFile entry unwritten 512 k.mount.2.dev).2.2 } :=
      ⟨hmount.keyboard, hmount.pic, hmount.exitRequested⟩
    simpa [heq] using hread

theorem cmdDisktest_undisturbed (k : Kernel δ) : Undisturbed k k.cmdDisktest := by
  obtain ⟨d, s, heq⟩ := cmdDisktest_cases k
  have hwritten : Undisturbed k { k with dev := d } := ⟨rfl, rfl, rfl⟩
  simpa [heq] using hwritten

omit [Ports δ] in
theorem cmdPoke_undisturbed (tokens : List (List Byte)) (k : Kernel δ) :
    Undisturbed k (k.cmdPoke tokens) := by
  obtain ⟨memory, s, heq⟩ := cmdPoke_cases tokens k
  have hpoked : Undisturbed k { k with memory := memory } := ⟨rfl, rfl, rfl⟩
  simpa [heq] using hpoked

omit [Ports δ] in
theorem pic_cmdC64resume (k : Kernel δ) : k.cmdC64resume.pic = k.pic := by
  simp only [cmdC64resume, resumeEnd]
  split
  · simp [resumeStart]
  · simp [resumeStart]

omit [Ports δ] in
theorem pic_bootEnd (e : BootExit) (k : Kernel δ) : (k.bootEnd e).pic = k.pic.clearMask 1 := by
  simp only [bootEnd]
  split_ifs
  · simp
  · simp
  · simp

def Unmasked (k : Kernel δ) : Prop := k.pic.masked keyboardIrq = false

omit [Ports δ] in
theorem Unmasked.of_pic {k k' : Kernel δ} (h : k.Unmasked) (hpic : k'.pic = k.pic) :
    k'.Unmasked := by
  rw [Unmasked, hpic]
  exact h

theorem masked_clearMask (pic : Pic) : (pic.clearMask 1).masked keyboardIrq = false := by
  have hbit : ∀ b : Byte, (b &&& 0xFD) >>> 1 &&& 1 = 0 := by decide +kernel
  simpa [Pic.masked, Pic.clearMask, keyboardIrq] using hbit pic.mask1

theorem Unmasked.cmdC64boot {k k' : Kernel δ} (h : k.Unmasked) {polls : List (Option Byte)}
    (hrun : k.cmdC64boot polls = some k') : k'.Unmasked := by
  obtain ⟨hfail, rfl⟩ | ⟨e, rest, s, -, rfl⟩ := cmdC64boot_cases hrun
  · rw [bootStart] at hfail ⊢
    dsimp only at hfail ⊢
    split_ifs at hfail ⊢
    · exact h.of_pic (by simpa using (c64Init_undisturbed _).pic)
    · exact absurd rfl hfail
  · rw [Unmasked, pic_bootEnd]
    exact masked_clearMask _

theorem Unmasked.runCommand {k k' : Kernel δ} (h : k.Unmasked) {c : Command}
    {tokens : List (List Byte)} {polls : List (Option Byte)}
    (hrun : k.runCommand c tokens polls = some k') : k'.Unmasked := by
  cases c with
  | c64boot => exact h.cmdC64boot hrun
  | _ =>
      rw [Kernel.runCommand, Option.some_inj] at hrun
      refine h.of_pic ?_
      rw [← hrun]
      simp [(cmdDir_undisturbed k).pic, (cmdType_undisturbed tokens k).pic,
        (cmdDisktest_undisturbed k).pic, (cmdPoke_undisturbed tokens k).pic, pic_cmdC64resume]

theorem Unmasked.shellExecute {k k' : Kernel δ} (h : k.Unmasked) {line : List Byte}
    {polls : List (Option Byte)} (hrun : k.shellExecute line polls = some k') : k'.Unmasked := by
  obtain rfl | rfl | ⟨s, rfl⟩ | ⟨c, -, hrun⟩ := shellExecute_cases hrun
  · exact h.of_pic (by simp)
  · exact h
  · exact h.of_pic (by simp)
  · exact h.runCommand hrun

theorem Unmasked.keyboardHandler {k k' : Kernel δ} (h : k.Unmasked) {scancode : Byte}
    {polls : List (Option Byte)} (hrun : k.keyboardHandler scancode polls = some k') :
    k'.Unmasked := by
  rw [Kernel.keyboardHandler] at hrun
  dsimp only at hrun
  split at hrun
  · split at hrun
    · rw [← Option.some_inj.mp hrun]
      exact h.of_pic (by simp)
    · rw [shellInputChar] at hrun
      split_ifs at hrun
      · split at hrun
        · next k₁ hline =>
          have hdone : k₁.Unmasked := Unmasked.shellExecute (h.of_pic (by simp)) hline
          rw [← Option.some_inj.mp hrun, shellPrompt]
          exact hdone.of_pic (by simp)
        · cases hrun
      · rw [← Option.some_inj.mp hrun]
        exact h.of_pic (by simp)
      · rw [← Option.some_inj.mp hrun]
        exact h
      · rw [← Option.some_inj.mp hrun]
        exact h.of_pic (by simp)
      · rw [← Option.some_inj.mp hrun]
        exact h
  · rw [← Option.some_inj.mp hrun]
    exact h

end Kernel

namespace System

open Kernel Relation

variable {δ : Type} [Ports δ]

theorem resume_runs {s : System δ} {irq : Nat} {f : Bool} {n steps : Nat}
    (hcur : s.current = .stub irq f (.resume steps)) (hn : n + steps = resumeMaxSteps) :
    ReflTransGen Step s
      { s with
        kernel := ({ s.kernel with c64 := (resumeLoop n steps s.kernel.c64).2 }.resumeEnd
          (resumeLoop n steps s.kernel.c64).1).lineDone
        current := .stub irq f .eoi } := by
  induction n generalizing s steps with
  | zero =>
      rw [resumeLoop]
      exact ReflTransGen.single (Step.resumeEnd hcur (Or.inr (by omega)))
  | succ n ih =>
      rw [resumeLoop]
      split
      · next hhalted => exact ReflTransGen.single (Step.resumeEnd hcur (Or.inl hhalted))
      · next hrunning =>
        have hstep := Step.resumeStep hcur (by simpa using hrunning) (by omega)
        exact ReflTransGen.head hstep (ih rfl (by omega))

theorem boot_runs {polls : List (Option Byte)} {s : System δ} {irq : Nat} {f : Bool} {n : Nat}
    {e : BootExit} {rest : List (Option Byte)} {b : BootState}
    (hcur : s.current = .stub irq f (.boot n))
    (hloop : bootLoop polls { s.kernel.bootState with stepsSinceIrq := n } = some (e, rest, b)) :
    ReflTransGen Step s
      { s with
        kernel := ((s.kernel.withBootState b).bootEnd e).lineDone
        current := .stub irq f .eoi } := by
  induction polls generalizing s n with
  | nil =>
      cases bootLoop_iff.mp hloop with
      | halted hhalted => exact ReflTransGen.single (Step.bootHalted hcur hhalted)
  | cons waiting polls ih =>
      cases bootLoop_iff.mp hloop with
      | halted hhalted => exact ReflTransGen.single (Step.bootHalted hcur hhalted)
      | exit hrun hround => exact ReflTransGen.single (Step.bootExit hcur hrun hround)
      | round hrun hround hlater =>
          have hstep := Step.bootRound hcur hrun hround
          exact ReflTransGen.head hstep (ih rfl (bootLoop_iff.mpr hlater))

theorem resumeCommand_runs {s : System δ} {irq : Nat} {f : Bool} {scancode : Byte} {k₁ k : Kernel δ}
    (hcur : s.current = .stub irq f .handler) (hroutine : s.routines irq = some .keyboardHandler)
    (henter : s.kernel.entersCommand scancode = some (.c64resume, k₁)) {polls : List (Option Byte)}
    (hrun : s.kernel.keyboardHandler scancode polls = some k) :
    ReflTransGen Step s { s with kernel := k, current := .stub irq f .eoi } := by
  have hloop := resume_runs (s := { s with
    kernel := k₁.resumeStart
    current := .stub irq f (.resume 0) }) rfl (Nat.add_zero resumeMaxSteps)
  rw [keyboardHandler_enters henter, runCommand, Option.map_some, Option.some_inj,
    cmdC64resume] at hrun
  dsimp only at hrun hloop
  rw [hrun] at hloop
  exact ReflTransGen.head (Step.resumeStart hcur hroutine henter) hloop

theorem bootCommand_runs {s : System δ} {irq : Nat} {f : Bool} {scancode : Byte} {k₁ k : Kernel δ}
    (hcur : s.current = .stub irq f .handler) (hroutine : s.routines irq = some .keyboardHandler)
    (henter : s.kernel.entersCommand scancode = some (.c64boot, k₁)) {polls : List (Option Byte)}
    (hrun : s.kernel.keyboardHandler scancode polls = some k) :
    ReflTransGen Step s { s with kernel := k, current := .stub irq f .eoi } := by
  by_cases hstart : k₁.bootStart.1 = 0
  · rw [keyboardHandler_enters henter, runCommand, cmdC64boot] at hrun
    dsimp only at hrun
    rw [if_neg (not_not.mpr hstart)] at hrun
    cases hloop : bootLoop polls k₁.bootStart.2.bootState with
    | none =>
        rw [hloop] at hrun
        cases hrun
    | some r =>
        obtain ⟨e, rest, b⟩ := r
        rw [hloop, Option.map_some, Option.some_inj] at hrun
        rw [← hrun]
        exact ReflTransGen.head (Step.bootStart hcur hroutine henter hstart) (boot_runs rfl hloop)
  · have hfail : s.kernel.keyboardHandler scancode [] = some k := by
      rw [keyboardHandler_enters henter, runCommand, cmdC64boot] at hrun ⊢
      dsimp only at hrun ⊢
      rw [if_pos hstart] at hrun ⊢
      exact hrun
    have hresume : ∀ k₁, s.kernel.entersCommand scancode ≠ some (.c64resume, k₁) := by
      rw [henter]
      simp
    exact ReflTransGen.single (Step.handled hcur hroutine hresume hfail)

theorem handler_runs {s : System δ} {irq : Nat} {f : Bool} (hcur : s.current = .stub irq f .handler)
    (hroutine : s.routines irq = some .keyboardHandler) {scancode : Byte}
    {polls : List (Option Byte)} {k : Kernel δ}
    (hrun : s.kernel.keyboardHandler scancode polls = some k) :
    ReflTransGen Step s { s with kernel := k, current := .stub irq f .eoi } := by
  by_cases hresume : ∃ k₁, s.kernel.entersCommand scancode = some (.c64resume, k₁)
  · obtain ⟨k₁, henter⟩ := hresume
    exact resumeCommand_runs hcur hroutine henter hrun
  · by_cases hboot : ∃ k₁, s.kernel.entersCommand scancode = some (.c64boot, k₁)
    · obtain ⟨k₁, henter⟩ := hboot
      exact bootCommand_runs hcur hroutine henter hrun
    · rw [not_exists] at hresume hboot
      rw [keyboardHandler_polls hboot] at hrun
      exact ReflTransGen.single (Step.handled hcur hroutine hresume hrun)

def keyboardGate : IdtEntry :=
  { base := some (.irq keyboardIrq), sel := kernelCode, flags := idtFlagsIntGate }

-- The kernel in the loop of `kernel_main`, ready for a key.
structure Idle (s : System δ) : Prop where
  current : s.current = .main .hlt
  interruptFlag : s.interruptFlag = true
  inService : s.inService = false
  gate : s.idt keyboardVector = keyboardGate
  routine : s.routines keyboardIrq = some .keyboardHandler

theorem Idle.key_runs {s : System δ} (h : s.Idle) (hmask : s.kernel.Unmasked) {scancode : Byte}
    {polls : List (Option Byte)} {k : Kernel δ}
    (hrun : s.kernel.keyboardHandler scancode polls = some k) :
    ReflTransGen Step s { s with kernel := k } := by
  obtain ⟨kernel, idt, routines, interruptFlag, inService, current, below⟩ := s
  obtain ⟨rfl, rfl, rfl, hgate, hroutine⟩ := h
  dsimp only at hgate hroutine hmask hrun
  have hbase : (idt keyboardVector).base = some (.irq keyboardIrq) := congrArg IdtEntry.base hgate
  have hdeliver := Step.deliver (s := ⟨kernel, idt, routines, true, false, .main .hlt, below⟩)
    ⟨rfl, rfl, hmask⟩ hbase
  refine ReflTransGen.head hdeliver (ReflTransGen.head (Step.cli rfl) ?_)
  refine (handler_runs rfl hroutine hrun).trans ?_
  refine ReflTransGen.head (Step.eoi rfl) (ReflTransGen.head (Step.sti rfl) ?_)
  exact ReflTransGen.single (Step.iret rfl rfl)

theorem Idle.history_runs {s : System δ} (h : s.Idle) (hmask : s.kernel.Unmasked)
    {history : List Event} {k : Kernel δ} (hrun : s.kernel.runKeys history = some k) :
    ReflTransGen Step s { s with kernel := k } := by
  induction history generalizing s with
  | nil =>
      rw [runKeys, Option.some_inj] at hrun
      rw [← hrun]
  | cons event history ih =>
      obtain ⟨k₁, hone, hrun⟩ := runKeys_cons hrun
      have hidle : Idle { s with kernel := k₁ } :=
        ⟨h.current, h.interruptFlag, h.inService, h.gate, h.routine⟩
      exact (h.key_runs hmask hone).trans (ih hidle (hmask.keyboardHandler hone) hrun)

theorem gate_irqInstall (idt : Idt) : irqInstall idt keyboardVector = keyboardGate := rfl

theorem main_runs {h : Hardware δ} {idt : Idt} {s : System δ} {p : MainPoint}
    (hs : Reachable h idt s) (hcur : s.current = .main p) : Reachable h idt (s.mainStep p) :=
  hs.tail (Step.main hcur)

theorem boot_runs_to_idle (h : Hardware δ) (idt : Idt) :
    ∃ s, Reachable h idt s ∧ s.Idle ∧ s.kernel = booted h := by
  have hgdt : Reachable h idt (initial h idt) := ReflTransGen.refl
  have hidt := main_runs (p := .gdtInstall) hgdt rfl
  have hisr := main_runs (p := .idtInstall) hidt rfl
  have hpic := main_runs (p := .isrInstall) hisr rfl
  have hirq := main_runs (p := .picRemap) hpic rfl
  have hkeyboard := main_runs (p := .irqInstall) hirq rfl
  have hmasks := main_runs (p := .keyboardInstall) hkeyboard rfl
  have hmask := main_runs (p := .setMasks) hmasks rfl
  have hsti := main_runs (p := .clearMask) hmask rfl
  have hconsole := main_runs (p := .sti) hsti rfl
  have hata := main_runs (p := .consoleInit) hconsole rfl
  have hready := main_runs (p := .ataInit) hata rfl
  have hshell := main_runs (p := .printReady) hready rfl
  have hhlt := main_runs (p := .shellInit) hshell rfl
  exact ⟨_, hhlt, ⟨rfl, rfl, rfl, gate_irqInstall (isrInstall (idtInstall idt)), rfl⟩, rfl⟩

theorem unmasked_booted (h : Hardware δ) : (booted h).Unmasked := by
  have hpic : (booted h).pic = h.pic.maskAllButKeyboard := by
    simp [booted, shellInit, shellPrompt, printReady, Kernel.ataInit, Kernel.loaded]
  rw [Unmasked, hpic]
  exact masked_clearMask _

theorem booted_history_reachable (h : Hardware δ) (idt : Idt) {history : List Event}
    {k : Kernel δ} (hrun : (booted h).runKeys history = some k) :
    ∃ s, Reachable h idt s ∧ s.Idle ∧ s.kernel = k := by
  obtain ⟨s, hs, hidle, hkernel⟩ := boot_runs_to_idle h idt
  rw [← hkernel] at hrun
  have hmask : s.kernel.Unmasked := by
    rw [hkernel]
    exact unmasked_booted h
  exact ⟨_, hs.trans (hidle.history_runs hmask hrun),
    ⟨hidle.current, hidle.interruptFlag, hidle.inService, hidle.gate, hidle.routine⟩, rfl⟩

end System

end CDosX86
