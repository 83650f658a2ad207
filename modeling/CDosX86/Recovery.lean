import CDosX86.BootSession
import CDosX86.SerialRuns

namespace CDosX86

-- The scancode of Escape going up: the handler records it and does nothing else.
def escapeRelease : Byte := 0x81

theorem handlerChar_escapeRelease (kb : Keyboard) :
    kb.handlerChar escapeRelease = (0, kb.record escapeRelease) := by
  rw [Keyboard.handlerChar, if_neg (by decide), if_pos (by decide), if_neg (by decide)]

namespace MainPoint

-- The calls of `kernel_main` that are left.
def left : MainPoint → Nat
  | .gdtInstall => 13
  | .idtInstall => 12
  | .isrInstall => 11
  | .picRemap => 10
  | .irqInstall => 9
  | .keyboardInstall => 8
  | .setMasks => 7
  | .clearMask => 6
  | .sti => 5
  | .consoleInit => 4
  | .ataInit => 3
  | .printReady => 2
  | .shellInit => 1
  | .hlt => 0

theorem left_next (p : MainPoint) : p.next.left = p.left - 1 := by
  cases p <;> rfl

theorem left_eq_zero {p : MainPoint} : p.left = 0 ↔ p = .hlt := by
  cases p <;> simp [left]

end MainPoint

namespace System

open Kernel Relation

variable {δ : Type} [Ports δ]

omit [Ports δ] in
theorem entersCommand_escapeRelease (k : Kernel δ) : k.entersCommand escapeRelease = none :=
  entersCommand_none (handlerChar_escapeRelease k.keyboard) (by decide)

theorem keyboardHandler_escapeRelease (k : Kernel δ) :
    k.keyboardHandler escapeRelease [] =
      some { k with keyboard := k.keyboard.record escapeRelease } := by
  rw [keyboardHandler, handlerChar_escapeRelease]
  exact if_neg (not_not.mpr rfl)

theorem eoi_runs {s : System δ} {irq : Nat} {f : Bool} (hcur : s.current = .stub irq f .eoi) :
    ReflTransGen Step s
      { s with interruptFlag := true, inService := false, current := .stub irq f .iret } :=
  ReflTransGen.head (Step.eoi hcur) (ReflTransGen.single (Step.sti rfl))

theorem handler_returns {s : System δ} {irq : Nat} {f : Bool}
    (hcur : s.current = .stub irq f .handler) :
    ∃ k, ReflTransGen Step s { s with kernel := k, current := .stub irq f .eoi } := by
  cases hroutine : s.routines irq with
  | none => exact ⟨s.kernel, ReflTransGen.single (Step.noRoutine hcur hroutine)⟩
  | some routine =>
      have hnone : ∀ k₁, s.kernel.entersCommand escapeRelease ≠ some (.c64resume, k₁) := by
        simp [entersCommand_escapeRelease]
      have hrun := keyboardHandler_escapeRelease s.kernel
      exact ⟨_, ReflTransGen.single (Step.handled hcur hroutine hnone hrun)⟩

theorem boot_returns {s : System δ} {irq n : Nat} {f : Bool}
    (hcur : s.current = .stub irq f (.boot n)) :
    ∃ k, ReflTransGen Step s { s with kernel := k, current := .stub irq f .eoi } := by
  cases hhalted : s.kernel.c64.cpu.halted with
  | true => exact ⟨_, ReflTransGen.single (Step.bootHalted hcur hhalted)⟩
  | false =>
      obtain ⟨b, hround⟩ := bootRound_f12 { s.kernel.bootState with stepsSinceIrq := n }
      exact ⟨_, ReflTransGen.single (Step.bootExit hcur hhalted hround)⟩

-- Whatever a stub is doing, some keys let it come to its `iret`.
theorem Reachable.stub_returns {h : Hardware δ} {idt : Idt} {s : System δ} {irq : Nat} {f : Bool}
    {q : StubPoint} (hs : Reachable h idt s) (hcur : s.current = .stub irq f q) :
    ∃ k, ReflTransGen Step s
      { s with
        kernel := k
        interruptFlag := true
        inService := false
        current := .stub irq f .iret } := by
  have hdone : ∀ k, ReflTransGen Step s { s with kernel := k, current := .stub irq f .eoi } →
      ReflTransGen Step s
        { s with
          kernel := k
          interruptFlag := true
          inService := false
          current := .stub irq f .iret } :=
    fun k hk => hk.trans (eoi_runs rfl)
  have hsound := hs.sound
  cases q with
  | cli =>
      obtain ⟨k, hk⟩ := handler_returns (s := { s with
        interruptFlag := false
        current := .stub irq f .handler }) rfl
      exact ⟨k, (ReflTransGen.head (Step.cli hcur) hk).trans (eoi_runs rfl)⟩
  | handler =>
      obtain ⟨k, hk⟩ := handler_returns hcur
      exact ⟨k, hdone k hk⟩
  | resume steps =>
      obtain ⟨p, hat⟩ := hs.serialAt
      have hphase := hat.phase
      rw [hcur] at hphase
      have hsteps : steps ≤ resumeMaxSteps := by
        cases hphase with
        | between hc => cases hc
        | resume _ _ hrun => exact hrun.steps_le
      exact ⟨_, hdone _ (resume_runs hcur (Nat.sub_add_cancel hsteps))⟩
  | boot n =>
      obtain ⟨k, hk⟩ := boot_returns hcur
      exact ⟨k, hdone k hk⟩
  | eoi => exact ⟨s.kernel, eoi_runs hcur⟩
  | sti =>
      have hservice := hsound.service
      rw [hcur] at hservice
      have hstep := Step.sti hcur
      rw [hservice] at hstep
      exact ⟨s.kernel, ReflTransGen.single hstep⟩
  | iret =>
      have hservice := hsound.service
      have hflag := hsound.flag
      obtain ⟨kernel, idt', routines, interruptFlag, inService, current, below⟩ := s
      dsimp only at hcur hservice hflag
      subst hcur
      obtain rfl : inService = false := hservice
      obtain rfl : interruptFlag = true := hflag
      exact ⟨kernel, .refl⟩

-- By induction on the interrupted code.
theorem Reachable.unwinds {h : Hardware δ} {idt : Idt} {p : MainPoint} {cs : List Control}
    (hcs : Stacked p cs) {s : System δ} (hs : Reachable h idt s)
    (hstack : s.current :: s.below = cs) :
    ∃ s', ReflTransGen Step s s' ∧ s'.Quiet p := by
  induction hcs generalizing s with
  | main =>
      obtain ⟨hcur, hbelow⟩ := List.cons.inj hstack
      exact ⟨s, .refl, hcur, hbelow⟩
  | @stub irq f q cs hcs ih =>
      obtain ⟨hcur, rfl⟩ := List.cons.inj hstack
      obtain ⟨k, hk⟩ := hs.stub_returns hcur
      cases hbelow : s.below with
      | nil =>
          rw [hbelow] at hcs
          cases hcs
      | cons c cs =>
          have hret := hk.tail (Step.iret rfl hbelow)
          obtain ⟨s', hrun, hquiet⟩ := ih (hs.trans hret) hbelow.symm
          exact ⟨s', hret.trans hrun, hquiet⟩

theorem Quiet.advances {h : Hardware δ} {idt : Idt} {n : Nat} {p : MainPoint} (hn : p.left = n)
    {s : System δ} (hs : Reachable h idt s) (hquiet : s.Quiet p) :
    ∃ s', ReflTransGen Step s s' ∧ s'.Quiet .hlt := by
  induction n generalizing p s with
  | zero =>
      rw [MainPoint.left_eq_zero.mp hn] at hquiet
      exact ⟨s, .refl, hquiet⟩
  | succ n ih =>
      have hstep := Step.main hquiet.current
      have hleft : p.next.left = n := by
        rw [MainPoint.left_next, hn]
        rfl
      obtain ⟨s', hrun, hdone⟩ := ih hleft (hs.tail hstep) hquiet.main
      exact ⟨s', ReflTransGen.head hstep hrun, hdone⟩

theorem Quiet.idle {h : Hardware δ} {idt : Idt} {s : System δ} (hs : Reachable h idt s)
    (hquiet : s.Quiet .hlt) : s.Idle := by
  have hsound := hs.sound
  have hroutine := hquiet.routine hs rfl
  obtain ⟨hflag, hservice, -, hgate, -⟩ := hsound
  rw [hquiet.current] at hflag hservice hgate
  exact ⟨hquiet.current, hflag, hservice, hgate rfl, hroutine⟩

-- Whatever was interrupted, and in whatever C64 session, the prompt can be had back.
theorem prompt_recoverable {h : Hardware δ} {idt : Idt} {s : System δ} (hs : Reachable h idt s) :
    ∃ s', ReflTransGen Step s s' ∧ s'.Idle ∧ s'.below = [] ∧ s'.kernel.Unmasked := by
  obtain ⟨p, hat⟩ := hs.serialAt
  obtain ⟨s₁, hreturn, hquiet⟩ := hs.unwinds hat.stack rfl
  have hs₁ := hs.trans hreturn
  obtain ⟨s₂, hadvance, hquiet⟩ := Quiet.advances rfl hs₁ hquiet
  have hs₂ := hs₁.trans hadvance
  have hserial : Serial h anyCommand .hlt s₂.kernel :=
    Reachable.serial hs₂ (hquiet.idle hs₂).inService hquiet.stacked
  exact ⟨s₂, hreturn.trans hadvance, hquiet.idle hs₂, hquiet.below, hserial.unmasked rfl⟩

theorem prompt_recoverable_from_c64resume :
    ∃ s s' : System IdealDrive, s.executesResume ∧ ReflTransGen Step s s' ∧ s'.Idle := by
  obtain ⟨s, hs, hresume⟩ := executesResume_reachable (Hardware.plain (IdealDrive.holding []))
    fun _ => ⟨none, 0, 0⟩
  obtain ⟨s', hrun, hidle, -, -⟩ := prompt_recoverable hs
  exact ⟨s, s', hresume, hrun, hidle⟩

end System

end CDosX86
