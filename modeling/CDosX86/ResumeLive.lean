import CDosX86.DiskRoundTrip
import CDosX86.InterruptRuns

namespace CDosX86

def MainPoint.afterSti : MainPoint → Bool
  | .consoleInit | .ataInit | .printReady | .shellInit | .hlt => true
  | _ => false

def MainPoint.gateInstalled : MainPoint → Bool
  | .gdtInstall | .idtInstall | .isrInstall | .picRemap | .irqInstall => false
  | _ => true

namespace Control

-- The interrupt flag that the code at a point runs with.
def flag : Control → Bool
  | .main p => p.afterSti
  | .stub _ _ .iret => true
  | .stub _ _ _ => false

def service : Control → Bool
  | .main _ => false
  | .stub _ _ .sti => false
  | .stub _ _ .iret => false
  | .stub _ _ _ => true

def pushedSet : Control → Bool
  | .main _ => true
  | .stub _ f _ => f

def gate : Control → Bool
  | .main p => p.gateInstalled
  | .stub _ _ _ => true

theorem gate_of_flag {c : Control} (h : c.flag = true) : c.gate = true := by
  cases c with
  | main p => cases p <;> first | rfl | cases h
  | stub irq f p => rfl

theorem service_of_flag {c : Control} (h : c.flag = true) : c.service = false := by
  cases c with
  | main p => rfl
  | stub irq f p => cases p <;> first | rfl | cases h

end Control

namespace System

open Relation Kernel

variable {δ : Type} [Ports δ]

structure Sound (s : System δ) : Prop where
  flag : s.interruptFlag = s.current.flag
  service : s.inService = s.current.service
  pushed : s.current.pushedSet = true
  gate : s.current.gate = true → s.idt keyboardVector = keyboardGate
  below : ∀ c ∈ s.below, c.flag = true ∧ c.pushedSet = true

theorem Sound.mainStep {s : System δ} (h : s.Sound) {p : MainPoint} (hcur : s.current = .main p) :
    (s.mainStep p).Sound := by
  have hsound := h
  obtain ⟨hflag, hservice, -, hgate, hbelow⟩ := h
  rw [hcur] at hflag hservice hgate
  have hnot : ∀ {P : Prop}, false = true → P := fun h => absurd h Bool.false_ne_true
  cases p with
  | gdtInstall => exact ⟨hflag, hservice, rfl, hnot, hbelow⟩
  | idtInstall => exact ⟨hflag, hservice, rfl, hnot, hbelow⟩
  | isrInstall => exact ⟨hflag, hservice, rfl, hnot, hbelow⟩
  | picRemap => exact ⟨hflag, hservice, rfl, hnot, hbelow⟩
  | irqInstall => exact ⟨hflag, hservice, rfl, fun _ => gate_irqInstall s.idt, hbelow⟩
  | sti => exact ⟨rfl, hservice, rfl, hgate, hbelow⟩
  | hlt => exact hsound
  | _ =>
      rw [System.mainStep]
      exact ⟨hflag, hservice, rfl, fun _ => hgate rfl, hbelow⟩

omit [Ports δ] in
theorem Sound.enter {s : System δ} (h : s.Sound) (hdeliver : s.deliverable) (irq : Nat) :
    (s.enter irq).Sound := by
  obtain ⟨hset, -, -⟩ := hdeliver
  have hflag : s.current.flag = true := h.flag ▸ hset
  have hgate := h.gate (Control.gate_of_flag hflag)
  refine ⟨?_, rfl, hset, fun _ => hgate, ?_⟩
  · rw [System.enter, hset, hgate]
    rfl
  · intro c hc
    rcases List.mem_cons.mp hc with rfl | hc
    · exact ⟨hflag, h.pushed⟩
    · exact h.below c hc

-- A step inside a stub, to another point of it that runs under the same flags.
omit [Ports δ] in
theorem Sound.within {s : System δ} (h : s.Sound) {irq : Nat} {f : Bool} {p q : StubPoint}
    (hcur : s.current = .stub irq f p) (hflag : (Control.stub irq f q).flag = false)
    (hservice : (Control.stub irq f q).service = true) (hp : (Control.stub irq f p).flag = false)
    (hp' : (Control.stub irq f p).service = true) (k : Kernel δ) :
    Sound { s with kernel := k, current := .stub irq f q } := by
  obtain ⟨hf, hs, hpushed, hgate, hbelow⟩ := h
  rw [hcur] at hf hs hpushed hgate
  exact ⟨by rw [hf, hp, hflag], by rw [hs, hp', hservice], hpushed, hgate, hbelow⟩

theorem Sound.step {s s' : System δ} (h : s.Sound) (hstep : Step s s') : s'.Sound := by
  cases hstep with
  | main hcur => exact h.mainStep hcur
  | deliver hdeliver _ => exact h.enter hdeliver _
  | cli hcur =>
      obtain ⟨-, hservice, hpushed, hgate, hbelow⟩ := h
      rw [hcur] at hservice hpushed hgate
      exact ⟨rfl, hservice, hpushed, hgate, hbelow⟩
  | noRoutine hcur _ => exact h.within hcur rfl rfl rfl rfl s.kernel
  | handled hcur _ _ _ => exact h.within hcur rfl rfl rfl rfl _
  | resumeStart hcur _ _ => exact h.within hcur rfl rfl rfl rfl _
  | resumeStep hcur _ _ => exact h.within hcur rfl rfl rfl rfl _
  | resumeEnd hcur _ => exact h.within hcur rfl rfl rfl rfl _
  | bootStart hcur _ _ _ => exact h.within hcur rfl rfl rfl rfl _
  | bootRound hcur _ _ => exact h.within hcur rfl rfl rfl rfl _
  | bootExit hcur _ _ => exact h.within hcur rfl rfl rfl rfl _
  | bootHalted hcur _ => exact h.within hcur rfl rfl rfl rfl _
  | eoi hcur =>
      obtain ⟨hflag, -, hpushed, hgate, hbelow⟩ := h
      rw [hcur] at hflag hpushed hgate
      exact ⟨hflag, rfl, hpushed, hgate, hbelow⟩
  | sti hcur =>
      obtain ⟨-, hservice, hpushed, hgate, hbelow⟩ := h
      rw [hcur] at hservice hpushed hgate
      exact ⟨rfl, hservice, hpushed, hgate, hbelow⟩
  | iret hcur hstack =>
      obtain ⟨-, hservice, hpushed, hgate, hbelow⟩ := h
      rw [hcur] at hservice hpushed hgate
      obtain ⟨hflag, hpushed'⟩ := hbelow _ (by rw [hstack]; exact List.mem_cons_self)
      refine ⟨?_, ?_, hpushed', fun _ => hgate rfl, ?_⟩
      · rw [hflag]
        exact hpushed
      · rw [Control.service_of_flag hflag]
        exact hservice
      · intro c hc
        exact hbelow c (by rw [hstack]; exact List.mem_cons_of_mem _ hc)

theorem Reachable.sound {h : Hardware δ} {idt : Idt} {s : System δ} (hs : Reachable h idt s) :
    s.Sound := by
  induction hs with
  | refl => exact ⟨rfl, rfl, rfl, fun h => absurd h Bool.false_ne_true, fun c hc => by cases hc⟩
  | tail _ hstep ih => exact ih.step hstep

def executesResume (s : System δ) : Prop :=
  ∃ irq f steps, s.current = .stub irq f (.resume steps)

def c64resumeKeys : List (Byte × Byte) :=
  [(0x2E, 0x63), (0x07, 0x36), (0x05, 0x34), (0x13, 0x72), (0x12, 0x65), (0x1F, 0x73),
    (0x16, 0x75), (0x32, 0x6D), (0x12, 0x65)]

theorem executesResume_reachable (h : Hardware δ) (idt : Idt) :
    ∃ s, Reachable h idt s ∧ s.executesResume := by
  obtain ⟨k, hrun, hk⟩ := (typed_booted h).keys c64resumeKeys (by decide) (by decide)
  obtain ⟨s, hs, hidle, hkernel⟩ := booted_history_reachable h idt hrun
  have hmask : s.kernel.Unmasked := by
    rw [hkernel]
    exact (unmasked_booted h).of_pic hk.pic
  have hcommand : commandOf k.lineBuf = some .c64resume := by
    rw [hk.lineBuf]
    decide
  have henter := entersCommand_enterKey hk.unshifted hk.toShell hcommand
  rw [← hkernel] at henter
  have hdeliver : s.deliverable := ⟨hidle.interruptFlag, hidle.inService, hmask⟩
  have hgate : (s.idt keyboardVector).base = some (.irq keyboardIrq) :=
    congrArg IdtEntry.base hidle.gate
  have hdelivered := Step.deliver hdeliver hgate
  have hcli := Step.cli (s := s.enter keyboardIrq) rfl
  have hstart := Step.resumeStart (s :=
    { s.enter keyboardIrq with
      interruptFlag := false
      current := .stub keyboardIrq s.interruptFlag .handler }) rfl hidle.routine henter
  exact ⟨_, ((hs.tail hdelivered).tail hcli).tail hstart, _, _, _, rfl⟩

theorem resume_undeliverable {h : Hardware δ} {idt : Idt} {s : System δ}
    (hs : Reachable h idt s) (hresume : s.executesResume) :
    s.interruptFlag = false ∧ s.inService = true := by
  obtain ⟨irq, f, steps, hcur⟩ := hresume
  obtain ⟨hflag, hservice, -, -, -⟩ := hs.sound
  rw [hcur] at hflag hservice
  exact ⟨hflag, hservice⟩

theorem resume_undeliverable_after_boot :
    ∃ s, Reachable (Hardware.plain (IdealDrive.holding [])) (fun _ => ⟨none, 0, 0⟩) s ∧
      s.executesResume ∧ s.interruptFlag = false ∧ s.inService = true := by
  obtain ⟨s, hs, hresume⟩ := executesResume_reachable (Hardware.plain (IdealDrive.holding []))
    fun _ => ⟨none, 0, 0⟩
  exact ⟨s, hs, hresume, resume_undeliverable hs hresume⟩

theorem resume_not_live : ¬ ∀ (h : Hardware IdealDrive) (idt : Idt) (s : System IdealDrive),
    Reachable h idt s → s.executesResume → s.interruptFlag = true ∧ s.inService = false := by
  intro hclaim
  obtain ⟨s, hs, hresume⟩ := executesResume_reachable (Hardware.plain (IdealDrive.holding []))
    fun _ => ⟨none, 0, 0⟩
  obtain ⟨irq, f, steps, hcur⟩ := hresume
  have hflag := hs.sound.flag
  rw [hcur, (hclaim _ _ s hs ⟨irq, f, steps, hcur⟩).1] at hflag
  exact Bool.noConfusion hflag

end System

end CDosX86
