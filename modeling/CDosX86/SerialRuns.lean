import CDosX86.ResumeLive

namespace CDosX86

namespace MainPoint

def next : MainPoint → MainPoint
  | .gdtInstall => .idtInstall
  | .idtInstall => .isrInstall
  | .isrInstall => .picRemap
  | .picRemap => .irqInstall
  | .irqInstall => .keyboardInstall
  | .keyboardInstall => .setMasks
  | .setMasks => .clearMask
  | .clearMask => .sti
  | .sti => .consoleInit
  | .consoleInit => .ataInit
  | .ataInit => .printReady
  | .printReady => .shellInit
  | .shellInit => .hlt
  | .hlt => .hlt

def run {δ : Type} [Ports δ] (p : MainPoint) (k : Kernel δ) : Kernel δ :=
  match p with
  | .setMasks => k.onPic (Loop.upto Pic.setMask 16)
  | .clearMask => k.onPic (Pic.clearMask keyboardIrq)
  | .consoleInit => k.onConsole Console.init
  | .ataInit => k.ataInit
  | .printReady => k.printReady
  | .shellInit => k.shellInit
  | _ => k

end MainPoint

namespace MainPoint

def maskCleared : MainPoint → Bool
  | .sti => true
  | p => p.afterSti

def routineInstalled : MainPoint → Bool
  | .keyboardInstall => false
  | p => p.gateInstalled

theorem routineInstalled_of_afterSti {p : MainPoint} (h : p.afterSti = true) :
    p.routineInstalled = true := by
  cases p <;> first | rfl | cases h

theorem maskCleared_of_afterSti {p : MainPoint} (h : p.afterSti = true) :
    p.maskCleared = true := by
  cases p <;> first | rfl | cases h

end MainPoint

-- `kernel_main` with every keyboard interrupt served at one go between two of its calls.
inductive Serial {δ : Type} [Ports δ] (h : Hardware δ) (allowed : Command → Prop) :
    MainPoint → Kernel δ → Prop
  | start : Serial h allowed .gdtInstall (Kernel.loaded h)
  | main {p : MainPoint} {k : Kernel δ} : Serial h allowed p k → Serial h allowed p.next (p.run k)
  | key {p : MainPoint} {k k' : Kernel δ} (scancode : Byte) (polls : List (Option Byte)) :
      Serial h allowed p k → p.afterSti = true →
        (∀ c k₁, k.entersCommand scancode = some (c, k₁) → allowed c) →
          k.keyboardHandler scancode polls = some k' → Serial h allowed p k'

def anyCommand : Command → Prop := fun _ => True

-- The commands that are entered by the keys of a history.
def commandsEntered {δ : Type} [Ports δ] : List Event → Kernel δ → List Command
  | [], _ => []
  | event :: events, k =>
      ((k.entersCommand event.1).map Prod.fst).toList ++
        match k.keyboardHandler event.1 event.2 with
        | some k' => commandsEntered events k'
        | none => []

theorem Serial.history {δ : Type} [Ports δ] {h : Hardware δ} {allowed : Command → Prop}
    {p : MainPoint} {history : List Event} {k k' : Kernel δ} (hk : Serial h allowed p k)
    (hsti : p.afterSti = true) (hallowed : ∀ c ∈ commandsEntered history k, allowed c)
    (hrun : k.runKeys history = some k') : Serial h allowed p k' := by
  induction history generalizing k with
  | nil =>
      cases hrun
      exact hk
  | cons event history ih =>
      obtain ⟨k₁, hkey, hrest⟩ := Kernel.runKeys_cons hrun
      rw [commandsEntered, hkey] at hallowed
      obtain ⟨hfirst, hlater⟩ := List.forall_mem_append.mp hallowed
      refine ih (hk.key event.1 event.2 hsti (fun c k₂ henter => ?_) hkey) hlater hrest
      rw [henter] at hfirst
      exact hfirst c List.mem_cons_self

inductive Stacked (p : MainPoint) : List Control → Prop
  | main : Stacked p [.main p]
  | stub {irq : Nat} {f : Bool} {q : StubPoint} {cs : List Control} :
      Stacked p cs → Stacked p (.stub irq f q :: cs)

theorem Stacked.main_top {p q : MainPoint} {cs : List Control} (h : Stacked p (.main q :: cs)) :
    q = p ∧ cs = [] := by
  cases h with
  | main => exact ⟨rfl, rfl⟩

theorem Stacked.interrupted {p : MainPoint} {irq : Nat} {f : Bool} {q : StubPoint}
    {cs : List Control} (h : Stacked p (.stub irq f q :: cs)) : Stacked p cs := by
  cases h with
  | stub h => exact h

theorem Stacked.unique {p q : MainPoint} {cs : List Control} (hp : Stacked p cs)
    (hq : Stacked q cs) : p = q := by
  induction hp with
  | main => exact hq.main_top.1
  | stub _ ih => exact ih hq.interrupted

theorem Stacked.mem {p : MainPoint} {cs : List Control} (h : Stacked p cs) : .main p ∈ cs := by
  induction h with
  | main => simp
  | stub _ ih => simp [ih]

namespace Kernel

variable {δ : Type} [Ports δ]

omit [Ports δ] in
theorem entersCommand_none {k : Kernel δ} {scancode c : Byte} {kb : Keyboard}
    (hchar : k.keyboard.handlerChar scancode = (c, kb)) (hc : c ≠ newline) :
    k.entersCommand scancode = none := by
  rw [entersCommand, hchar]
  exact if_neg fun h => hc h.1

-- `cmd_c64resume`, entered with `k₁`, has come to `k` after `steps` instructions.
structure Resuming (k₁ : Kernel δ) (steps : Nat) (k : Kernel δ) : Prop where
  steps_le : steps ≤ resumeMaxSteps
  loop : resumeLoop resumeMaxSteps 0 k₁.resumeStart.c64 =
    resumeLoop (resumeMaxSteps - steps) steps k.c64
  rest : { k₁.resumeStart with c64 := k.c64 } = k

omit [Ports δ] in
theorem Resuming.start (k₁ : Kernel δ) : Resuming k₁ 0 k₁.resumeStart := by
  refine ⟨Nat.zero_le resumeMaxSteps, ?_, ?_⟩
  · rw [Nat.sub_zero]
  · generalize k₁.resumeStart = k
    rfl

omit [Ports δ] in
theorem Resuming.step {k₁ k : Kernel δ} {steps : Nat} (h : Resuming k₁ steps k)
    (hrunning : k.c64.cpu.halted = false) (hsteps : steps < resumeMaxSteps) :
    Resuming k₁ (steps + 1) (k.onC64 (resumeStep steps)) := by
  obtain ⟨-, hloop, hrest⟩ := h
  have hleft : resumeMaxSteps - steps = resumeMaxSteps - (steps + 1) + 1 := by omega
  refine ⟨hsteps, ?_, ?_⟩
  · rw [hloop, hleft, resumeLoop, hrunning, c64_onC64]
    rfl
  · rw [onC64, ← hrest]

omit [Ports δ] in
theorem Resuming.done {k₁ k : Kernel δ} {steps : Nat} (h : Resuming k₁ steps k)
    (hend : k.c64.cpu.halted = true ∨ resumeMaxSteps ≤ steps) :
    k₁.cmdC64resume = k.resumeEnd steps := by
  obtain ⟨-, hloop, hrest⟩ := h
  have hlast : resumeLoop (resumeMaxSteps - steps) steps k.c64 = (steps, k.c64) := by
    cases hleft : resumeMaxSteps - steps with
    | zero => rw [resumeLoop]
    | succ n =>
        have hhalted : k.c64.cpu.halted = true := hend.resolve_right (by omega)
        rw [resumeLoop, hhalted, if_pos rfl]
  rw [cmdC64resume]
  dsimp only
  rw [hloop, hlast, hrest]

-- The loop of `cmd_c64boot`, entered with `k₁`, has come to `k` through the polls `seen`.
structure Booting (k₁ : Kernel δ) (seen : List (Option Byte)) (n : Nat) (k : Kernel δ) : Prop where
  started : k₁.bootStart.1 = 0
  loop : ∀ polls, bootLoop (seen ++ polls) k₁.bootStart.2.bootState =
    bootLoop polls { k.bootState with stepsSinceIrq := n }
  rest : k₁.bootStart.2.withBootState k.bootState = k

theorem Booting.start {k₁ : Kernel δ} (h : k₁.bootStart.1 = 0) :
    Booting k₁ [] 0 k₁.bootStart.2 :=
  ⟨h, fun _ => rfl, rfl⟩

theorem Booting.round {k₁ k : Kernel δ} {seen : List (Option Byte)} {n : Nat}
    (h : Booting k₁ seen n k) {waiting : Option Byte} {b : BootState}
    (hrunning : k.c64.cpu.halted = false)
    (hround : bootRound waiting { k.bootState with stepsSinceIrq := n } = (none, b)) :
    Booting k₁ (seen ++ [waiting]) b.stepsSinceIrq (k.withBootState b) := by
  obtain ⟨hstarted, hloop, hrest⟩ := h
  refine ⟨hstarted, fun polls => ?_, ?_⟩
  · rw [List.append_assoc, List.singleton_append, hloop, bootLoop, if_neg (by simpa [bootState]),
      hround]
    rfl
  · rw [← hrest]
    rfl

theorem Booting.exit {k₁ k : Kernel δ} {seen : List (Option Byte)} {n : Nat}
    (h : Booting k₁ seen n k) {waiting : Option Byte} {b : BootState} {e : BootExit}
    (hrunning : k.c64.cpu.halted = false)
    (hround : bootRound waiting { k.bootState with stepsSinceIrq := n } = (some e, b)) :
    k₁.cmdC64boot (seen ++ [waiting]) = some ((k.withBootState b).bootEnd e) := by
  obtain ⟨hstarted, hloop, hrest⟩ := h
  have hend := hloop [waiting]
  rw [bootLoop, if_neg (by simpa [bootState]), hround] at hend
  rw [cmdC64boot]
  dsimp only
  rw [if_neg (not_not.mpr hstarted), hend, ← hrest]
  rfl

theorem Booting.halted {k₁ k : Kernel δ} {seen : List (Option Byte)} {n : Nat}
    (h : Booting k₁ seen n k) (hhalted : k.c64.cpu.halted = true) :
    k₁.cmdC64boot seen = some (k.bootEnd .halted) := by
  obtain ⟨hstarted, hloop, hrest⟩ := h
  have hend := hloop []
  rw [List.append_nil, bootLoop, if_pos (by simpa [bootState])] at hend
  rw [cmdC64boot]
  dsimp only
  rw [if_neg (not_not.mpr hstarted), hend]
  exact congrArg (fun k => some (bootEnd .halted k)) hrest

end Kernel

open Kernel

section

variable {δ : Type} [Ports δ]

def Control.inLoop : Control → Bool
  | .stub _ _ (.resume _) => true
  | .stub _ _ (.boot _) => true
  | _ => false

-- What the calls of `kernel_main` keep, and keys that are served at one go between them.
structure Closed (S : MainPoint → Kernel δ → Prop) : Prop where
  main : ∀ {p : MainPoint} {k : Kernel δ}, S p k → S p.next (p.run k)
  key : ∀ {p : MainPoint} {k k' : Kernel δ} (scancode : Byte) (polls : List (Option Byte)),
    p.afterSti = true → S p k → k.keyboardHandler scancode polls = some k' → S p k'

theorem Serial.closed (h : Hardware δ) : Closed (Serial h anyCommand) where
  main := .main
  key scancode polls hsti hk hrun := hk.key scancode polls hsti (fun _ _ _ => trivial) hrun

-- What such an `S` has to do with the kernel at a point of the main program or of a stub.
inductive Phase (S : MainPoint → Kernel δ → Prop) (p : MainPoint) : Control → Kernel δ → Prop
  | between {c : Control} {k : Kernel δ} : c.inLoop = false → S p k → Phase S p c k
  | resume {irq steps : Nat} {f : Bool} {scancode : Byte} {k₀ k₁ k : Kernel δ} :
      S p k₀ → k₀.entersCommand scancode = some (.c64resume, k₁) →
        Resuming k₁ steps k → Phase S p (.stub irq f (.resume steps)) k
  | boot {irq n : Nat} {f : Bool} {scancode : Byte} {seen : List (Option Byte)}
      {k₀ k₁ k : Kernel δ} : S p k₀ →
        k₀.entersCommand scancode = some (.c64boot, k₁) → Booting k₁ seen n k →
          Phase S p (.stub irq f (.boot n)) k

namespace Phase

variable {S : MainPoint → Kernel δ → Prop} {p : MainPoint} {c : Control} {k : Kernel δ}

theorem outside (hphase : Phase S p c k) (hc : c.inLoop = false) : S p k := by
  cases hphase with
  | between _ hk => exact hk
  | resume => cases hc
  | boot => cases hc

theorem resumeEnds (hS : Closed S) {irq steps : Nat} {f : Bool}
    (hphase : Phase S p (.stub irq f (.resume steps)) k) (hsti : p.afterSti = true)
    (hend : k.c64.cpu.halted = true ∨ resumeMaxSteps ≤ steps) :
    S p (k.resumeEnd steps).lineDone := by
  cases hphase with
  | between hc => cases hc
  | @resume _ _ _ scancode _ _ _ hk henter hrun =>
      refine hS.key scancode [] hsti hk ?_
      rw [keyboardHandler_enters henter, runCommand, hrun.done hend]
      rfl

theorem bootEnds (hS : Closed S) {irq n : Nat} {f : Bool}
    (hphase : Phase S p (.stub irq f (.boot n)) k) (hsti : p.afterSti = true) {k' : Kernel δ}
    (hend : ∀ k₁ seen, Booting k₁ seen n k → ∃ polls, k₁.cmdC64boot polls = some k') :
    S p k'.lineDone := by
  cases hphase with
  | between hc => cases hc
  | @boot _ _ _ scancode _ _ _ _ hk henter hrun =>
      obtain ⟨polls, hdone⟩ := hend _ _ hrun
      refine hS.key scancode polls hsti hk ?_
      rw [keyboardHandler_enters henter, runCommand, hdone]
      rfl

end Phase

end

namespace System

open Relation

variable {δ : Type} [Ports δ]

structure SerialAt (S : MainPoint → Kernel δ → Prop) (s : System δ) (p : MainPoint) : Prop where
  stack : Stacked p (s.current :: s.below)
  phase : Phase S p s.current s.kernel
  routine : p.routineInstalled = true → s.routines keyboardIrq = some .keyboardHandler

theorem mainStep_point {s : System δ} {p : MainPoint} (hcur : s.current = .main p) :
    (s.mainStep p).current = .main p.next ∧ (s.mainStep p).below = s.below ∧
      (s.mainStep p).kernel = p.run s.kernel := by
  cases p with
  | hlt => exact ⟨hcur, rfl, rfl⟩
  | _ => simp only [mainStep, MainPoint.next, MainPoint.run, and_self]

theorem mainStep_routine {s : System δ} {p : MainPoint}
    (hroutine : p.routineInstalled = true → s.routines keyboardIrq = some .keyboardHandler)
    (hp : p.next.routineInstalled = true) :
    (s.mainStep p).routines keyboardIrq = some .keyboardHandler := by
  cases p with
  | keyboardInstall => exact Function.update_self keyboardIrq _ s.routines
  | setMasks => exact hroutine rfl
  | clearMask => exact hroutine rfl
  | sti => exact hroutine rfl
  | consoleInit => exact hroutine rfl
  | ataInit => exact hroutine rfl
  | printReady => exact hroutine rfl
  | shellInit => exact hroutine rfl
  | hlt => exact hroutine rfl
  | _ => cases hp

-- An interrupted main program has enabled interrupts.
omit [Ports δ] in
theorem Sound.afterSti {s : System δ} (hs : s.Sound) {p : MainPoint} {irq : Nat} {f : Bool}
    {q : StubPoint} (hcur : s.current = .stub irq f q) (hstack : Stacked p (s.current :: s.below)) :
    p.afterSti = true := by
  rw [hcur] at hstack
  exact (hs.below _ hstack.interrupted.mem).1

theorem SerialAt.step {S : MainPoint → Kernel δ → Prop} (hS : Closed S) {s s' : System δ}
    {p : MainPoint} (hs : s.Sound) (hat : SerialAt S s p) (hstep : Step s s') :
    ∃ p', SerialAt S s' p' := by
  obtain ⟨hstack, hphase, hroutine⟩ := hat
  cases hstep with
  | @main q hcur =>
      obtain ⟨hnext, hbelow, hkernel⟩ := mainStep_point hcur
      rw [hcur] at hstack hphase
      obtain ⟨rfl, hempty⟩ := hstack.main_top
      refine ⟨q.next, ?_, ?_, mainStep_routine hroutine⟩
      · rw [hnext, hbelow, hempty]
        exact .main
      · rw [hnext, hkernel]
        exact .between rfl (hS.main (hphase.outside rfl))
  | deliver hdeliver _ =>
      obtain ⟨hset, -, -⟩ := hdeliver
      have hloop : s.current.inLoop = false := by
        have hflag := hs.flag
        rw [hset] at hflag
        cases hcur : s.current with
        | main q => rfl
        | stub irq f q =>
            rw [hcur] at hflag
            cases q <;> first | rfl | cases hflag
      exact ⟨p, hstack.stub, .between rfl (hphase.outside hloop), hroutine⟩
  | cli hcur =>
      rw [hcur] at hstack hphase
      exact ⟨p, hstack.interrupted.stub, .between rfl (hphase.outside rfl), hroutine⟩
  | noRoutine hcur _ =>
      rw [hcur] at hstack hphase
      exact ⟨p, hstack.interrupted.stub, .between rfl (hphase.outside rfl), hroutine⟩
  | handled hcur _ _ hrun =>
      have hsti := hs.afterSti hcur hstack
      rw [hcur] at hstack hphase
      have hkey := hS.key _ [] hsti (hphase.outside rfl) hrun
      exact ⟨p, hstack.interrupted.stub, .between rfl hkey, hroutine⟩
  | resumeStart hcur _ henter =>
      rw [hcur] at hstack hphase
      exact ⟨p, hstack.interrupted.stub, .resume (hphase.outside rfl) henter (.start _), hroutine⟩
  | resumeStep hcur hrunning hsteps =>
      rw [hcur] at hstack hphase
      refine ⟨p, hstack.interrupted.stub, ?_, hroutine⟩
      cases hphase with
      | between hc => cases hc
      | resume hk henter hrun => exact .resume hk henter (hrun.step hrunning hsteps)
  | resumeEnd hcur hend =>
      have hsti := hs.afterSti hcur hstack
      rw [hcur] at hstack hphase
      exact ⟨p, hstack.interrupted.stub, .between rfl (hphase.resumeEnds hS hsti hend), hroutine⟩
  | bootStart hcur _ henter hstart =>
      rw [hcur] at hstack hphase
      exact ⟨p, hstack.interrupted.stub, .boot (hphase.outside rfl) henter (.start hstart),
        hroutine⟩
  | bootRound hcur hrunning hround =>
      rw [hcur] at hstack hphase
      refine ⟨p, hstack.interrupted.stub, ?_, hroutine⟩
      cases hphase with
      | between hc => cases hc
      | boot hk henter hrun => exact .boot hk henter (hrun.round hrunning hround)
  | bootExit hcur hrunning hround =>
      have hsti := hs.afterSti hcur hstack
      rw [hcur] at hstack hphase
      refine ⟨p, hstack.interrupted.stub, .between rfl (hphase.bootEnds hS hsti ?_), hroutine⟩
      intro k₁ seen hrun
      exact ⟨_, hrun.exit hrunning hround⟩
  | bootHalted hcur hhalted =>
      have hsti := hs.afterSti hcur hstack
      rw [hcur] at hstack hphase
      refine ⟨p, hstack.interrupted.stub, .between rfl (hphase.bootEnds hS hsti ?_), hroutine⟩
      intro k₁ seen hrun
      exact ⟨_, hrun.halted hhalted⟩
  | eoi hcur =>
      rw [hcur] at hstack hphase
      exact ⟨p, hstack.interrupted.stub, .between rfl (hphase.outside rfl), hroutine⟩
  | sti hcur =>
      rw [hcur] at hstack hphase
      exact ⟨p, hstack.interrupted.stub, .between rfl (hphase.outside rfl), hroutine⟩
  | @iret _ _ c cs hcur hbelow =>
      have hflagged := (hs.below c (by rw [hbelow]; exact List.mem_cons_self)).1
      rw [hcur] at hstack hphase
      rw [hbelow] at hstack
      have hloop : c.inLoop = false := by
        cases c with
        | main q => rfl
        | stub irq f q => cases q <;> first | rfl | cases hflagged
      exact ⟨p, hstack.interrupted, .between hloop (hphase.outside rfl), hroutine⟩

theorem Reachable.serialAt {h : Hardware δ} {idt : Idt} {s : System δ} (hs : Reachable h idt s) :
    ∃ p, SerialAt (Serial h anyCommand) s p := by
  induction hs with
  | refl => exact ⟨.gdtInstall, .main, .between rfl .start, fun hp => by cases hp⟩
  | tail hs hstep ih =>
      obtain ⟨p, hat⟩ := ih
      exact hat.step (Serial.closed h) (Reachable.sound hs) hstep

omit [Ports δ] in
theorem Sound.inLoop {s : System δ} (hs : s.Sound) (hservice : s.inService = false) :
    s.current.inLoop = false := by
  have hin := hs.service
  rw [hservice] at hin
  cases hcur : s.current with
  | main p => rfl
  | stub irq f q =>
      rw [hcur] at hin
      cases q <;> first | rfl | cases hin

end System

variable {δ : Type} [Ports δ]

theorem Serial.unmasked {h : Hardware δ} {allowed : Command → Prop} {p : MainPoint} {k : Kernel δ}
    (hk : Serial h allowed p k) (hp : p.maskCleared = true) : k.Unmasked := by
  induction hk with
  | start => cases hp
  | @main p k _ ih =>
      cases p with
      | clearMask => exact masked_clearMask k.pic
      | sti => exact ih rfl
      | hlt => exact ih rfl
      | consoleInit => exact (ih rfl).of_pic (by simp [MainPoint.run])
      | ataInit => exact (ih rfl).of_pic (by simp [MainPoint.run, Kernel.ataInit])
      | printReady => exact (ih rfl).of_pic (by simp [MainPoint.run, printReady])
      | shellInit => exact (ih rfl).of_pic (by simp [MainPoint.run, Kernel.shellInit, shellPrompt])
      | _ => cases hp
  | key _ _ _ _ _ hrun ih => exact (ih hp).keyboardHandler hrun

theorem serial_booted (h : Hardware δ) (allowed : Command → Prop) :
    Serial h allowed .hlt (booted h) := by
  have hmasked : Serial h allowed .clearMask _ :=
    ((((((Serial.start (h := h)).main).main).main).main).main).main.main
  exact hmasked.main.main.main.main.main.main

namespace System

open Relation

-- The main program stands at `p` and no interrupt is being served.
structure Quiet (s : System δ) (p : MainPoint) : Prop where
  current : s.current = .main p
  below : s.below = []

theorem Quiet.main {s : System δ} {p : MainPoint} (hs : s.Quiet p) :
    (s.mainStep p).Quiet p.next := by
  obtain ⟨hnext, hbelow, -⟩ := mainStep_point hs.current
  exact ⟨hnext, hbelow.trans hs.below⟩

omit [Ports δ] in
theorem Quiet.stacked {s : System δ} {p : MainPoint} (hs : s.Quiet p) :
    Stacked p (s.current :: s.below) := by
  rw [hs.current, hs.below]
  exact .main

theorem Quiet.routine {h : Hardware δ} {idt : Idt} {s : System δ} {p : MainPoint}
    (hquiet : s.Quiet p) (hs : Reachable h idt s) (hp : p.routineInstalled = true) :
    s.routines keyboardIrq = some .keyboardHandler := by
  obtain ⟨q, hat⟩ := hs.serialAt
  obtain rfl := hquiet.stacked.unique hat.stack
  exact hat.routine hp

theorem Quiet.key_runs {h : Hardware δ} {idt : Idt} {s : System δ} {p : MainPoint}
    (hquiet : s.Quiet p) (hs : Reachable h idt s) (hp : p.afterSti = true)
    (hmask : s.kernel.Unmasked) {scancode : Byte} {polls : List (Option Byte)} {k : Kernel δ}
    (hrun : s.kernel.keyboardHandler scancode polls = some k) :
    ReflTransGen Step s { s with kernel := k } := by
  have hroutine := hquiet.routine hs (MainPoint.routineInstalled_of_afterSti hp)
  have hcur := hquiet.current
  obtain ⟨hflag, hservice, -, hgate, -⟩ := hs.sound
  obtain ⟨kernel, idt, routines, interruptFlag, inService, current, below⟩ := s
  dsimp only at hroutine hcur hmask hrun hflag hservice hgate
  subst hcur
  have hset : interruptFlag = true := hflag.trans hp
  have hfree : inService = false := hservice
  subst hset hfree
  have hbase : (idt keyboardVector).base = some (.irq keyboardIrq) :=
    congrArg IdtEntry.base (hgate (Control.gate_of_flag hp))
  have hdeliver := Step.deliver (s := ⟨kernel, idt, routines, true, false, .main p, below⟩)
    ⟨rfl, rfl, hmask⟩ hbase
  refine ReflTransGen.head hdeliver (ReflTransGen.head (Step.cli rfl) ?_)
  refine (handler_runs rfl hroutine hrun).trans ?_
  refine ReflTransGen.head (Step.eoi rfl) (ReflTransGen.head (Step.sti rfl) ?_)
  exact ReflTransGen.single (Step.iret rfl rfl)

theorem Serial.reachable {h : Hardware δ} (idt : Idt) {p : MainPoint} {k : Kernel δ}
    (hk : Serial h anyCommand p k) : ∃ s, Reachable h idt s ∧ s.Quiet p ∧ s.kernel = k := by
  induction hk with
  | start => exact ⟨initial h idt, .refl, ⟨rfl, rfl⟩, rfl⟩
  | main _ ih =>
      obtain ⟨s, hs, hquiet, rfl⟩ := ih
      exact ⟨_, main_runs hs hquiet.current, hquiet.main, (mainStep_point hquiet.current).2.2⟩
  | key _ _ hserial hsti _ hrun ih =>
      obtain ⟨s, hs, hquiet, rfl⟩ := ih
      have hmask := hserial.unmasked (MainPoint.maskCleared_of_afterSti hsti)
      have hkey := hquiet.key_runs hs hsti hmask hrun
      exact ⟨_, hs.trans hkey, ⟨hquiet.current, hquiet.below⟩, rfl⟩

theorem Reachable.serial {h : Hardware δ} {idt : Idt} {s : System δ} (hs : Reachable h idt s)
    (hservice : s.inService = false) {p : MainPoint} (hstack : Stacked p (s.current :: s.below)) :
    Serial h anyCommand p s.kernel := by
  obtain ⟨q, hstack', hphase, -⟩ := hs.serialAt
  obtain rfl := hstack.unique hstack'
  exact hphase.outside (hs.sound.inLoop hservice)

-- In this model a call of `kernel_main` is one step, so that no key comes inside of it.
theorem serial_iff_reachable (h : Hardware δ) (idt : Idt) (p : MainPoint) (k : Kernel δ) :
    (∃ s, Reachable h idt s ∧ s.inService = false ∧ Stacked p (s.current :: s.below) ∧
      s.kernel = k) ↔ Serial h anyCommand p k := by
  constructor
  · rintro ⟨s, hs, hservice, hstack, rfl⟩
    exact hs.serial hservice hstack
  · intro hk
    obtain ⟨s, hs, hquiet, hkernel⟩ := Serial.reachable idt hk
    refine ⟨s, hs, ?_, hquiet.stacked, hkernel⟩
    rw [hs.sound.service, hquiet.current]
    rfl

-- The kernel in its last loop, after some of the keys that it was given there.
def AfterKeys (k₀ : Kernel δ) (p : MainPoint) (k : Kernel δ) : Prop :=
  p = .hlt ∧ ∃ history, k₀.runKeys history = some k

theorem AfterKeys.closed (k₀ : Kernel δ) : Closed (AfterKeys k₀) where
  main hk := by
    obtain ⟨rfl, hrun⟩ := hk
    exact ⟨rfl, hrun⟩
  key scancode polls _ hk hkey := by
    obtain ⟨rfl, history, hrun⟩ := hk
    exact ⟨rfl, history ++ [(scancode, polls)], runKeys_concat hrun hkey⟩

omit [Ports δ] in
theorem Idle.sound {s : System δ} (hidle : s.Idle) (hbelow : s.below = []) : s.Sound := by
  obtain ⟨hcur, hflag, hservice, hgate, -⟩ := hidle
  refine ⟨?_, ?_, ?_, fun _ => hgate, ?_⟩
  · rw [hflag, hcur]
    rfl
  · rw [hservice, hcur]
    rfl
  · rw [hcur]
    rfl
  · rw [hbelow]
    exact fun c hc => by cases hc

theorem Idle.serialAt {s₀ s : System δ} (hidle : s₀.Idle) (hbelow : s₀.below = [])
    (hrun : ReflTransGen Step s₀ s) : s.Sound ∧ ∃ p, SerialAt (AfterKeys s₀.kernel) s p := by
  induction hrun with
  | refl =>
      have hquiet : s₀.Quiet .hlt := ⟨hidle.current, hbelow⟩
      refine ⟨hidle.sound hbelow, .hlt, hquiet.stacked, ?_, fun _ => hidle.routine⟩
      rw [hidle.current]
      exact .between rfl ⟨rfl, [], rfl⟩
  | tail _ hstep ih =>
      obtain ⟨hsound, p, hat⟩ := ih
      exact ⟨hsound.step hstep, hat.step (AfterKeys.closed s₀.kernel) hsound hstep⟩

-- The loop calls nothing, so that here every interleaving is one of single instructions or of
-- steps that the processor does with its interrupts off.
theorem interrupts_serialize {s₀ : System δ} (hidle : s₀.Idle) (hbelow : s₀.below = [])
    (hmask : s₀.kernel.Unmasked) (k : Kernel δ) :
    (∃ s, ReflTransGen Step s₀ s ∧ s.inService = false ∧ s.kernel = k) ↔
      ∃ history, s₀.kernel.runKeys history = some k := by
  constructor
  · rintro ⟨s, hrun, hservice, rfl⟩
    obtain ⟨hsound, p, hat⟩ := hidle.serialAt hbelow hrun
    exact (hat.phase.outside (hsound.inLoop hservice)).2
  · rintro ⟨history, hkeys⟩
    exact ⟨_, hidle.history_runs hmask hkeys, hidle.inService, rfl⟩

theorem interrupts_serialize_typed :
    ∃ s₀ s : System IdealDrive,
      Reachable (Hardware.plain (IdealDrive.holding [])) (fun _ => ⟨none, 0, 0⟩) s₀ ∧ s₀.Idle ∧
      (ReflTransGen Step s₀ s ∧ s.inService = false ∧ s.kernel.lineBuf = text "c64resume") ∧
      ∀ s', ReflTransGen Step s₀ s' → s'.inService = false →
        ∃ history, s₀.kernel.runKeys history = some s'.kernel := by
  obtain ⟨s₀, hs₀, hidle, hkernel⟩ := boot_runs_to_idle (Hardware.plain (IdealDrive.holding []))
    fun _ => ⟨none, 0, 0⟩
  obtain ⟨k, hkeys, htyped⟩ := (typed_booted (Hardware.plain (IdealDrive.holding []))).keys
    c64resumeKeys (by decide) (by decide)
  have hmask : s₀.kernel.Unmasked := by
    rw [hkernel]
    exact unmasked_booted _
  obtain ⟨q, hat⟩ := hs₀.serialAt
  have hstack := hat.stack
  rw [hidle.current] at hstack
  have hserial := interrupts_serialize hidle hstack.main_top.2 hmask
  rw [← hkernel] at hkeys
  obtain ⟨s, hrun, hservice, rfl⟩ := (hserial k).mpr ⟨_, hkeys⟩
  refine ⟨s₀, s, hs₀, hidle, ⟨hrun, hservice, htyped.lineBuf⟩, fun s' hrun' hservice' => ?_⟩
  exact (hserial s'.kernel).mp ⟨s', hrun', hservice', rfl⟩

end System

end CDosX86
