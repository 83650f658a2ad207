import CDosX86.Boot

namespace CDosX86

inductive Stub where
  | isr (number : Nat)
  | irq (number : Nat)

structure IdtEntry where
  base : Option Stub
  sel : Word
  flags : Byte

abbrev Idt := Nat → IdtEntry

def idtFlagsIntGate : Byte := 0x8E

def kernelCode : Word := 0x08

def idtSetGate (num : Nat) (base : Option Stub) (sel : Word) (flags : Byte) (idt : Idt) : Idt :=
  Function.update idt num { base := base, sel := sel, flags := flags }

def idtInstall (idt : Idt) : Idt := Loop.upto (fun i => idtSetGate i none 0 0) 256 idt

def isrInstall (idt : Idt) : Idt :=
  Loop.upto (fun i => idtSetGate i (some (.isr i)) kernelCode idtFlagsIntGate) 32 idt

def irqInstall (idt : Idt) : Idt :=
  Loop.upto (fun i => idtSetGate (32 + i) (some (.irq i)) kernelCode idtFlagsIntGate) 16 idt

-- The low four bits of the flags tell an interrupt gate (0xE) from a trap gate (0xF).
def IdtEntry.clearsFlag (e : IdtEntry) : Bool := e.flags &&& 0x0F = 0x0E

inductive Routine where
  | keyboardHandler

abbrev Routines := Nat → Option Routine

def irqInstallHandler (irq : Nat) (handler : Routine) (routines : Routines) : Routines :=
  Function.update routines irq (some handler)

inductive MainPoint where
  | gdtInstall
  | idtInstall
  | isrInstall
  | picRemap
  | irqInstall
  | keyboardInstall
  | setMasks
  | clearMask
  | sti
  | consoleInit
  | ataInit
  | printReady
  | shellInit
  | hlt

inductive StubPoint where
  | cli
  | handler
  | resume (steps : Nat)
  | boot (stepsSinceIrq : Nat)
  | eoi
  | sti
  | iret

-- A stub keeps the interrupt flag that the interrupt pushed with EFLAGS.
inductive Control where
  | main (p : MainPoint)
  | stub (irq : Nat) (pushedFlag : Bool) (p : StubPoint)

structure System (δ : Type) where
  kernel : Kernel δ
  idt : Idt
  routines : Routines
  interruptFlag : Bool
  inService : Bool
  current : Control
  below : List Control

def keyboardIrq : Nat := 1

-- After `pic_remap` the first PIC's lines come in at vectors 0x20 to 0x27.
def keyboardVector : Nat := 0x20 + keyboardIrq

namespace Kernel

variable {δ : Type} [Ports δ]

def entersCommand (scancode : Byte) (k : Kernel δ) : Option (Command × Kernel δ) :=
  let (c, kb) := k.keyboard.handlerChar scancode
  if c = newline ∧ kb.c64ModeActive = false then
    (commandOf k.lineBuf).map fun command => (command, { k with keyboard := kb }.putchar newline)
  else none

-- `shell_input_char` behind the call of `shell_execute`
def lineDone (k : Kernel δ) : Kernel δ := { k with lineBuf := [] }.shellPrompt

end Kernel

namespace System

variable {δ : Type} [Ports δ]

def initial (h : Hardware δ) (idt : Idt) : System δ where
  kernel := Kernel.loaded h
  idt := idt
  routines _ := none
  interruptFlag := false
  inService := false
  current := .main .gdtInstall
  below := []

def mainStep (s : System δ) : MainPoint → System δ
  | .gdtInstall => { s with current := .main .idtInstall }
  | .idtInstall => { s with current := .main .isrInstall, idt := idtInstall s.idt }
  | .isrInstall => { s with current := .main .picRemap, idt := isrInstall s.idt }
  | .picRemap => { s with current := .main .irqInstall }
  | .irqInstall => { s with current := .main .keyboardInstall, idt := irqInstall s.idt }
  | .keyboardInstall =>
      { s with
        current := .main .setMasks
        routines := irqInstallHandler keyboardIrq .keyboardHandler s.routines }
  | .setMasks =>
      { s with current := .main .clearMask, kernel := s.kernel.onPic (Loop.upto Pic.setMask 16) }
  | .clearMask =>
      { s with current := .main .sti, kernel := s.kernel.onPic (Pic.clearMask keyboardIrq) }
  | .sti => { s with current := .main .consoleInit, interruptFlag := true }
  | .consoleInit =>
      { s with current := .main .ataInit, kernel := s.kernel.onConsole Console.init }
  | .ataInit => { s with current := .main .printReady, kernel := s.kernel.ataInit }
  | .printReady => { s with current := .main .shellInit, kernel := s.kernel.printReady }
  | .shellInit => { s with current := .main .hlt, kernel := s.kernel.shellInit }
  | .hlt => s

def deliverable (s : System δ) : Prop :=
  s.interruptFlag = true ∧ s.inService = false ∧ s.kernel.pic.masked keyboardIrq = false

def enter (irq : Nat) (s : System δ) : System δ :=
  { s with
    interruptFlag := s.interruptFlag && !(s.idt keyboardVector).clearsFlag
    inService := true
    current := .stub irq s.interruptFlag .cli
    below := s.current :: s.below }

inductive Step : System δ → System δ → Prop
  | main {s : System δ} {p : MainPoint} : s.current = .main p → Step s (s.mainStep p)
  | deliver {s : System δ} {irq : Nat} : s.deliverable →
      (s.idt keyboardVector).base = some (.irq irq) → Step s (s.enter irq)
  | cli {s : System δ} {irq : Nat} {f : Bool} : s.current = .stub irq f .cli →
      Step s { s with interruptFlag := false, current := .stub irq f .handler }
  | noRoutine {s : System δ} {irq : Nat} {f : Bool} : s.current = .stub irq f .handler →
      s.routines irq = none → Step s { s with current := .stub irq f .eoi }
  | handled {s : System δ} {irq : Nat} {f : Bool} {scancode : Byte} {k : Kernel δ} :
      s.current = .stub irq f .handler → s.routines irq = some .keyboardHandler →
      (∀ k₁, s.kernel.entersCommand scancode ≠ some (.c64resume, k₁)) →
      s.kernel.keyboardHandler scancode [] = some k →
      Step s { s with kernel := k, current := .stub irq f .eoi }
  | resumeStart {s : System δ} {irq : Nat} {f : Bool} {scancode : Byte} {k : Kernel δ} :
      s.current = .stub irq f .handler → s.routines irq = some .keyboardHandler →
      s.kernel.entersCommand scancode = some (.c64resume, k) →
      Step s { s with kernel := k.resumeStart, current := .stub irq f (.resume 0) }
  | resumeStep {s : System δ} {irq : Nat} {f : Bool} {steps : Nat} :
      s.current = .stub irq f (.resume steps) →
      s.kernel.c64.cpu.halted = false → steps < Kernel.resumeMaxSteps →
      Step s
        { s with
          kernel := s.kernel.onC64 (Kernel.resumeStep steps)
          current := .stub irq f (.resume (steps + 1)) }
  | resumeEnd {s : System δ} {irq : Nat} {f : Bool} {steps : Nat} :
      s.current = .stub irq f (.resume steps) →
      (s.kernel.c64.cpu.halted = true ∨ Kernel.resumeMaxSteps ≤ steps) →
      Step s
        { s with kernel := (s.kernel.resumeEnd steps).lineDone, current := .stub irq f .eoi }
  | bootStart {s : System δ} {irq : Nat} {f : Bool} {scancode : Byte} {k : Kernel δ} :
      s.current = .stub irq f .handler → s.routines irq = some .keyboardHandler →
      s.kernel.entersCommand scancode = some (.c64boot, k) → k.bootStart.1 = 0 →
      Step s { s with kernel := k.bootStart.2, current := .stub irq f (.boot 0) }
  | bootRound {s : System δ} {irq : Nat} {f : Bool} {n : Nat} {waiting : Option Byte}
      {b : BootState} :
      s.current = .stub irq f (.boot n) → s.kernel.c64.cpu.halted = false →
      CDosX86.bootRound waiting { s.kernel.bootState with stepsSinceIrq := n } = (none, b) →
      Step s
        { s with
          kernel := s.kernel.withBootState b
          current := .stub irq f (.boot b.stepsSinceIrq) }
  | bootExit {s : System δ} {irq : Nat} {f : Bool} {n : Nat} {waiting : Option Byte}
      {b : BootState} {e : BootExit} :
      s.current = .stub irq f (.boot n) → s.kernel.c64.cpu.halted = false →
      CDosX86.bootRound waiting { s.kernel.bootState with stepsSinceIrq := n } = (some e, b) →
      Step s
        { s with
          kernel := ((s.kernel.withBootState b).bootEnd e).lineDone
          current := .stub irq f .eoi }
  | bootHalted {s : System δ} {irq : Nat} {f : Bool} {n : Nat} :
      s.current = .stub irq f (.boot n) → s.kernel.c64.cpu.halted = true →
      Step s
        { s with kernel := (s.kernel.bootEnd .halted).lineDone, current := .stub irq f .eoi }
  | eoi {s : System δ} {irq : Nat} {f : Bool} : s.current = .stub irq f .eoi →
      Step s { s with inService := false, current := .stub irq f .sti }
  | sti {s : System δ} {irq : Nat} {f : Bool} : s.current = .stub irq f .sti →
      Step s { s with interruptFlag := true, current := .stub irq f .iret }
  | iret {s : System δ} {irq : Nat} {f : Bool} {c : Control} {cs : List Control} :
      s.current = .stub irq f .iret → s.below = c :: cs →
      Step s { s with interruptFlag := f, current := c, below := cs }

def Reachable (h : Hardware δ) (idt : Idt) : System δ → Prop :=
  Relation.ReflTransGen Step (initial h idt)

end System

end CDosX86
