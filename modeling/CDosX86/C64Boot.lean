import CDosX86.Shell

namespace CDosX86

structure BootState where
  stepsSinceIrq : Nat
  c64 : C64
  keyboard : Keyboard

inductive BootExit where
  | halted
  | f12
  | exitRequested
  deriving DecidableEq

def batchSteps : Nat := 5000

def irqInterval : Nat := 200000

def bootBatch : Nat → C64 → Nat × C64
  | 0, k => (0, k)
  | n + 1, k =>
      if k.cpu.halted then (0, k)
      else
        let (steps, k) := bootBatch n k.step
        (steps + 1, k)

def bootRun (s : BootState) : BootState :=
  let (steps, k) := bootBatch batchSteps s.c64
  let stepsSinceIrq := s.stepsSinceIrq + steps
  if stepsSinceIrq ≥ irqInterval then { s with stepsSinceIrq := 0, c64 := k.irq }
  else { s with stepsSinceIrq := stepsSinceIrq, c64 := k }

def bootPoll (waiting : Option Byte) (s : BootState) : Byte × BootState :=
  let (c, kb) := s.keyboard.pollChar waiting
  (c, { s with keyboard := kb, c64 := if c ≠ 0 then s.c64.injectKey c else s.c64 })

def bootCheck (s : BootState) : Option BootExit × BootState :=
  let (pressed, kb) := s.keyboard.f12WasPressed
  let s := { s with keyboard := kb }
  if pressed then (some .f12, s)
  else
    let (requested, k) := s.c64.exitWasRequested
    (if requested then some .exitRequested else none, { s with c64 := k })

-- One round of the loop of `cmd_c64boot`, with what its poll of the keyboard finds.
def bootRound (waiting : Option Byte) (s : BootState) : Option BootExit × BootState :=
  bootCheck (bootPoll waiting (bootRun s)).2

-- `none` while the loop is still running after the last poll of the list; otherwise also the
-- polls that it did not come to.
def bootLoop : List (Option Byte) → BootState → Option (BootExit × List (Option Byte) × BootState)
  | [], s => if s.c64.cpu.halted then some (.halted, [], s) else none
  | waiting :: polls, s =>
      if s.c64.cpu.halted then some (.halted, waiting :: polls, s)
      else
        match bootRound waiting s with
        | (some e, s) => some (e, polls, s)
        | (none, s) => bootLoop polls s

inductive BootLoops : List (Option Byte) → BootState → BootExit → List (Option Byte) →
    BootState → Prop
  | halted {polls : List (Option Byte)} {s : BootState} : s.c64.cpu.halted = true →
      BootLoops polls s .halted polls s
  | exit {waiting : Option Byte} {polls : List (Option Byte)} {s s' : BootState} {e : BootExit} :
      s.c64.cpu.halted = false → bootRound waiting s = (some e, s') →
        BootLoops (waiting :: polls) s e polls s'
  | round {waiting : Option Byte} {polls rest : List (Option Byte)} {s s₁ s' : BootState}
      {e : BootExit} : s.c64.cpu.halted = false → bootRound waiting s = (none, s₁) →
        BootLoops polls s₁ e rest s' → BootLoops (waiting :: polls) s e rest s'

theorem bootLoop_iff {polls rest : List (Option Byte)} {s s' : BootState} {e : BootExit} :
    bootLoop polls s = some (e, rest, s') ↔ BootLoops polls s e rest s' := by
  constructor
  · intro h
    induction polls generalizing s with
    | nil =>
        rw [bootLoop] at h
        split at h
        · next hhalted =>
          cases h
          exact .halted hhalted
        · cases h
    | cons waiting polls ih =>
        rw [bootLoop] at h
        split at h
        · next hhalted =>
          cases h
          exact .halted hhalted
        · next hrunning =>
          have hrun := Bool.eq_false_of_not_eq_true hrunning
          split at h
          · next hround =>
            cases h
            exact .exit hrun hround
          · next hround => exact .round hrun hround (ih h)
  · intro h
    induction h with
    | @halted polls s hhalted => cases polls <;> rw [bootLoop, if_pos hhalted]
    | exit hrun hround => rw [bootLoop, hrun, if_neg (by decide), hround]
    | round hrun hround _ ih =>
        rw [bootLoop, hrun, if_neg (by decide), hround]
        exact ih

def printHalt (k : C64) : C64 :=
  let k := k.print (text "C64 halted -- opcode $")
  let (opcode, k) := k.readByte (k.cpu.pc - 1)
  let k := k.printHex (opcode.setWidth 32)
  let k := (k.print (text " at PC-1: $")).printHex (k.cpu.pc.setWidth 32 - 1)
  let k := (k.print (text "  SP=$")).printHex (k.cpu.sp.setWidth 32)
  let k := ((k.print (text " (")).printDec (k.cpu.sp.setWidth 32)).print (text ")\n")
  let k := k.print (text "SP at oper_cmp_eq entry ($A06E): ")
  let k := (k.printDec k.machine.trace.spAtA06e).putchar newline
  k.onConsole (printTrace k.machine.trace)

namespace Kernel

variable {δ : Type} [Ports δ]

def bootState (k : Kernel δ) : BootState :=
  { stepsSinceIrq := 0, c64 := k.c64, keyboard := k.keyboard }

def withBootState (s : BootState) (k : Kernel δ) : Kernel δ :=
  { k with c64 := s.c64, keyboard := s.keyboard }

def bootStart (k : Kernel δ) : Int × Kernel δ :=
  let (r, k) := k.c64Init
  if r ≠ 0 then (-1, k.print (text "C64 init failed.\n"))
  else (0, (k.onConsole Console.clear).onPic (Pic.setMask 1))

def bootEnd (e : BootExit) (k : Kernel δ) : Kernel δ :=
  let k := (k.onPic (Pic.clearMask 1)).onConsole Console.clear
  let k := k.print (text "copy_CHRGET ($E3E0) hit count: ")
  let k := (k.printDec k.c64.machine.trace.hitE3e0).putchar newline
  if e = .f12 then k.print (text "Exited via F12.\n")
  else if k.c64.cpu.halted then k.onC64 printHalt
  else k.print (text "Exited C64 mode.\n")

def cmdC64boot (polls : List (Option Byte)) (k : Kernel δ) : Option (Kernel δ) :=
  let (r, k) := k.bootStart
  if r ≠ 0 then some k
  else
    match bootLoop polls k.bootState with
    | some (e, _, s) => some ((k.withBootState s).bootEnd e)
    | none => none

theorem cmdC64boot_cases {polls : List (Option Byte)} {k k' : Kernel δ}
    (hrun : k.cmdC64boot polls = some k') :
    k.bootStart.1 ≠ 0 ∧ k' = k.bootStart.2 ∨
      ∃ e rest s, bootLoop polls k.bootStart.2.bootState = some (e, rest, s) ∧
        k' = (k.bootStart.2.withBootState s).bootEnd e := by
  rw [cmdC64boot] at hrun
  dsimp only at hrun
  split at hrun
  · next hfail => exact Or.inl ⟨hfail, (Option.some_inj.mp hrun).symm⟩
  · split at hrun
    · next e rest s hloop => exact Or.inr ⟨e, rest, s, hloop, (Option.some_inj.mp hrun).symm⟩
    · cases hrun

end Kernel

end CDosX86
