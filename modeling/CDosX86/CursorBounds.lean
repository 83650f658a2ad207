import CDosX86.Printing
import CDosX86.C64Calls
import CDosX86.IrqTransparency
import CDosX86.ShellExecute

namespace CDosX86

open Mos6502

namespace Console

structure InScreen (k : Console) : Prop where
  lt : k.cursorPos < 4000
  even : k.cursorPos % 2 = 0

theorem InScreen.clear (k : Console) : k.clear.InScreen := ⟨by simp, rfl⟩

theorem cursorPos_place (c : Byte) (k : Console) :
    (k.place c).cursorPos =
      if c = newline then k.cursorPos + (160 - k.cursorPos % 160) else k.cursorPos + 2 := by
  unfold place
  split <;> rfl

theorem cursorPos_putchar (c : Byte) (k : Console) :
    (k.putchar c).cursorPos =
      if (k.place c).cursorPos < 4000 then (k.place c).cursorPos
      else (k.place c).cursorPos - 160 := by
  rw [putchar_eq, cursorPos_updateCursor]
  split
  · next hroom => rw [scrollIfNeeded_room hroom]
  · next hfull => rw [cursorPos_scrollIfNeeded (Nat.not_lt.mp hfull)]

theorem InScreen.putchar {k : Console} (h : k.InScreen) (c : Byte) : (k.putchar c).InScreen := by
  obtain ⟨hlt, heven⟩ := h
  constructor
  · rw [cursorPos_putchar, cursorPos_place]
    grind
  · rw [cursorPos_putchar, cursorPos_place]
    grind

theorem InScreen.print {k : Console} (h : k.InScreen) (s : List Byte) : (k.print s).InScreen := by
  induction s generalizing k with
  | nil => exact h
  | cons c s ih => exact ih (h.putchar c)

theorem InScreen.printHexW {k : Console} (h : k.InScreen) (val : BitVec 32) (width : Nat) :
    (k.printHexW val width).InScreen :=
  h.print _

theorem InScreen.printHex {k : Console} (h : k.InScreen) (val : BitVec 32) :
    (k.printHex val).InScreen :=
  (h.print _).print _

theorem InScreen.printDec {k : Console} (h : k.InScreen) (val : BitVec 32) :
    (k.printDec val).InScreen := by
  unfold Console.printDec
  split
  · exact h.putchar _
  · exact h.print _

end Console

def C64Mem.InScreen (m : C64Mem) : Prop := m.console.InScreen

theorem C64Mem.InScreen.write {m : C64Mem} (h : m.InScreen) (addr : Word) (val : Byte) :
    (m.write addr val).InScreen := by
  unfold C64Mem.write
  dsimp only
  split
  · unfold Console.putcharAt
    split <;> exact ⟨h.lt, h.even⟩
  · exact h

theorem C64Mem.InScreen.read {m : C64Mem} (h : m.InScreen) (addr : Word) :
    (m.read addr).2.InScreen := by
  unfold C64Mem.read C64Mem.ioRead
  dsimp only
  split_ifs <;> exact h

theorem inScreen_stable : Stable fun s : Cpu C64Mem => s.mem.InScreen where
  pc _ _ h := h
  put _ r _ h := by cases r <;> exact h
  flags _ _ _ _ _ h := h
  pulled _ _ h := h
  halt _ h := h
  read _ addr h := h.read addr
  write _ addr val h := h.write addr val

def Machine.InScreen (m : Machine) : Prop := m.mem.InScreen

theorem Machine.InScreen.step {m : Machine} (h : m.InScreen) : (stepM m).InScreen := by
  have hstep := inScreen_stable.keeps_step (s := arch m) (fun _ _ _ _ _ hs => hs) h
  rwa [← arch_stepM] at hstep

theorem Machine.InScreen.irq {m : Machine} (h : m.InScreen) : (irqM m).InScreen := by
  have hirq := inScreen_stable.keeps_irq (s := arch m) (fun _ _ hs => hs) h
  rwa [← arch_irqM] at hirq

namespace C64

def InScreen (k : C64) : Prop := k.machine.InScreen

variable {k : C64}

theorem InScreen.onConsole (h : k.InScreen) {f : Console → Console}
    (hf : ∀ con, con.InScreen → (f con).InScreen) : (k.onConsole f).InScreen :=
  hf _ h

theorem InScreen.print (h : k.InScreen) (s : List Byte) : (k.print s).InScreen :=
  Console.InScreen.print h s

theorem InScreen.printDec (h : k.InScreen) (val : BitVec 32) : (k.printDec val).InScreen :=
  Console.InScreen.printDec h val

theorem InScreen.printHex (h : k.InScreen) (val : BitVec 32) : (k.printHex val).InScreen :=
  Console.InScreen.printHex h val

theorem InScreen.putchar (h : k.InScreen) (c : Byte) : (k.putchar c).InScreen :=
  Console.InScreen.putchar h c

theorem InScreen.readByte (h : k.InScreen) (addr : Word) : (k.readByte addr).2.InScreen :=
  C64Mem.InScreen.read h addr

theorem InScreen.step (h : k.InScreen) : k.step.InScreen := Machine.InScreen.step h

theorem InScreen.irq (h : k.InScreen) : k.irq.InScreen := Machine.InScreen.irq h

theorem InScreen.injectKey (h : k.InScreen) (c : Byte) : (k.injectKey c).InScreen :=
  keep_injectKey (I := Machine.InScreen) (fun addr val _ hm => C64Mem.InScreen.write hm addr val) c h

theorem InScreen.upto {body : Nat → C64 → C64} (hbody : ∀ i k, k.InScreen → (body i k).InScreen)
    (h : k.InScreen) (n : Nat) : (Loop.upto body n k).InScreen :=
  Loop.upto_invariant (I := fun _ k => k.InScreen) h fun i t _ ht => hbody i t ht

theorem InScreen.dumpRow {read : BitVec 32 → C64 → Byte × C64}
    (hread : ∀ addr k, k.InScreen → (read addr k).2.InScreen) (addr len i : BitVec 32)
    (h : k.InScreen) : (dumpRow read addr len i k).InScreen := by
  refine InScreen.putchar (InScreen.upto (fun j k hk => ?_) ((h.printHex _).print _) _) _
  exact (((hread _ k hk).putchar _).putchar _).putchar _

theorem InScreen.dumpRows {read : BitVec 32 → C64 → Byte × C64}
    (hread : ∀ addr k, k.InScreen → (read addr k).2.InScreen) (addr len : BitVec 32)
    (h : k.InScreen) : (dumpRows read addr len k).InScreen :=
  InScreen.upto (fun _ _ hk => hk.dumpRow hread addr len _) h _

theorem InScreen.cmdDump (memory : BitVec 32 → Byte) (tokens : List (List Byte))
    (h : k.InScreen) : (cmdDump memory tokens k).InScreen := by
  unfold CDosX86.cmdDump
  split
  · split
    · exact h.dumpRows (fun _ _ hk => hk) _ _
    · exact h.print _
  · exact h.print _

theorem InScreen.cmdC64mem (tokens : List (List Byte)) (h : k.InScreen) :
    (cmdC64mem tokens k).InScreen := by
  unfold CDosX86.cmdC64mem
  split
  · split
    · exact h.dumpRows (fun _ _ hk => hk.readByte _) _ _
    · exact h.print _
  · exact h.print _

theorem printTrace_inScreen (t : Trace) {con : Console} (h : con.InScreen) :
    (printTrace t con).InScreen := by
  refine Console.InScreen.putchar ?_ _
  have hstart := h.print (text "Trace (oldest to newest):\n")
  generalize con.print (text "Trace (oldest to newest):\n") = start at hstart
  generalize (traceDumpOrdered t traceLen).zipIdx = rows
  induction rows generalizing start with
  | nil => exact hstart
  | cons row rows ih =>
      apply ih
      dsimp only
      have hrow := (((hstart.printHexW (row.1.1.setWidth 32) 4).print (text ":")).printHexW
        (row.1.2.setWidth 32) 2).print (text "  ")
      split
      · exact hrow.putchar newline
      · exact hrow

theorem InScreen.cmdC64tracedump (h : k.InScreen) : (cmdC64tracedump k).InScreen :=
  h.onConsole fun _ => printTrace_inScreen _

theorem InScreen.traceStep (i : Nat) (h : k.InScreen) : (traceStep i k).InScreen := by
  unfold CDosX86.traceStep
  simp only [putchar_eq_print, printHex_eq_print, printDec_eq_print, print_print, cpu_print]
  have hstepped (s : List Byte) : ((k.readByte k.cpu.pc).2.print s).step.InScreen :=
    ((h.readByte _).print s).step
  split
  · exact (hstepped _).irq
  · exact hstepped _

theorem InScreen.traceLoop (n i : Nat) (h : k.InScreen) : (traceLoop n i k).InScreen := by
  induction n generalizing i k with
  | zero => exact h
  | succ n ih =>
      rw [CDosX86.traceLoop]
      split
      · exact h.print _
      · exact ih _ (h.traceStep i)

theorem InScreen.cmdC64trace (tokens : List (List Byte)) (h : k.InScreen) :
    (cmdC64trace tokens k).InScreen := by
  unfold CDosX86.cmdC64trace
  dsimp only
  split
  · exact h.print _
  · exact traceLoop _ _ (((h.print _).printDec _).print _)

theorem InScreen.cmdC64key (tokens : List (List Byte)) (h : k.InScreen) :
    (cmdC64key tokens k).InScreen := by
  unfold CDosX86.cmdC64key
  split
  · split
    · exact h.print _
    · exact (((h.injectKey _).print _).putchar _).print _
  · exact h.print _

theorem InScreen.cmdC64enter (h : k.InScreen) : (cmdC64enter k).InScreen :=
  (h.injectKey _).print _

theorem InScreen.screenRow (row : Nat) (h : k.InScreen) : (screenRow row k).InScreen := by
  refine InScreen.print (InScreen.upto (fun col k hk => ?_) (h.putchar _) _) _
  exact (hk.readByte _).putchar _

theorem InScreen.cmdC64screen (h : k.InScreen) : (cmdC64screen k).InScreen := by
  have hclear := h.onConsole (f := Console.clear) fun con _ => .clear con
  exact (InScreen.upto (fun row _ hk => hk.screenRow row) ((hclear.print _).print _) 25).print _

theorem InScreen.typeRun (n steps : Nat) (h : k.InScreen) : (typeRun n steps k).2.InScreen := by
  induction n generalizing steps k with
  | zero => exact h
  | succ n ih =>
      rw [CDosX86.typeRun]
      split
      · exact h
      · dsimp only
        split
        · exact ih _ h.step.irq
        · exact ih _ h.step

theorem InScreen.typeLine (line : List Byte) (h : k.InScreen) : (typeLine line k).InScreen := by
  refine InScreen.injectKey ?_ _
  induction line generalizing k with
  | nil => exact h
  | cons c line ih => exact ih (h.injectKey c)

theorem InScreen.cmdC64type (line : List Byte) (h : k.InScreen) :
    (cmdC64type line k).InScreen := by
  unfold CDosX86.cmdC64type
  generalize typeMaxSteps = n
  simp only [putchar_eq_print, printDec_eq_print, print_print]
  exact (((h.typeLine line).print _).typeRun n 0).print _

theorem writeProgram_inScreen (base : Word) (program : List Byte) {m : C64Mem} (h : m.InScreen) :
    (writeProgram base program m).InScreen := by
  unfold writeProgram
  generalize program.zipIdx = code
  induction code generalizing m with
  | nil => exact h
  | cons c code ih => exact ih (h.write _ _)

theorem testRun_inScreen (n : Nat) {m : Machine} (h : m.InScreen) : (testRun n m).2.InScreen := by
  induction n generalizing m with
  | zero => exact h
  | succ n ih =>
      rw [testRun]
      split
      · exact h
      · exact ih h.step

theorem InScreen.testProgram (base : Word) (program : List Byte) (h : k.InScreen) :
    (testProgram base program k).2.2.InScreen := by
  unfold CDosX86.testProgram
  generalize testMaxSteps = n
  have hloaded : (writeProgram base program k.mem).InScreen := writeProgram_inScreen base program h
  exact testRun_inScreen n (m := resetM base { k.machine with mem := _ }) hloaded

theorem InScreen.test1Loop (h : k.InScreen) : (test1Loop k).InScreen := by
  unfold CDosX86.test1Loop
  simp only [printDec_eq_print, print_print]
  split <;> exact (h.testProgram _ _).print _

theorem InScreen.test2JsrRts (h : k.InScreen) : (test2JsrRts k).InScreen := by
  unfold CDosX86.test2JsrRts
  simp only [printDec_eq_print, print_print]
  split <;> exact ((h.testProgram _ _).readByte _).print _

theorem InScreen.cpu6502RunTest (h : k.InScreen) : (cpu6502RunTest k).InScreen :=
  (h.print _).test1Loop.test2JsrRts

theorem InScreen.resumeLoop (n steps : Nat) (h : k.InScreen) :
    (Kernel.resumeLoop n steps k).2.InScreen := by
  induction n generalizing steps k with
  | zero => exact h
  | succ n ih =>
      rw [Kernel.resumeLoop]
      split
      · exact h
      · apply ih
        unfold Kernel.resumeStep
        split
        · exact h.step.irq
        · exact h.step

theorem InScreen.bootBatch (n : Nat) (h : k.InScreen) : (bootBatch n k).2.InScreen := by
  induction n generalizing k with
  | zero => exact h
  | succ n ih =>
      rw [CDosX86.bootBatch]
      split
      · exact h
      · exact ih h.step

theorem InScreen.printHalt (h : k.InScreen) : (printHalt k).InScreen := by
  unfold CDosX86.printHalt
  simp only [putchar_eq_print, printHex_eq_print, printDec_eq_print, print_print, cpu_print]
  exact (((h.print _).readByte _).print _).onConsole fun _ => printTrace_inScreen _

end C64

theorem storeRom_inScreen (loadAddr : Word) (buffer : Buffer) (size : Nat) {m : C64Mem}
    (h : m.InScreen) : (storeRom loadAddr buffer size m).InScreen :=
  Loop.upto_invariant (I := fun _ m => C64Mem.InScreen m) h fun _ _ _ hm => hm.write _ _

theorem bootRun_inScreen {s : BootState} (h : s.c64.InScreen) : (bootRun s).c64.InScreen := by
  rw [bootRun]
  dsimp only
  split
  · exact (h.bootBatch batchSteps).irq
  · exact h.bootBatch batchSteps

theorem bootPoll_inScreen (waiting : Option Byte) {s : BootState} (h : s.c64.InScreen) :
    (bootPoll waiting s).2.c64.InScreen := by
  rw [bootPoll]
  dsimp only
  split
  · exact h.injectKey _
  · exact h

theorem bootCheck_inScreen {s : BootState} (h : s.c64.InScreen) :
    (bootCheck s).2.c64.InScreen := by
  have hexit : s.c64.exitWasRequested.2.InScreen := by
    rw [C64.exitWasRequested]
    split <;> exact h
  rw [bootCheck]
  dsimp only
  split
  · exact h
  · exact hexit

theorem bootLoop_inScreen {polls polls' : List (Option Byte)} {s s' : BootState} {e : BootExit}
    (h : s.c64.InScreen) (hrun : bootLoop polls s = some (e, polls', s')) : s'.c64.InScreen := by
  have hround (waiting : Option Byte) {s : BootState} (h : s.c64.InScreen) :
      (bootRound waiting s).2.c64.InScreen :=
    bootCheck_inScreen (bootPoll_inScreen waiting (bootRun_inScreen h))
  rw [bootLoop_iff] at hrun
  induction hrun with
  | halted _ => exact h
  | @exit waiting _ _ _ _ _ hexit =>
      have hlast := hround waiting h
      rwa [hexit] at hlast
  | @round waiting _ _ _ _ _ _ _ hnone _ ih =>
      have hnext := hround waiting h
      rw [hnone] at hnext
      exact ih hnext

theorem dirPrintEntry_inScreen (behindHeader : List Byte) (hdr : FsHeader) (i : Fin 21)
    {con : Console} (h : con.InScreen) : (dirPrintEntry behindHeader hdr i con).InScreen := by
  unfold dirPrintEntry
  exact ((((h.print _).print _).print _).printDec _).print _

theorem fsList_inScreen (behindHeader : List Byte) (fs : Fs) {con : Console} (h : con.InScreen) :
    (fs.fsList (dirPrintEntry behindHeader) con).2.InScreen := by
  rw [Fs.fsList]
  split
  · dsimp only
    generalize fs.scanned = shown
    induction shown generalizing con with
    | nil => exact h
    | cons i shown ih =>
        rw [List.foldl_cons]
        exact ih (dirPrintEntry_inScreen _ _ i h)
  · exact h

theorem cmdHelp_inScreen {con : Console} (h : con.InScreen) : (cmdHelp con).InScreen := by
  unfold cmdHelp
  generalize helpText = lines
  induction lines generalizing con with
  | nil => exact h
  | cons line lines ih => exact ih (h.print _)

theorem cmdPeek_inScreen (memory : BitVec 32 → Byte) (tokens : List (List Byte)) {con : Console}
    (h : con.InScreen) : (cmdPeek memory tokens con).InScreen := by
  unfold cmdPeek
  split
  · split
    · exact ((((h.print _).printHex _).print _).printHex _ |>.print _).printDec _ |>.print _
    · exact h.print _
  · exact h.print _

theorem cmdKbdstat_inScreen (kb : Keyboard) {con : Console} (h : con.InScreen) :
    (cmdKbdstat kb con).InScreen := by
  unfold cmdKbdstat
  refine Console.InScreen.putchar ?_ _
  refine Loop.upto_invariant (I := fun _ k => Console.InScreen k) ?_ fun _ _ _ hk =>
    (hk.printHex _).putchar _
  exact ((((h.print _).printDec _).print _).printHex _).print _

namespace Kernel

variable {δ : Type}

def InScreen (k : Kernel δ) : Prop := k.c64.InScreen

variable {k : Kernel δ}

theorem InScreen.print (h : k.InScreen) (s : List Byte) : (k.print s).InScreen :=
  C64.InScreen.print h s

theorem InScreen.onConsole (h : k.InScreen) {f : Console → Console}
    (hf : ∀ con, con.InScreen → (f con).InScreen) : (k.onConsole f).InScreen :=
  C64.InScreen.onConsole h hf

theorem InScreen.onC64 (h : k.InScreen) {f : C64 → C64}
    (hf : ∀ c, c.InScreen → (f c).InScreen) : (k.onC64 f).InScreen :=
  hf _ h

theorem InScreen.onKeyboard (h : k.InScreen) (f : Keyboard → Keyboard) :
    (k.onKeyboard f).InScreen := h

theorem InScreen.onPic (h : k.InScreen) (f : Pic → Pic) : (k.onPic f).InScreen := h

theorem InScreen.cmdC64resume (h : k.InScreen) : k.cmdC64resume.InScreen := by
  unfold Kernel.cmdC64resume
  generalize resumeMaxSteps = n
  have hstart : k.resumeStart.InScreen := by
    unfold resumeStart
    exact (h.print _).onKeyboard _
  have hloop := C64.InScreen.resumeLoop n 0 hstart
  unfold resumeEnd
  simp only [putchar_eq_print, printHex_eq_print, printDec_eq_print, print_print, c64_print]
  split
  · exact ((C64.InScreen.print hloop _).readByte _).print _
  · exact C64.InScreen.print hloop _

variable [Ports δ]

theorem InScreen.mount (h : k.InScreen) : k.mount.2.InScreen := h

theorem LoadRom.inScreen {filename : List Byte} {loadAddr : Word} {size : BitVec 32}
    {out : Int × Kernel δ} (hout : LoadRom filename loadAddr size k out) (h : k.InScreen) :
    out.2.InScreen := by
  cases hout with
  | missing s _ => exact h.print _
  | wrongSize s _ _ => exact h.print _
  | readFailed s _ _ _ => exact C64.InScreen.print h _
  | stored s _ _ _ => exact C64.InScreen.print (k := k.c64.withMem _) (storeRom_inScreen _ _ _ h) _

theorem InScreen.loadRom (filename : List Byte) (loadAddr : Word) (size : BitVec 32)
    (h : k.InScreen) : (k.loadRom filename loadAddr size).2.InScreen :=
  (loadRom_cases filename loadAddr size k).inScreen h

omit [Ports δ] in
theorem InScreen.resetVector (h : k.InScreen) : k.resetVector.2.InScreen :=
  (C64Mem.InScreen.read h 0xFFFC).read 0xFFFD

theorem InScreen.c64Init (h : k.InScreen) : k.c64Init.2.InScreen := by
  unfold Kernel.c64Init
  simp only [putchar_eq_print, printHex_eq_print, print_print]
  split_ifs
  · exact h.mount.print _
  · exact h.mount.loadRom _ _ _
  · exact (h.mount.loadRom _ _ _).loadRom _ _ _
  · exact ((h.mount.loadRom _ _ _).loadRom _ _ _).resetVector.print _

theorem InScreen.bootStart (h : k.InScreen) : k.bootStart.2.InScreen := by
  unfold Kernel.bootStart
  dsimp only
  split
  · exact h.c64Init.print _
  · exact h.c64Init.onConsole fun con _ => .clear con

omit [Ports δ] in
theorem InScreen.bootEnd (e : BootExit) (h : k.InScreen) : (k.bootEnd e).InScreen := by
  have hcleared : ((k.onPic (Pic.clearMask 1)).onConsole Console.clear).InScreen :=
    (h.onPic _).onConsole fun con _ => .clear con
  unfold Kernel.bootEnd
  simp only [putchar_eq_print, printDec_eq_print, print_print]
  split_ifs
  · exact hcleared.print _
  · exact C64.InScreen.printHalt (hcleared.print _)
  · exact hcleared.print _

theorem InScreen.cmdC64boot {k' : Kernel δ} {polls : List (Option Byte)} (h : k.InScreen)
    (hrun : k.cmdC64boot polls = some k') : k'.InScreen := by
  obtain ⟨-, rfl⟩ | ⟨e, rest, s, hloop, rfl⟩ := cmdC64boot_cases hrun
  · exact h.bootStart
  · have hend := bootLoop_inScreen (s := k.bootStart.2.bootState) h.bootStart hloop
    exact InScreen.bootEnd (k := k.bootStart.2.withBootState s) e hend

theorem InScreen.cmdDir (h : k.InScreen) : k.cmdDir.InScreen := by
  unfold Kernel.cmdDir
  dsimp only
  split
  · exact h.mount.print _
  · exact (h.mount.print _).onConsole fun _ hcon => fsList_inScreen _ _ hcon

theorem InScreen.cmdType (tokens : List (List Byte)) (h : k.InScreen) :
    (k.cmdType tokens).InScreen := by
  obtain ⟨s, heq⟩ | ⟨s, heq⟩ | ⟨entry, s, heq⟩ := cmdType_cases tokens k
  · rw [heq]
    exact h.print s
  · rw [heq]
    exact h.mount.print s
  · rw [heq]
    exact C64.InScreen.print h s

theorem InScreen.cmdDisktest (h : k.InScreen) : k.cmdDisktest.InScreen := by
  obtain ⟨d, s, heq⟩ := cmdDisktest_cases k
  rw [heq]
  exact C64.InScreen.print h s

omit [Ports δ] in
theorem InScreen.cmdPoke (tokens : List (List Byte)) (h : k.InScreen) :
    (k.cmdPoke tokens).InScreen := by
  obtain ⟨memory, s, heq⟩ := cmdPoke_cases tokens k
  rw [heq]
  exact C64.InScreen.print h s

theorem InScreen.runCommand {k' : Kernel δ} {c : Command} {tokens : List (List Byte)}
    {polls : List (Option Byte)} (h : k.InScreen)
    (hrun : k.runCommand c tokens polls = some k') : k'.InScreen := by
  have hsome {k₁ : Kernel δ} (h₁ : k₁.InScreen) (heq : some k₁ = some k') : k'.InScreen := by
    cases heq
    exact h₁
  cases c with
  | c64boot => exact h.cmdC64boot hrun
  | help => exact hsome (h.onConsole fun _ hcon => cmdHelp_inScreen hcon) hrun
  | c64tracedump => exact hsome (h.onC64 fun _ hc => hc.cmdC64tracedump) hrun
  | c64trace => exact hsome (h.onC64 fun _ hc => hc.cmdC64trace tokens) hrun
  | c64mem => exact hsome (h.onC64 fun _ hc => hc.cmdC64mem tokens) hrun
  | c64screen => exact hsome (h.onC64 fun _ hc => hc.cmdC64screen) hrun
  | c64enter => exact hsome (h.onC64 fun _ hc => hc.cmdC64enter) hrun
  | c64resume => exact hsome h.cmdC64resume hrun
  | c64key => exact hsome (h.onC64 fun _ hc => hc.cmdC64key tokens) hrun
  | kbdstat => exact hsome (h.onConsole fun _ hcon => cmdKbdstat_inScreen _ hcon) hrun
  | cputest => exact hsome (h.onC64 fun _ hc => hc.cpu6502RunTest) hrun
  | dir => exact hsome h.cmdDir hrun
  | type => exact hsome (h.cmdType tokens) hrun
  | disktest => exact hsome h.cmdDisktest hrun
  | clear => exact hsome (h.onConsole fun con _ => (Console.InScreen.clear con).print _) hrun
  | peek => exact hsome (h.onConsole fun _ hcon => cmdPeek_inScreen _ tokens hcon) hrun
  | poke => exact hsome (h.cmdPoke tokens) hrun
  | dump => exact hsome (h.onC64 fun _ hc => hc.cmdDump k.memory tokens) hrun

theorem InScreen.shellExecute {k' : Kernel δ} {line : List Byte} {polls : List (Option Byte)}
    (h : k.InScreen) (hrun : k.shellExecute line polls = some k') : k'.InScreen := by
  obtain rfl | rfl | ⟨s, rfl⟩ | ⟨c, -, hrun⟩ := shellExecute_cases hrun
  · exact h.onC64 fun _ hc => hc.cmdC64type _
  · exact h
  · exact h.print s
  · exact h.runCommand hrun

end Kernel

end CDosX86
