import CDosX86.CpuTestPasses
import CDosX86.CursorBounds
import CDosX86.GuestPacing
import CDosX86.LabelledRuns
import CDosX86.PromptInvariant
import CDosX86.StatusRegister
import CDosX86.TraceRing

namespace CDosX86

open LabelledRuns Mos6502

def InRom (addr : Word) : Prop := 0xA000 ≤ addr ∧ addr ≤ 0xBFFF ∨ 0xE000 ≤ addr

-- All that the kernel ever does with the emulated machine.
inductive GuestAct where
  | step
  | irq
  | reset (startPc : Word)
  | key (c : Byte)
  | store (addr : { addr : Word // InRom addr }) (val : Byte)
  | read (addr : Word)
  | console (f : Console → Console)
  | clearExit
  | firstTest
  | secondTest

def GuestAct.runsGuest : GuestAct → Bool
  | .step => true
  | .irq => true
  | _ => false

def testMachine (base : Word) (program : List Byte) (k : C64) : Machine :=
  resetM base { k.machine with mem := writeProgram base program k.mem }

def testFetched : Nat → Machine → List (Word × Byte)
  | 0, _ => []
  | n + 1, m => if m.cpu.halted then [] else fetched m ++ testFetched n (stepM m)

namespace C64

def act (k : C64) : GuestAct → C64
  | .step => k.step
  | .irq => k.irq
  | .reset startPc => k.reset startPc
  | .key c => k.injectKey c
  | .store addr val => k.write addr val
  | .read addr => (k.readByte addr).2
  | .console f => k.onConsole f
  | .clearExit => { k with exitRequested := false }
  | .firstTest => (testProgram test1Base test1Program k).2.2
  | .secondTest => (testProgram test2Base test2Program k).2.2

def actFetched (k : C64) : GuestAct → List (Word × Byte)
  | .step => fetched k.machine
  | .firstTest => testFetched testMaxSteps (testMachine test1Base test1Program k)
  | .secondTest => testFetched testMaxSteps (testMachine test2Base test2Program k)
  | _ => []

abbrev Acts : C64 → C64 → Prop := Reaches act

namespace Acts

variable {k k' : C64}

theorem step (h : Acts k k') : Acts k k'.step := Reaches.step h .step

theorem irq (h : Acts k k') : Acts k k'.irq := Reaches.step h .irq

theorem reset (h : Acts k k') (startPc : Word) : Acts k (k'.reset startPc) :=
  Reaches.step h (.reset startPc)

theorem injectKey (h : Acts k k') (c : Byte) : Acts k (k'.injectKey c) := Reaches.step h (.key c)

theorem store (h : Acts k k') {addr : Word} (haddr : InRom addr) (val : Byte) :
    Acts k (k'.write addr val) :=
  Reaches.step h (.store ⟨addr, haddr⟩ val)

theorem readByte (h : Acts k k') (addr : Word) : Acts k (k'.readByte addr).2 :=
  Reaches.step h (.read addr)

theorem onConsole (h : Acts k k') (f : Console → Console) : Acts k (k'.onConsole f) :=
  Reaches.step h (.console f)

theorem print (h : Acts k k') (s : List Byte) : Acts k (k'.print s) := h.onConsole (Console.print s)

theorem upto {body : Nat → C64 → C64} (h : Acts k k')
    (hbody : ∀ i k', Acts k k' → Acts k (body i k')) (n : Nat) : Acts k (Loop.upto body n k') :=
  Loop.upto_invariant (I := fun _ k' => Acts k k') h fun i t _ ht => hbody i t ht

theorem dumpRows {read : BitVec 32 → C64 → Byte × C64} (h : Acts k k')
    (hread : ∀ addr k', Acts k k' → Acts k (read addr k').2) (addr len : BitVec 32) :
    Acts k (dumpRows read addr len k') := by
  refine h.upto (fun row k' hk => ?_) _
  unfold dumpRow
  simp only [putchar_eq_print, printHex_eq_print, print_print]
  exact ((hk.print _).upto (fun j k' hk' => (hread _ _ hk').print _) _).print _

theorem cmdDump (h : Acts k k') (memory : BitVec 32 → Byte) (tokens : List (List Byte)) :
    Acts k (cmdDump memory tokens k') := by
  unfold CDosX86.cmdDump
  split
  · split
    · exact h.dumpRows (fun _ _ hk => hk) _ _
    · exact h.print _
  · exact h.print _

theorem cmdC64mem (h : Acts k k') (tokens : List (List Byte)) : Acts k (cmdC64mem tokens k') := by
  unfold CDosX86.cmdC64mem
  split
  · split
    · exact h.dumpRows (fun _ _ hk => hk.readByte _) _ _
    · exact h.print _
  · exact h.print _

theorem traceStep (h : Acts k k') (i : Nat) : Acts k (traceStep i k') := by
  unfold CDosX86.traceStep
  simp only [putchar_eq_print, printHex_eq_print, printDec_eq_print, print_print, cpu_print]
  have hstepped (s : List Byte) : Acts k ((k'.readByte k'.cpu.pc).2.print s).step :=
    ((h.readByte _).print s).step
  split
  · exact (hstepped _).irq
  · exact hstepped _

theorem traceLoop (h : Acts k k') (n i : Nat) : Acts k (traceLoop n i k') := by
  induction n generalizing i k' with
  | zero => exact h
  | succ n ih =>
      rw [CDosX86.traceLoop]
      split
      · exact h.print _
      · exact ih (h.traceStep i) _

theorem cmdC64trace (h : Acts k k') (tokens : List (List Byte)) :
    Acts k (cmdC64trace tokens k') := by
  unfold CDosX86.cmdC64trace
  simp only [printDec_eq_print, print_print]
  split
  · exact h.print _
  · exact (h.print _).traceLoop _ _

theorem cmdC64key (h : Acts k k') (tokens : List (List Byte)) : Acts k (cmdC64key tokens k') := by
  unfold CDosX86.cmdC64key
  simp only [putchar_eq_print, print_print]
  split
  · split
    · exact h.print _
    · exact (h.injectKey _).print _
  · exact h.print _

theorem cmdC64screen (h : Acts k k') : Acts k (cmdC64screen k') := by
  unfold CDosX86.cmdC64screen
  simp only [print_print]
  refine (((h.onConsole _).print _).upto (fun row k' hk => ?_) 25).print _
  unfold screenRow
  simp only [putchar_eq_print]
  exact ((hk.print _).upto (fun col k' hk' => (hk'.readByte _).print _) 40).print _

theorem typeRun (h : Acts k k') (n steps : Nat) : Acts k (typeRun n steps k').2 := by
  induction n generalizing steps k' with
  | zero => exact h
  | succ n ih =>
      rw [CDosX86.typeRun]
      split
      · exact h
      · dsimp only
        split
        · exact ih h.step.irq _
        · exact ih h.step _

theorem typeLine (h : Acts k k') (line : List Byte) : Acts k (typeLine line k') := by
  refine injectKey ?_ _
  induction line generalizing k' with
  | nil => exact h
  | cons c line ih => exact ih (h.injectKey c)

theorem cmdC64type (h : Acts k k') (line : List Byte) : Acts k (cmdC64type line k') := by
  unfold CDosX86.cmdC64type
  generalize typeMaxSteps = n
  simp only [putchar_eq_print, printDec_eq_print, print_print]
  exact (((h.typeLine line).print _).typeRun n 0).print _

theorem firstTest (h : Acts k k') : Acts k (testProgram test1Base test1Program k').2.2 :=
  Reaches.step h .firstTest

theorem secondTest (h : Acts k k') : Acts k (testProgram test2Base test2Program k').2.2 :=
  Reaches.step h .secondTest

theorem cpu6502RunTest (h : Acts k k') : Acts k (cpu6502RunTest k') := by
  have h1 {k' : C64} (h : Acts k k') : Acts k (test1Loop k') := by
    unfold CDosX86.test1Loop
    simp only [printDec_eq_print, print_print]
    split <;> exact h.firstTest.print _
  have h2 {k' : C64} (h : Acts k k') : Acts k (test2JsrRts k') := by
    unfold CDosX86.test2JsrRts
    simp only [printDec_eq_print, print_print]
    split <;> exact (h.secondTest.readByte _).print _
  exact h2 (h1 (h.print _))

theorem resumeLoop (h : Acts k k') (n steps : Nat) :
    Acts k (Kernel.resumeLoop n steps k').2 := by
  induction n generalizing steps k' with
  | zero => exact h
  | succ n ih =>
      rw [Kernel.resumeLoop]
      split
      · exact h
      · apply ih
        unfold Kernel.resumeStep
        split
        · exact h.step.irq
        · exact h.step

theorem bootBatch (h : Acts k k') (n : Nat) : Acts k (bootBatch n k').2 := by
  induction n generalizing k' with
  | zero => exact h
  | succ n ih =>
      rw [CDosX86.bootBatch]
      split
      · exact h
      · exact ih h.step

theorem printHalt (h : Acts k k') : Acts k (printHalt k') := by
  unfold CDosX86.printHalt
  simp only [putchar_eq_print, printHex_eq_print, printDec_eq_print, print_print, cpu_print]
  exact (((h.print _).readByte _).print _).onConsole _

end Acts

end C64

open C64

section boot

variable {k : C64} {s : BootState}

theorem acts_bootRun (h : Acts k s.c64) : Acts k (bootRun s).c64 := by
  rw [bootRun]
  dsimp only
  split
  · exact (h.bootBatch batchSteps).irq
  · exact h.bootBatch batchSteps

theorem acts_bootPoll (h : Acts k s.c64) (waiting : Option Byte) :
    Acts k (bootPoll waiting s).2.c64 := by
  rw [bootPoll]
  dsimp only
  split
  · exact h.injectKey _
  · exact h

theorem acts_bootCheck (h : Acts k s.c64) : Acts k (bootCheck s).2.c64 := by
  have hexit : Acts k s.c64.exitWasRequested.2 := by
    rw [C64.exitWasRequested]
    split
    · exact Reaches.step h .clearExit
    · exact h
  rw [bootCheck]
  dsimp only
  split
  · exact h
  · exact hexit

theorem acts_bootLoop {polls rest : List (Option Byte)} {s' : BootState} {e : BootExit}
    (h : Acts k s.c64) (hrun : bootLoop polls s = some (e, rest, s')) : Acts k s'.c64 := by
  have hround (waiting : Option Byte) {s : BootState} (h : Acts k s.c64) :
      Acts k (bootRound waiting s).2.c64 :=
    acts_bootCheck (acts_bootPoll (acts_bootRun h) waiting)
  rw [bootLoop_iff] at hrun
  induction hrun with
  | halted _ => exact h
  | @exit waiting _ _ _ _ _ hexit =>
      have hlast := hround waiting h
      rwa [hexit] at hlast
  | @round waiting _ _ _ _ _ _ _ hnone _ ih =>
      have hnext := hround waiting h
      rw [hnone] at hnext
      exact ih hnext

end boot

namespace Kernel

variable {δ : Type} {k : C64} {r r' : Kernel δ}

theorem acts_onConsole (h : Acts k r.c64) (f : Console → Console) : Acts k (r.onConsole f).c64 :=
  h.onConsole f

theorem acts_print (h : Acts k r.c64) (s : List Byte) : Acts k (r.print s).c64 := h.print s

theorem acts_cmdC64resume (h : Acts k r.c64) : Acts k r.cmdC64resume.c64 := by
  unfold Kernel.cmdC64resume
  generalize resumeMaxSteps = n
  have hstart : Acts k r.resumeStart.c64 := h.print _
  have hloop := hstart.resumeLoop n 0
  unfold resumeEnd
  simp only [putchar_eq_print, printHex_eq_print, printDec_eq_print, print_print, c64_print]
  split
  · exact ((hloop.print _).readByte _).print _
  · exact hloop.print _

theorem acts_storeRom (h : Acts k r.c64) {loadAddr : Word} {size : Nat}
    (hrom : ∀ i < size, InRom (loadAddr + BitVec.ofNat 16 i)) (buffer : Buffer) :
    Acts k (r.c64.withMem (storeRom loadAddr buffer size r.c64.mem)) := by
  induction size with
  | zero => exact h
  | succ size ih =>
      have hbefore := ih fun i hi => hrom i (by omega)
      exact hbefore.store (hrom size (Nat.lt_succ_self size)) (buffer size)

variable [Ports δ]

theorem acts_loadRom (h : Acts k r.c64) (filename : List Byte) {loadAddr : Word}
    {size : BitVec 32} (hrom : ∀ i < size.toNat, InRom (loadAddr + BitVec.ofNat 16 i)) :
    Acts k (r.loadRom filename loadAddr size).2.c64 := by
  have hcases := loadRom_cases filename loadAddr size r
  generalize r.loadRom filename loadAddr size = out at hcases
  cases hcases with
  | missing s _ => exact h.print s
  | wrongSize s _ _ => exact h.print s
  | readFailed s _ _ _ => exact h.print s
  | stored s _ _ _ => exact (acts_storeRom h hrom _).print s

omit [Ports δ] in
theorem kernal_inRom : ∀ i < kernalRomSize.toNat, InRom (kernalRomAddr + BitVec.ofNat 16 i) := by
  intro i hi
  have hlt : i < 8192 := hi
  unfold InRom kernalRomAddr
  bv_omega

omit [Ports δ] in
theorem basic_inRom : ∀ i < basicRomSize.toNat, InRom (basicRomAddr + BitVec.ofNat 16 i) := by
  intro i hi
  have hlt : i < 8192 := hi
  unfold InRom basicRomAddr
  bv_omega

theorem acts_c64Init (h : Acts k r.c64) : Acts k r.c64Init.2.c64 := by
  have hkernal : Acts k (r.mount.2.loadRom kernalRom kernalRomAddr kernalRomSize).2.c64 :=
    acts_loadRom (r := r.mount.2) h _ kernal_inRom
  have hroms : Acts k ((r.mount.2.loadRom kernalRom kernalRomAddr kernalRomSize).2.loadRom
      basicRom basicRomAddr basicRomSize).2.c64 :=
    acts_loadRom hkernal _ basic_inRom
  unfold Kernel.c64Init
  simp only [putchar_eq_print, printHex_eq_print, print_print]
  split_ifs
  · exact C64.Acts.print h _
  · exact hkernal
  · exact hroms
  · exact (((hroms.readByte 0xFFFC).readByte 0xFFFD).print _).reset _

theorem acts_bootStart (h : Acts k r.c64) : Acts k r.bootStart.2.c64 := by
  have hinit := acts_c64Init h
  unfold Kernel.bootStart
  dsimp only
  split
  · exact hinit.print _
  · exact hinit.onConsole _

omit [Ports δ] in
theorem acts_bootEnd (h : Acts k r.c64) (e : BootExit) : Acts k (r.bootEnd e).c64 := by
  have hcleared : Acts k ((r.onPic (Pic.clearMask 1)).onConsole Console.clear).c64 :=
    h.onConsole _
  unfold Kernel.bootEnd
  simp only [putchar_eq_print, printDec_eq_print, print_print]
  split_ifs
  · exact hcleared.print _
  · exact (hcleared.print _).printHalt
  · exact hcleared.print _

theorem acts_runCommand {c : Command} {tokens : List (List Byte)} {polls : List (Option Byte)}
    (h : Acts k r.c64) (hrun : r.runCommand c tokens polls = some r') : Acts k r'.c64 := by
  have hsome {r₁ : Kernel δ} (h₁ : Acts k r₁.c64) (heq : some r₁ = some r') : Acts k r'.c64 := by
    cases heq
    exact h₁
  have hconsole (f : Console → Console) (heq : some (r.onConsole f) = some r') : Acts k r'.c64 :=
    hsome (acts_onConsole h f) heq
  have hguest {f : C64 → C64} (hf : Acts k (f r.c64)) (heq : some (r.onC64 f) = some r') :
      Acts k r'.c64 :=
    hsome hf heq
  cases c with
  | c64boot =>
      obtain ⟨-, rfl⟩ | ⟨e, rest, s, hloop, rfl⟩ := cmdC64boot_cases hrun
      · exact acts_bootStart h
      · have hend := acts_bootLoop (s := r.bootStart.2.bootState) (acts_bootStart h) hloop
        exact acts_bootEnd (r := r.bootStart.2.withBootState s) hend e
  | help => exact hconsole cmdHelp hrun
  | c64tracedump => exact hguest (f := cmdC64tracedump) (h.onConsole _) hrun
  | c64trace => exact hguest (h.cmdC64trace tokens) hrun
  | c64mem => exact hguest (h.cmdC64mem tokens) hrun
  | c64screen => exact hguest h.cmdC64screen hrun
  | c64enter => exact hguest (f := cmdC64enter) ((h.injectKey returnKey).print _) hrun
  | c64resume => exact hsome (acts_cmdC64resume h) hrun
  | c64key => exact hguest (h.cmdC64key tokens) hrun
  | kbdstat => exact hconsole _ hrun
  | cputest => exact hguest h.cpu6502RunTest hrun
  | dir =>
      refine hsome ?_ hrun
      unfold Kernel.cmdDir
      dsimp only
      split
      · exact acts_print (r := r.mount.2) h _
      · exact acts_onConsole (acts_print (r := r.mount.2) h _) _
  | type =>
      refine hsome ?_ hrun
      obtain ⟨s, heq⟩ | ⟨s, heq⟩ | ⟨entry, s, heq⟩ := cmdType_cases tokens r
      all_goals
        rw [heq]
        exact h.print s
  | disktest =>
      refine hsome ?_ hrun
      obtain ⟨d, s, heq⟩ := cmdDisktest_cases r
      rw [heq]
      exact h.print s
  | clear => exact hconsole cmdClear hrun
  | peek => exact hconsole _ hrun
  | poke =>
      refine hsome ?_ hrun
      obtain ⟨memory, s, heq⟩ := cmdPoke_cases tokens r
      rw [heq]
      exact h.print s
  | dump => exact hguest (h.cmdDump r.memory tokens) hrun

theorem acts_shellExecute {line : List Byte} {polls : List (Option Byte)} (h : Acts k r.c64)
    (hrun : r.shellExecute line polls = some r') : Acts k r'.c64 := by
  obtain rfl | rfl | ⟨s, rfl⟩ | ⟨c, -, hrun⟩ := shellExecute_cases hrun
  · exact h.cmdC64type _
  · exact h
  · exact h.print s
  · exact acts_runCommand h hrun

omit [Ports δ] in
theorem acts_shellPrompt {r : Kernel δ} (h : Acts k r.c64) : Acts k r.shellPrompt.c64 := by
  unfold Kernel.shellPrompt
  exact acts_onConsole (acts_print h _) _

theorem acts_shellInputChar {c : Byte} {polls : List (Option Byte)} (h : Acts k r.c64)
    (hrun : r.shellInputChar c polls = some r') : Acts k r'.c64 := by
  rw [shellInputChar] at hrun
  split_ifs at hrun
  · split at hrun
    · next r₁ hline =>
      have hacts := acts_shellExecute (r := r.putchar newline) (h.onConsole _) hline
      cases hrun
      exact acts_shellPrompt (r := { r₁ with lineBuf := [] }) hacts
    · cases hrun
  · cases hrun
    exact h.onConsole _
  · cases hrun
    exact h
  · cases hrun
    exact h.onConsole _
  · cases hrun
    exact h

theorem acts_keyboardHandler {scancode : Byte} {polls : List (Option Byte)} (h : Acts k r.c64)
    (hrun : r.keyboardHandler scancode polls = some r') : Acts k r'.c64 := by
  rw [keyboardHandler] at hrun
  dsimp only at hrun
  split at hrun
  · split at hrun
    · cases hrun
      exact h.injectKey _
    · exact acts_shellInputChar
        (r := { r with keyboard := (r.keyboard.handlerChar scancode).2 }) h hrun
  · cases hrun
    exact h

theorem acts_main (p : MainPoint) (h : Acts k r.c64) : Acts k (p.run r).c64 := by
  cases p with
  | consoleInit => exact acts_onConsole h Console.init
  | printReady => exact acts_print h (text "READY.\n")
  | shellInit => exact acts_shellPrompt (r := { r with lineBuf := [] }) h
  | _ => exact h

theorem acts_serial {h : Hardware δ} {allowed : Command → Prop} {p : MainPoint}
    (hr : Serial h allowed p r) : Acts (loaded h).c64 r.c64 := by
  induction hr with
  | start => exact .refl _
  | main _ ih => exact acts_main _ ih
  | key _ _ _ _ _ hrun ih => exact acts_keyboardHandler ih hrun

end Kernel

theorem testRun_records {n : Nat} {m : Machine} {log : List (Word × Byte)}
    (h : m.trace.ring.Records (0, 0) log) :
    (testRun n m).2.trace.ring.Records (0, 0) (log ++ testFetched n m) := by
  induction n generalizing m log with
  | zero => rwa [testFetched, List.append_nil]
  | succ n ih =>
      rw [testRun, testFetched]
      cases hhalted : m.cpu.halted with
      | true => simpa using h
      | false =>
          have hstep : (stepM m).trace.ring.Records (0, 0) (log ++ fetched m) :=
            C64.TraceHolds.call (k := ⟨m, false, 0⟩) h .step
          rw [if_neg (by decide), if_neg (by decide), ← List.append_assoc]
          exact ih hstep

theorem testProgram_records (base : Word) (program : List Byte) {k : C64}
    {log : List (Word × Byte)} (h : k.TraceHolds log) :
    (testProgram base program k).2.2.TraceHolds
      (log ++ testFetched testMaxSteps (testMachine base program k)) := by
  unfold testProgram
  generalize testMaxSteps = n
  exact testRun_records (m := testMachine base program k) h

theorem act_records (log : List (Word × Byte)) (k : C64) (a : GuestAct) (h : k.TraceHolds log) :
    (k.act a).TraceHolds (log ++ k.actFetched a) := by
  cases a with
  | step => exact h.call .step
  | irq => exact h.call .irq
  | key c => exact h.call (.key c)
  | firstTest => exact testProgram_records test1Base test1Program h
  | secondTest => exact testProgram_records test2Base test2Program h
  | _ => exact h.of_trace rfl

theorem act_status (k : C64) (a : GuestAct) (h : StatusOk k.cpu.p) : StatusOk (k.act a).cpu.p := by
  cases a with
  | step => exact C64.status_call .step k h
  | irq => exact C64.status_call .irq k h
  | reset startPc => exact C64.status_call (.reset startPc) k h
  | key c => exact C64.status_call (.key c) k h
  | _ => exact h

def GuestAct.isReset : GuestAct → Bool
  | .reset _ => true
  | _ => false

theorem status_since_reset (k : C64) (a : GuestAct) (ha : a.isReset = true) :
    StatusOk (k.act a).cpu.p := by
  cases a with
  | reset startPc => exact status_reset startPc k.machine
  | _ => cases ha

-- The bytes that the kernel itself writes: the keyboard queue, the ROMs and the self tests.
def HostArea (addr : Word) : Prop :=
  addr = ndx ∨ keyd ≤ addr ∧ addr ≤ keyd + 9 ∨ InRom addr ∨
    addr = 0x0010 ∨ addr = 0x01FC ∨ addr = 0x01FD ∨
      0x0800 ≤ addr ∧ addr ≤ 0x0807 ∨ 0x0900 ≤ addr ∧ addr ≤ 0x090B

theorem test1_left (k : C64) :
    LeftBy { k.mem with ram := patch test1Base test1Program k.mem.ram } k
      (testProgram test1Base test1Program k).2.2 := by
  obtain ⟨t, hruns, hhalt, -, -, hmem⟩ := test1_runs k.mem _ rfl
  have hleft := (testProgram_runs (by decide) test1_offScreen hruns hhalt (by decide)).left
  rwa [hmem] at hleft

theorem test2_left (k : C64) :
    LeftBy { k.mem with ram := test2Ram k.mem.ram } k
      (testProgram test2Base test2Program k).2.2 := by
  obtain ⟨t, hruns, hhalt, -, hmem⟩ := test2_runs k.mem _ rfl
  have hleft := (testProgram_runs (by decide) test2_offScreen hruns hhalt (by decide)).left
  rwa [hmem] at hleft

theorem patch_outside {base : Word} {program : List Byte} {ram : Word → Byte} {addr : Word}
    (h : program.length ≤ (addr - base).toNat) : patch base program ram addr = ram addr :=
  List.getD_eq_default _ _ h

theorem test1_outside {addr : Word} (h : ¬ HostArea addr) (ram : Word → Byte) :
    patch test1Base test1Program ram addr = ram addr := by
  simp only [HostArea, not_or] at h
  obtain ⟨-, -, -, -, -, -, hfirst, -⟩ := h
  refine patch_outside ?_
  change 8 ≤ (addr - 0x0800).toNat
  bv_omega

theorem test2_outside {addr : Word} (h : ¬ HostArea addr) (ram : Word → Byte) :
    test2Ram ram addr = ram addr := by
  simp only [HostArea, not_or] at h
  obtain ⟨-, -, -, hresult, hlow, hhigh, -, hsecond⟩ := h
  rw [test2Ram, Function.update_of_ne hresult, Function.update_of_ne hlow,
    Function.update_of_ne hhigh]
  refine patch_outside ?_
  change 12 ≤ (addr - 0x0900).toNat
  bv_omega

theorem act_outside {a : GuestAct} (ha : a.runsGuest = false) {addr : Word}
    (h : ¬ HostArea addr) (k : C64) : (k.act a).mem.ram addr = k.mem.ram addr := by
  cases a with
  | step => cases ha
  | irq => cases ha
  | key c =>
      simp only [HostArea, not_or] at h
      exact C64.ram_injectKey_elsewhere h.1 h.2.1 c k
  | store rom val =>
      have hne : addr ≠ rom := by
        rintro rfl
        exact h (Or.inr (Or.inr (Or.inl rom.property)))
      rw [C64.act, C64.write, C64.mem_withMem, C64Mem.write_ram, Function.update_of_ne hne]
  | read port => exact congrFun (C64Mem.read_ram port k.mem) addr
  | firstTest =>
      have hram := congrArg (fun m : C64Mem => m.ram addr) (test1_left k).mem
      exact hram.trans (test1_outside h k.mem.ram)
  | secondTest =>
      have hram := congrArg (fun m : C64Mem => m.ram addr) (test2_left k).mem
      exact hram.trans (test2_outside h k.mem.ram)
  | _ => rfl

theorem act_cpu {a : GuestAct} (ha : a.runsGuest = false) (k : C64) :
    (k.act a).cpu = k.cpu ∨ ∃ startPc, a = .reset startPc := by
  cases a with
  | step => cases ha
  | irq => cases ha
  | reset startPc => exact Or.inr ⟨startPc, rfl⟩
  | key c => exact Or.inl (cpu_injectKey c k)
  | firstTest => exact Or.inl (test1_left k).cpu
  | secondTest => exact Or.inl (test2_left k).cpu
  | _ => exact Or.inl rfl

theorem serial_guest {δ : Type} [Ports δ] {h : Hardware δ} {allowed : Command → Prop}
    {p : MainPoint} {r : Kernel δ} (hr : Serial h allowed p r) :
    ∃ as : List GuestAct, run C64.act (Kernel.loaded h).c64 as = r.c64 ∧
      r.c64.TraceHolds (collect C64.act C64.actFetched (Kernel.loaded h).c64 as) := by
  obtain ⟨as, has⟩ := Kernel.acts_serial hr
  have hstart : (Kernel.loaded h).c64.TraceHolds [] := .of_const fun _ => rfl
  have hrecords := collect_keeps act_records as hstart
  rw [has, List.nil_append] at hrecords
  exact ⟨as, has, hrecords⟩

-- What the kernel may do to the guest from outside: fill the keyboard queue, load the ROMs, run the
-- self tests and reset the CPU.
structure Confined (a : GuestAct) : Prop where
  ram : ∀ (k : C64) (addr : Word), ¬ HostArea addr → (k.act a).mem.ram addr = k.mem.ram addr
  cpu : ∀ k : C64, (k.act a).cpu = k.cpu ∨ ∃ startPc, (k.act a).cpu = (k.reset startPc).cpu

theorem confined {a : GuestAct} (ha : a.runsGuest = false) : Confined a where
  ram k _ h := act_outside ha h k
  cpu k := by
    obtain hsame | ⟨startPc, rfl⟩ := act_cpu ha k
    · exact Or.inl hsame
    · exact Or.inr ⟨startPc, rfl⟩

-- The guest is what its own steps and interrupts make of it, but for what is confined.
theorem kernel_uses_guest {δ : Type} [Ports δ] {h : Hardware δ} {p : MainPoint} {r : Kernel δ}
    (hr : Serial h notPoke p r) :
    ∃ as : List GuestAct, run C64.act (Kernel.loaded h).c64 as = r.c64 ∧
      (∀ a ∈ as, a = .step ∨ a = .irq ∨ Confined a) ∧
      (∀ count ≤ traceLen, traceDumpOrdered r.c64.machine.trace count =
        ((collect C64.act C64.actFetched (Kernel.loaded h).c64 as).rtake count).leftpad count
          (0, 0)) ∧
      ((∃ a ∈ as, a.isReset = true) → StatusWellFormed r.c64.machine) := by
  obtain ⟨as, has, hrecords⟩ := serial_guest hr
  refine ⟨as, has, fun a _ => ?_, fun count hcount => ?_, fun hreset => ?_⟩
  · cases a with
    | step => exact Or.inl rfl
    | irq => exact Or.inr (Or.inl rfl)
    | _ => exact Or.inr (Or.inr (confined rfl))
  · rw [Trace.dump_eq]
    exact hrecords count hcount
  · rw [← has]
    exact .of_status (run_since status_since_reset act_status hreset)

-- CPUTEST; the last of the dumped instructions are those of its second program.
theorem kernel_uses_guest_cputest :
    ∃ k : Kernel IdealDrive,
      (Kernel.booted (Hardware.plain (IdealDrive.holding []))).runKeys cputestKeys = some k ∧
      k.c64.mem.ram 0x0010 = 0x22 ∧
      traceDumpOrdered k.c64.machine.trace 6 =
        [(0x0900, 0xA9), (0x0902, 0x20), (0x0909, 0xA9), (0x090B, 0x60), (0x0905, 0x85),
          (0x0907, 0x00)] ∧
      ∃ as : List GuestAct,
        run C64.act (Kernel.loaded (Hardware.plain (IdealDrive.holding []))).c64 as = k.c64 ∧
        (∀ a ∈ as, a = .step ∨ a = .irq ∨ Confined a) ∧
        (∀ count ≤ traceLen, traceDumpOrdered k.c64.machine.trace count =
          ((collect C64.act C64.actFetched
            (Kernel.loaded (Hardware.plain (IdealDrive.holding []))).c64 as).rtake count).leftpad
              count (0, 0)) ∧
        ((∃ a ∈ as, a.isReset = true) → StatusWellFormed k.c64.machine) := by
  have hrun : ((Kernel.booted (Hardware.plain (IdealDrive.holding []))).runKeys cputestKeys).map
      (fun k => (k.c64.mem.ram 0x0010, traceDumpOrdered k.c64.machine.trace 6)) =
        some (0x22, [(0x0900, 0xA9), (0x0902, 0x20), (0x0909, 0xA9), (0x090B, 0x60),
          (0x0905, 0x85), (0x0907, 0x00)]) := by decide +kernel
  obtain ⟨k, hkeys, hleft⟩ := Option.map_eq_some_iff.mp hrun
  obtain ⟨hram, htrace⟩ := Prod.mk.inj hleft
  exact ⟨k, hkeys, hram, htrace, kernel_uses_guest (serial_typed (by decide +kernel) hkeys)⟩

end CDosX86
