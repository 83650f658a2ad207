import CDosX86.KeyHistory
import CDosX86.Mos6502.Halting
import CDosX86.RomPair
import CDosX86.TraceRing

namespace CDosX86

open Mos6502

theorem halting_step {m : Machine} (hrun : m.cpu.halted = false)
    (hhalt : (stepM m).cpu.halted = true) :
    (stepM m).cpu.pc = m.cpu.pc + 1 ∧ (stepM m).mem = (m.mem.read m.cpu.pc).2 := by
  have hsim : arch (stepM m) = step (arch m) := sim_step m
  have hstep : step (arch m) = _ := step_halts hrun ((congrArg Cpu.halted hsim).symm.trans hhalt)
  rw [hstep] at hsim
  exact ⟨congrArg Cpu.pc hsim, congrArg Cpu.mem hsim⟩

def Trace.last (t : Trace) : Word × Byte := (t.pc (t.idx - 1), t.op (t.idx - 1))

theorem last_traceFetch (pc : Word) (op sp : Byte) (t : Trace) :
    (traceFetch pc op sp t).last = (pc, op) := by
  have hidx : t.idx + 1 - 1 = t.idx := by
    rw [Fin.ext_iff, Fin.sub_def, Fin.add_def]
    have := t.idx.isLt
    simp only [Fin.isValue, Fin.val_one]
    omega
  simp [Trace.last, traceFetch, hidx]

-- What `cmd_c64boot` prints of the instruction that halted the CPU.
def reportedOpcode (k : C64) : Byte := (k.readByte (k.cpu.pc - 1)).1

def reportedAddress (k : C64) : BitVec 32 := k.cpu.pc.setWidth 32 - 1

def Truthful (k : C64) : Prop :=
  reportedAddress k = k.machine.trace.last.1.setWidth 32 ∧
    reportedOpcode k = k.machine.trace.last.2

namespace C64Mem

theorem read_value {addr : Word} (h : addr ≠ vicRaster) (m : C64Mem) :
    (m.read addr).1 = if addr = cia1Prb then 0xFF else m.ram addr := by
  rw [read, ioRead, if_neg h]
  by_cases hc : addr = cia1Prb
  · rw [if_pos (Or.inr hc), if_pos hc, if_pos hc]
  · rw [if_neg (not_or.mpr ⟨h, hc⟩), if_neg hc]

theorem raster_moves {m m' : C64Mem} (h : m'.rasterCounter = (m.read vicRaster).2.rasterCounter) :
    (m'.read vicRaster).1 ≠ (m.read vicRaster).1 := by
  have hread (n : C64Mem) : n.read vicRaster =
      ((((n.rasterCounter + 1) % palRasterLines) &&& 0xFF).setWidth 8,
        { n with rasterCounter := (n.rasterCounter + 1) % palRasterLines }) := rfl
  rw [hread m] at h ⊢
  rw [hread m', h]
  generalize m.rasterCounter + 1 = n
  have hlt : (n % palRasterLines).toNat < 312 := Nat.mod_lt _ (by decide)
  generalize n % palRasterLines = r at hlt
  have hlow (x : BitVec 32) : ((x &&& 0xFF).setWidth 8).toNat = x.toNat % 256 := by
    rw [BitVec.toNat_setWidth, BitVec.toNat_and, show (0xFF : BitVec 32).toNat = 2 ^ 8 - 1 from rfl,
      Nat.and_two_pow_sub_one_eq_mod]
    omega
  have hnext : ((r + 1) % palRasterLines).toNat = (r.toNat + 1) % 312 := by
    rw [BitVec.toNat_umod, BitVec.toNat_add, show (1 : BitVec 32).toNat = 1 from rfl,
      show palRasterLines.toNat = 312 from rfl]
    omega
  dsimp only
  rw [ne_eq, ← BitVec.toNat_inj, hlow, hlow, hnext]
  omega

end C64Mem

theorem truthful_congr {k k' : C64} (h : k.machine = k'.machine) : Truthful k ↔ Truthful k' := by
  rw [Truthful, Truthful, reportedOpcode, reportedOpcode, reportedAddress, reportedAddress, C64.cpu,
    C64.cpu, C64.readByte, C64.readByte, C64.mem, C64.mem, h]

theorem reported_address_iff (pc : Word) :
    (pc + 1).setWidth 32 - 1 = pc.setWidth 32 ↔ pc ≠ 0xFFFF := by
  bv_omega

-- The key that a poll finds is stored over the byte at PC, and is another one.
def KeyStoredOver (c : Byte) (k : C64) : Prop :=
  c ≠ 0 ∧ ∃ w ∈ k.keyWrites c, w.1 = k.cpu.pc ∧ w.2 ≠ k.mem.ram k.cpu.pc

def pollKey (c : Byte) (k : C64) : C64 := if c ≠ 0 then k.injectKey c else k

namespace C64

theorem keyWrites_ne_cia1Prb {c : Byte} {k : C64} {w : Word × Byte} (hw : w ∈ k.keyWrites c) :
    w.1 ≠ cia1Prb := by
  rw [keyWrites] at hw
  split at hw
  · next h =>
    have hroom := BitVec.lt_def.mp h.2
    simp only [List.mem_cons, List.not_mem_nil, or_false] at hw
    rcases hw with rfl | rfl
    · rw [keydMax] at hroom
      unfold keyd cia1Prb
      bv_omega
    · exact show ndx ≠ cia1Prb by decide
  · cases hw

theorem ram_injectKey (c : Byte) (k : C64) (addr : Word) :
    (k.injectKey c).mem.ram addr = k.mem.ram addr ↔
      ∀ w ∈ k.keyWrites c, w.1 = addr → w.2 = k.mem.ram addr := by
  by_cases hroom : c ≠ escape ∧ k.mem.ram ndx < keydMax
  · have hslot : keyd + (k.mem.ram ndx).setWidth 16 ≠ ndx := by
      unfold keyd ndx
      bv_omega
    rw [injectKey_room hroom.1 hroom.2, keyWrites, if_pos hroom, mem_withMem, C64Mem.write_ram,
      C64Mem.write_ram]
    simp only [List.forall_mem_cons, List.not_mem_nil, false_imp_iff, implies_true, and_true,
      Function.update_apply]
    by_cases hndx : addr = ndx
    · simp [hndx, hslot]
    · by_cases hkeyd : addr = keyd + (k.mem.ram ndx).setWidth 16
      · simp [hkeyd, hslot, Ne.symm hslot]
      · simp [hndx, hkeyd, Ne.symm hndx, Ne.symm hkeyd]
  · have hsame : (k.injectKey c).mem = k.mem := by
      by_cases hesc : c = escape
      · rw [hesc, injectKey_escape]
        rfl
      · rw [injectKey_full hesc (BitVec.not_lt.mp fun hlt => hroom ⟨hesc, hlt⟩)]
        rfl
    rw [hsame, keyWrites, if_neg hroom]
    simp

theorem kept_pollKey (c : Byte) (k : C64) :
    (pollKey c k).cpu = k.cpu ∧ (pollKey c k).machine.trace = k.machine.trace ∧
      (pollKey c k).mem.rasterCounter = k.mem.rasterCounter := by
  rw [pollKey]
  split
  · exact keep_injectKey (I := fun m => m.cpu = k.cpu ∧ m.trace = k.machine.trace ∧
      m.mem.rasterCounter = k.mem.rasterCounter)
      (fun addr val m hm => ⟨hm.1, hm.2.1, (C64Mem.write_raster addr val m.mem).trans hm.2.2⟩) c
      ⟨rfl, rfl, rfl⟩
  · exact ⟨rfl, rfl, rfl⟩

end C64

section halting

variable {k : C64} (hrun : k.cpu.halted = false) (hhalt : k.step.cpu.halted = true) (c : Byte)

include hrun hhalt

omit hhalt in
theorem last_halting :
    (pollKey c k.step).machine.trace.last = (k.cpu.pc, (k.mem.read k.cpu.pc).1) := by
  rw [(C64.kept_pollKey c k.step).2.1, C64.step, trace_running hrun, last_traceFetch]
  rfl

theorem pc_halting : (pollKey c k.step).cpu.pc = k.cpu.pc + 1 := by
  rw [(C64.kept_pollKey c k.step).1]
  exact (halting_step hrun hhalt).1

theorem truthful_halting_iff :
    Truthful (pollKey c k.step) ↔
      k.cpu.pc ≠ 0xFFFF ∧ k.cpu.pc ≠ vicRaster ∧ ¬ KeyStoredOver c k := by
  have hmem : k.step.mem = (k.mem.read k.cpu.pc).2 := (halting_step hrun hhalt).2
  have hram : k.step.mem.ram = k.mem.ram := by rw [hmem, C64Mem.read_ram]
  have hback : k.cpu.pc + 1 - 1 = k.cpu.pc := BitVec.add_sub_cancel _ _
  rw [Truthful, last_halting hrun, reportedAddress, reportedOpcode, pc_halting hrun hhalt,
    hback, reported_address_iff]
  refine and_congr_right fun _ => ?_
  change ((pollKey c k.step).mem.read k.cpu.pc).1 = _ ↔ _
  by_cases hraster : k.cpu.pc = vicRaster
  · rw [hraster] at hmem ⊢
    have hmoved := (C64.kept_pollKey c k.step).2.2
    rw [hmem] at hmoved
    exact iff_of_false (C64Mem.raster_moves hmoved) fun h => h.1 rfl
  · rw [C64Mem.read_value hraster, C64Mem.read_value hraster, and_iff_right hraster]
    by_cases hcia : k.cpu.pc = cia1Prb
    · rw [if_pos hcia, if_pos hcia]
      refine iff_of_true rfl ?_
      rintro ⟨-, w, hw, haddr, -⟩
      exact C64.keyWrites_ne_cia1Prb hw (haddr.trans hcia)
    · rw [if_neg hcia, if_neg hcia, KeyStoredOver, pollKey]
      split
      · next hkey =>
        have hwrites : k.step.keyWrites c = k.keyWrites c := by rw [C64.keyWrites, C64.keyWrites, hram]
        rw [← hram, C64.ram_injectKey, hwrites, and_iff_right hkey]
        simp only [not_exists, not_and, ne_eq, not_not]
      · next hnone =>
        rw [hram]
        exact iff_of_true rfl fun h => hnone h.1

end halting

theorem bootBatch_halts {n : Nat} {k : C64} (hrun : k.cpu.halted = false)
    (hhalt : (bootBatch n k).2.cpu.halted = true) :
    ∃ j < n, (C64.step^[j] k).cpu.halted = false ∧ (bootBatch n k).2 = (C64.step^[j] k).step := by
  induction n generalizing k with
  | zero => exact absurd (hrun.symm.trans hhalt) (by decide)
  | succ n ih =>
      rw [bootBatch, if_neg (by simp [hrun])] at hhalt ⊢
      cases hnext : k.step.cpu.halted with
      | true =>
          refine ⟨0, Nat.succ_pos n, hrun, ?_⟩
          cases n with
          | zero => rfl
          | succ n => rw [bootBatch, if_pos hnext]; rfl
      | false =>
          obtain ⟨j, hj, hbefore, hlast⟩ := ih hnext hhalt
          exact ⟨j + 1, Nat.succ_lt_succ hj, hbefore, hlast⟩

theorem halted_irq (k : C64) : k.irq.cpu.halted = k.cpu.halted :=
  (congrArg Cpu.halted (sim_irq k.machine)).trans (irq_halted (arch k.machine))

theorem irq_of_halted {k : C64} (h : k.cpu.halted = true) : k.irq = k :=
  congrArg (fun m => { k with machine := m }) (irq_ignored (Or.inr h))

theorem bootRun_halted {s : BootState} (hrun : s.c64.cpu.halted = false)
    (hhalt : (bootRun s).c64.cpu.halted = true) :
    ∃ j < batchSteps, (C64.step^[j] s.c64).cpu.halted = false ∧
      (bootRun s).c64 = (C64.step^[j] s.c64).step := by
  have hirq : (bootRun s).c64 = (bootBatch batchSteps s.c64).2 ∨
      (bootRun s).c64 = (bootBatch batchSteps s.c64).2.irq := by
    rw [bootRun]
    dsimp only
    split
    · exact Or.inr rfl
    · exact Or.inl rfl
  have hbatch : (bootBatch batchSteps s.c64).2.cpu.halted = true := by
    rcases hirq with h | h
    · rwa [h] at hhalt
    · rwa [h, halted_irq] at hhalt
  have hsame : (bootRun s).c64 = (bootBatch batchSteps s.c64).2 := by
    rcases hirq with h | h
    · exact h
    · exact h.trans (irq_of_halted hbatch)
  rw [hsame]
  exact bootBatch_halts hrun hbatch

theorem halts_at_brk {k : C64} (hrun : k.cpu.halted = false)
    (hop : (k.mem.read k.cpu.pc).1 = 0) : k.step.cpu.halted = true := by
  have hsim : k.step.cpu.halted = (step (arch k.machine)).halted :=
    congrArg Cpu.halted (sim_step k.machine)
  have hne : ¬ (arch k.machine).halted = true := by
    change ¬ k.cpu.halted = true
    simp [hrun]
  have hfetch : (fetch (arch k.machine)).1 = 0 := hop
  rw [hsim, step, if_neg hne]
  change (execOp (fetch (arch k.machine)).1 (fetch (arch k.machine)).2).2.halted = true
  rw [hfetch]
  rfl

theorem bootBatch_once {k : C64} (hrun : k.cpu.halted = false) (hhalt : k.step.cpu.halted = true)
    (n : Nat) : bootBatch (n + 2) k = (1, k.step) := by
  rw [bootBatch, if_neg (by simp [hrun]), bootBatch, if_pos hhalt]

theorem bootRun_once {s : BootState} (hrun : s.c64.cpu.halted = false)
    (hhalt : s.c64.step.cpu.halted = true) (hsteps : s.stepsSinceIrq = 0) :
    bootRun s = { s with stepsSinceIrq := 1, c64 := s.c64.step } := by
  have hbatch : bootBatch batchSteps s.c64 = (1, s.c64.step) := bootBatch_once hrun hhalt 4998
  rw [bootRun, hbatch, hsteps]
  rfl

theorem bootLoop_once {s : BootState} (hrun : s.c64.cpu.halted = false)
    (hhalt : s.c64.step.cpu.halted = true) (hsteps : s.stepsSinceIrq = 0)
    (hf12 : s.keyboard.f12Pressed = false) (hexit : s.c64.exitRequested = false) :
    bootLoop [none] s = some (.halted, [], { s with stepsSinceIrq := 1, c64 := s.c64.step }) := by
  have hexit' : s.c64.step.exitRequested = false := hexit
  have hround : bootRound none s = (none, { s with stepsSinceIrq := 1, c64 := s.c64.step }) := by
    rw [bootRound, bootRun_once hrun hhalt hsteps]
    simp [bootPoll, Keyboard.pollChar, bootCheck, Keyboard.f12WasPressed, hf12,
      C64.exitWasRequested, hexit']
  rw [bootLoop, if_neg (by simp [hrun]), hround]
  exact if_pos hhalt

def bootRounds (polls : List (Option Byte)) (s : BootState) : BootState :=
  polls.foldl (fun s waiting => (bootRound waiting s).2) s

-- In the last round of a run, the instruction at `before` halts the CPU, and the poll gives `c`.
structure HaltsAt (polls : List (Option Byte)) (s : BootState) (before : C64) (c : Byte)
    (s' : BootState) : Prop where
  round : ∃ first waiting, polls = first ++ [waiting] ∧
    s' = (bootRound waiting (bootRounds first s)).2 ∧
    c = ((bootRounds first s).keyboard.pollChar waiting).1 ∧
    ∃ j < batchSteps, before = C64.step^[j] (bootRounds first s).c64
  running : before.cpu.halted = false
  halts : before.step.cpu.halted = true
  polled : s'.c64.machine = (pollKey c before.step).machine

theorem step_of_halted {k : C64} (h : k.cpu.halted = true) : k.step = k :=
  congrArg (fun m => { k with machine := m }) (stepM_halted h)

theorem HaltsAt.at_once {waiting : Option Byte} {s s' : BootState} {before : C64} {c : Byte}
    (h : HaltsAt [waiting] s before c s') (hhalt : s.c64.step.cpu.halted = true) :
    before = s.c64 ∧ c = (s.keyboard.pollChar waiting).1 := by
  obtain ⟨first, last, hpolls, -, hc, j, -, hbefore⟩ := h.round
  obtain ⟨rfl, rfl⟩ : first = [] ∧ last = waiting := by
    simpa [List.append_eq_singleton_iff] using hpolls.symm
  refine ⟨?_, hc⟩
  cases j with
  | zero => exact hbefore
  | succ j =>
      have hfixed : C64.step^[j] s.c64.step = s.c64.step :=
        Function.iterate_fixed (step_of_halted hhalt) j
      replace hbefore : before = s.c64.step := hbefore.trans hfixed
      exact absurd (h.running.symm.trans (hbefore ▸ hhalt)) (by decide)

theorem machine_bootRound (waiting : Option Byte) (s : BootState) :
    (bootRound waiting s).2.c64.machine =
      (pollKey (s.keyboard.pollChar waiting).1 (bootRun s).c64).machine := by
  have hcheck (s : BootState) : (bootCheck s).2.c64.machine = s.c64.machine := by
    simp only [bootCheck]
    split
    · rfl
    · cases hexit : s.c64.exitRequested <;> simp [C64.exitWasRequested, hexit]
  rw [bootRound, hcheck, bootPoll, (bootRun_flags s).1]
  rfl

theorem haltsAt_round (waiting : Option Byte) {s : BootState} (hrun : s.c64.cpu.halted = false)
    (hhalt : (bootRound waiting s).2.c64.cpu.halted = true) :
    ∃ before c, HaltsAt [waiting] s before c (bootRound waiting s).2 := by
  have hmachine := machine_bootRound waiting s
  have hcpu : (bootRound waiting s).2.c64.cpu = (bootRun s).c64.cpu :=
    (congrArg Machine.cpu hmachine).trans (C64.kept_pollKey _ _).1
  rw [hcpu] at hhalt
  obtain ⟨j, hj, hbefore, hlast⟩ := bootRun_halted hrun hhalt
  rw [hlast] at hhalt hmachine
  exact ⟨_, _, ⟨[], waiting, rfl, rfl, rfl, j, hj, rfl⟩, hbefore, hhalt, hmachine⟩

theorem HaltsAt.later {polls : List (Option Byte)} {waiting : Option Byte} {s s' : BootState}
    {before : C64} {c : Byte} (h : HaltsAt polls (bootRound waiting s).2 before c s') :
    HaltsAt (waiting :: polls) s before c s' := by
  obtain ⟨first, last, rfl, hs', hc, hbefore⟩ := h.round
  exact ⟨⟨waiting :: first, last, rfl, hs', hc, hbefore⟩, h.running, h.halts, h.polled⟩

theorem bootLoop_haltsAt {polls rest : List (Option Byte)} {e : BootExit} {s s' : BootState}
    (hrun : s.c64.cpu.halted = false) (hloop : bootLoop polls s = some (e, rest, s'))
    (hhalt : s'.c64.cpu.halted = true) :
    ∃ seen before c, polls = seen ++ rest ∧ HaltsAt seen s before c s' := by
  rw [bootLoop_iff] at hloop
  induction hloop with
  | halted hhalted => exact absurd (hrun.symm.trans hhalted) (by decide)
  | @exit waiting polls s s' e _ hround =>
      have hs' : (bootRound waiting s).2 = s' := congrArg Prod.snd hround
      obtain ⟨before, c, h⟩ := haltsAt_round waiting hrun (hs' ▸ hhalt)
      exact ⟨[waiting], before, c, rfl, hs' ▸ h⟩
  | @round waiting polls rest s s₁ s' e _ hround hlater ih =>
      have hs₁ : (bootRound waiting s).2 = s₁ := congrArg Prod.snd hround
      cases hnext : s₁.c64.cpu.halted with
      | true =>
          have hend : bootLoop polls s₁ = _ := bootLoop_iff.mpr (.halted hnext)
          rw [bootLoop_iff.mpr hlater] at hend
          cases hend
          obtain ⟨before, c, h⟩ := haltsAt_round waiting hrun (hs₁ ▸ hnext)
          exact ⟨[waiting], before, c, rfl, hs₁ ▸ h⟩
      | false =>
          obtain ⟨seen, before, c, hseen, h⟩ := ih hnext hhalt
          rw [← hs₁] at h
          exact ⟨waiting :: seen, before, c, by rw [hseen]; rfl, h.later⟩

def haltText (opcode : Byte) (address : BitVec 32) (sp : Byte) (t : Trace) : List Byte :=
  text "C64 halted -- opcode $" ++ hexText (opcode.setWidth 32) ++ text " at PC-1: $" ++
    hexText address ++ text "  SP=$" ++ hexText (sp.setWidth 32) ++ text " (" ++
    decText (sp.setWidth 32) ++ text ")\n" ++ text "SP at oper_cmp_eq entry ($A06E): " ++
    decText t.spAtA06e ++ [newline]

theorem printHalt_eq (k : C64) :
    printHalt k =
      ((k.readByte (k.cpu.pc - 1)).2.print
        (haltText (reportedOpcode k) (reportedAddress k) k.cpu.sp k.machine.trace)).onConsole
          (printTrace k.machine.trace) := by
  simp only [printHalt, C64.readByte_print, C64.printHex_eq_print, C64.printDec_eq_print,
    C64.putchar_eq_print, C64.print_print, C64.cpu_print, C64.cpu_readByte, C64.trace_print,
    C64.trace_readByte, haltText, reportedOpcode, reportedAddress, List.append_assoc]

theorem console_printHalt (f : Console → Console) (k : C64) :
    (printHalt (k.onConsole f)).mem.console =
      printTrace k.machine.trace
        ((f k.mem.console).print
          (haltText (reportedOpcode k) (reportedAddress k) k.cpu.sp k.machine.trace)) := by
  have hopcode : reportedOpcode (k.onConsole f) = reportedOpcode k := by
    rw [reportedOpcode, C64.cpu_onConsole, C64.readByte_onConsole, reportedOpcode]
  have haddr : reportedAddress (k.onConsole f) = reportedAddress k := by
    rw [reportedAddress, C64.cpu_onConsole, reportedAddress]
  have htrace : (k.onConsole f).machine.trace = k.machine.trace := rfl
  have hcon : (k.onConsole f).mem.console = f k.mem.console := rfl
  rw [printHalt_eq, hopcode, haddr, htrace, C64.cpu_onConsole, C64.onConsole, C64.mem_withMem,
    C64.print, C64.mem_withMem, C64.console_readByte, hcon]

namespace Kernel

variable {δ : Type} [Ports δ]

def hitText (t : Trace) : List Byte :=
  text "copy_CHRGET ($E3E0) hit count: " ++ decText t.hitE3e0 ++ [newline]

omit [Ports δ] in
theorem bootEnd_halted {e : BootExit} (hf12 : e ≠ .f12) {k : Kernel δ}
    (hhalt : k.c64.cpu.halted = true) :
    k.bootEnd e =
      (((k.onPic (Pic.clearMask 1)).onConsole Console.clear).print
        (hitText k.c64.machine.trace)).onC64 printHalt := by
  rw [bootEnd, if_neg hf12, printDec_eq_print, putchar_eq_print, print_print, print_print, hitText,
    List.append_assoc]
  exact if_pos hhalt

def haltReport (opcode : Byte) (address : BitVec 32) (c : C64) : Console :=
  printTrace c.machine.trace
    (c.mem.console.clear.print
      (hitText c.machine.trace ++ haltText opcode address c.cpu.sp c.machine.trace))

omit [Ports δ] in
theorem console_bootEnd_halted {e : BootExit} (hf12 : e ≠ .f12) {s : BootState}
    (hhalt : s.c64.cpu.halted = true) (k : Kernel δ) :
    ((k.withBootState s).bootEnd e).c64.mem.console =
      haltReport (reportedOpcode s.c64) (reportedAddress s.c64) s.c64 := by
  rw [bootEnd_halted hf12 hhalt, c64_onC64, haltReport, Console.print_append]
  exact console_printHalt
    (fun con => con.clear.print (hitText s.c64.machine.trace)) s.c64

theorem halt_report_truthful_iff {k : Kernel δ} {polls rest : List (Option Byte)} {e : BootExit}
    {s : BootState} (hstart : k.bootStart.1 = 0)
    (hloop : bootLoop polls k.bootStart.2.bootState = some (e, rest, s)) (hf12 : e ≠ .f12)
    (hhalt : s.c64.cpu.halted = true) :
    (∃ k', k.cmdC64boot polls = some k' ∧
      k'.c64.mem.console = haltReport (reportedOpcode s.c64) (reportedAddress s.c64) s.c64) ∧
    ∃ seen before c, polls = seen ++ rest ∧
      HaltsAt seen k.bootStart.2.bootState before c s ∧
      s.c64.machine.trace.last = (before.cpu.pc, (before.mem.read before.cpu.pc).1) ∧
      (Truthful s.c64 ↔
        before.cpu.pc ≠ 0xFFFF ∧ before.cpu.pc ≠ vicRaster ∧ ¬ KeyStoredOver c before) := by
  refine ⟨⟨_, ?_, console_bootEnd_halted hf12 hhalt k.bootStart.2⟩, ?_⟩
  · rw [cmdC64boot]
    dsimp only
    rw [if_neg (not_not.mpr hstart), hloop]
  · obtain ⟨seen, before, c, hseen, h⟩ := bootLoop_haltsAt (bootStart_running hstart) hloop hhalt
    refine ⟨seen, before, c, hseen, h, ?_, ?_⟩
    · rw [h.polled]
      exact last_halting h.running c
    · rw [truthful_congr h.polled]
      exact truthful_halting_iff h.running h.halts c

theorem bootStart_eq {k : Kernel δ} (h : k.c64Init.1 = 0) :
    k.bootStart = (0, (k.c64Init.2.onConsole Console.clear).onPic (Pic.setMask 1)) := by
  rw [bootStart]
  dsimp only
  rw [if_neg (not_not.mpr h)]

open BuildDisk IdealDrive

theorem halts_at_reset {k : Kernel δ} (hinit : k.c64Init.1 = 0)
    (hbrk : (k.c64Init.2.c64.mem.read k.c64Init.2.c64.cpu.pc).1 = 0)
    (hf12 : k.keyboard.f12Pressed = false) (hexit : k.c64.exitRequested = false) :
    k.bootStart.1 = 0 ∧ k.bootStart.2.c64.cpu.pc = k.c64Init.2.c64.cpu.pc ∧
      ∃ s, bootLoop [none] k.bootStart.2.bootState = some (.halted, [], s) ∧
        s.c64 = k.bootStart.2.c64.step ∧ s.c64.cpu.halted = true := by
  obtain ⟨hkeyboard, hexit'⟩ := bootStart_flags k
  have heq := bootStart_eq hinit
  have hstart : k.bootStart.1 = 0 := by rw [heq]
  have hc64 : k.bootStart.2.c64 = k.c64Init.2.c64.onConsole Console.clear := by
    rw [heq, c64_onPic, onConsole_eq, c64_onC64]
  have hpc : k.bootStart.2.c64.cpu.pc = k.c64Init.2.c64.cpu.pc := by
    rw [hc64, C64.cpu_onConsole]
  have hop : (k.bootStart.2.c64.mem.read k.bootStart.2.c64.cpu.pc).1 = 0 := by
    rw [hpc, hc64]
    exact (congrArg Prod.fst (C64Mem.read_withConsole _ _ _)).trans hbrk
  have hrun := bootStart_running hstart
  have hhalt := halts_at_brk hrun hop
  refine ⟨hstart, hpc, _, bootLoop_once hrun hhalt rfl ?_ ?_, rfl, hhalt⟩
  · exact (congrArg Keyboard.f12Pressed hkeyboard).trans hf12
  · exact hexit'.trans hexit

theorem halt_report_truthful_at_zero : ∃ img s, Built (RomPair.resetAt 0 0).directory 1 img ∧
    bootLoop [none] (holdingKernel img).bootStart.2.bootState = some (.halted, [], s) ∧
    s.c64.cpu.halted = true ∧ Truthful s.c64 := by
  obtain ⟨img, hbuilt⟩ := (RomPair.resetAt 0 0).built
  obtain ⟨hinit, hpc, -, hzero⟩ := RomPair.resetAt_loads hbuilt
  have hbrk : ((holdingKernel img).c64Init.2.c64.mem.read
      (holdingKernel img).c64Init.2.c64.cpu.pc).1 = 0 := by
    rw [hpc, C64Mem.read_value (by decide), if_neg (by decide)]
    exact hzero _ (by decide)
  obtain ⟨hstart, hpc', s, hloop, hs, hhalt⟩ := halts_at_reset hinit hbrk rfl rfl
  obtain ⟨-, seen, before, c, hseen, hat, -, htrue⟩ :=
    halt_report_truthful_iff hstart hloop (by decide) hhalt
  obtain rfl : [none] = seen := by simpa using hseen
  obtain ⟨rfl, rfl⟩ := hat.at_once (hs ▸ hhalt)
  have hzero' : (holdingKernel img).bootStart.2.bootState.c64.cpu.pc = 0 := hpc'.trans hpc
  rw [hzero'] at htrue
  exact ⟨img, s, hbuilt, hloop, hhalt, htrue.mpr ⟨by decide, by decide, fun h => h.1 rfl⟩⟩

theorem halt_report_false : ¬ ∀ (k : Kernel IdealDrive) (polls rest : List (Option Byte))
    (e : BootExit) (s : BootState), k.bootStart.1 = 0 →
    bootLoop polls k.bootStart.2.bootState = some (e, rest, s) → e ≠ .f12 →
    s.c64.cpu.halted = true → Truthful s.c64 := by
  intro hclaim
  obtain ⟨img, hbuilt⟩ := (RomPair.resetAt 0xFF 0xFF).built
  obtain ⟨hinit, hpc, hlast, -⟩ := RomPair.resetAt_loads hbuilt
  have hbrk : ((holdingKernel img).c64Init.2.c64.mem.read
      (holdingKernel img).c64Init.2.c64.cpu.pc).1 = 0 := by
    rw [hpc, C64Mem.read_value (by decide), if_neg (by decide)]
    exact hlast
  obtain ⟨hstart, hpc', s, hloop, hs, hhalt⟩ := halts_at_reset hinit hbrk rfl rfl
  have htrue := hclaim (holdingKernel img) [none] [] .halted s hstart hloop (by decide) hhalt
  rw [hs] at htrue hhalt
  exact ((truthful_halting_iff (bootStart_running hstart) hhalt 0).mp htrue).1 (hpc'.trans hpc)

end Kernel

end CDosX86
