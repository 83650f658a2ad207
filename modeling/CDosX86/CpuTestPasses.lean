import CDosX86.CpuTest
import CDosX86.Mos6502.Contract
import CDosX86.Printing
import CDosX86.RemoveKey
import Mathlib.Data.List.GetD
import Mathlib.Data.List.Induction

namespace CDosX86

open Mos6502

theorem testRun_runs {n : Nat} {s t : Cpu C64Mem} (h : Runs n s t) (hhalt : t.halted = true) :
    ∀ {fuel : Nat} {m : Machine}, n ≤ fuel → arch m = s →
      (testRun fuel m).1 = n ∧ arch (testRun fuel m).2 = t := by
  induction h with
  | here s =>
      intro fuel m _ hm
      cases fuel with
      | zero => exact ⟨rfl, hm⟩
      | succ fuel =>
          have hstop : m.cpu.halted = true := (congrArg Cpu.halted hm).trans hhalt
          rw [testRun, if_pos hstop]
          exact ⟨rfl, hm⟩
  | next hrun _ ih =>
      intro fuel m hn hm
      cases fuel with
      | zero => omega
      | succ fuel =>
          have hgo : m.cpu.halted = false := (congrArg Cpu.halted hm).trans hrun
          have hstep : arch (stepM m) = Mos6502.step (arch m) := sim_step m
          obtain ⟨hcount, hend⟩ := ih hhalt (Nat.le_of_succ_le_succ hn) (hstep.trans (by rw [hm]))
          rw [testRun, if_neg (by simp [hgo])]
          exact ⟨congrArg (· + 1) hcount, hend⟩

def patch (base : Word) (program : List Byte) (ram : Word → Byte) : Word → Byte := fun addr =>
  program.getD (addr - base).toNat (ram addr)

theorem patch_append (base : Word) (program : List Byte) (b : Byte) (ram : Word → Byte)
    (hlen : program.length < 65536) :
    patch base (program ++ [b]) ram =
      Function.update (patch base program ram) (base + BitVec.ofNat 16 program.length) b := by
  funext addr
  have hlast : addr = base + BitVec.ofNat 16 program.length ↔
      (addr - base).toNat = program.length := by
    rw [← BitVec.toNat_inj]
    bv_omega
  rw [Function.update_apply, patch, patch]
  split_ifs with h
  · rw [List.getD_append_right _ _ _ _ (hlast.mp h).ge, hlast.mp h, Nat.sub_self]
    rfl
  · rcases Nat.lt_or_gt_of_ne (fun he => h (hlast.mpr he)) with hlt | hgt
    · rw [List.getD_append _ _ _ _ hlt]
    · rw [List.getD_eq_default _ _ hgt.le, List.getD_eq_default]
      rw [List.length_append]
      exact hgt

theorem codeAt_patch (base : Word) {program : List Byte} (ram : Word → Byte)
    (hlen : program.length ≤ 65536) : CodeAt base program (patch base program ram) := by
  intro i hi
  have hoff : (base + BitVec.ofNat 16 i - base).toNat = i := by
    rw [BitVec.add_comm, BitVec.add_sub_cancel, BitVec.toNat_ofNat]
    omega
  rw [patch, hoff, List.getD_eq_getElem _ _ hi]

def OffScreen (addr : Word) : Prop := ¬ (addr ≥ c64ScreenStart ∧ addr ≤ c64ScreenEnd)

instance (addr : Word) : Decidable (OffScreen addr) := inferInstanceAs (Decidable (¬ _))

theorem write_offScreen {addr : Word} (h : OffScreen addr) (v : Byte) (m : C64Mem) :
    m.write addr v = { m with ram := Function.update m.ram addr v } := if_neg h

theorem writeProgram_offScreen (base : Word) (program : List Byte) (m : C64Mem)
    (hlen : program.length ≤ 65536)
    (hoff : ∀ i < program.length, OffScreen (base + BitVec.ofNat 16 i)) :
    writeProgram base program m = { m with ram := patch base program m.ram } := by
  induction program using List.reverseRecOn with
  | nil => rfl
  | append_singleton program b ih =>
      rw [List.length_append, List.length_singleton] at hlen hoff
      have hrest := ih (by omega) fun i hi => hoff i (by omega)
      rw [writeProgram] at hrest ⊢
      rw [List.zipIdx_append, List.foldl_append, hrest, Nat.zero_add,
        patch_append _ _ _ _ (by omega)]
      exact write_offScreen (by simpa using hoff program.length (by omega)) _ _

def testLoaded (base : Word) (program : List Byte) (m : C64Mem) : Cpu C64Mem where
  a := 0
  x := 0
  y := 0
  sp := 0xFD
  pc := base
  p := flagU ||| flagI
  halted := false
  mem := { m with ram := patch base program m.ram }

section

variable {base : Word} {program : List Byte}

theorem here_testLoaded (hlen : program.length ≤ 65536)
    (hplain : ∀ i < program.length, Plain C64Mem (base + BitVec.ofNat 16 i)) (m : C64Mem) :
    Here base program 0 (testLoaded base program m) where
  run := rfl
  pc := (BitVec.add_zero base).symm
  stored := codeAt_patch base m.ram hlen
  plain := hplain

structure Tested (k : C64) (n : Nat) (t : Cpu C64Mem) (r : Nat × Cpu6502 × C64) : Prop where
  steps : r.1 = n
  ended : arch { r.2.2.machine with cpu := r.2.1 } = t
  cpu : r.2.2.cpu = k.cpu
  exit : r.2.2.exitRequested = k.exitRequested
  injected : r.2.2.injectCallCount = k.injectCallCount

theorem testProgram_runs {k : C64} {n : Nat} {t : Cpu C64Mem} (hlen : program.length ≤ 65536)
    (hoff : ∀ i < program.length, OffScreen (base + BitVec.ofNat 16 i))
    (h : Runs n (testLoaded base program k.mem) t) (hhalt : t.halted = true)
    (hn : n ≤ testMaxSteps) : Tested k n t (testProgram base program k) := by
  have hload : arch (resetM base { k.machine with mem := writeProgram base program k.mem }) =
      testLoaded base program k.mem := by
    rw [writeProgram_offScreen base program k.mem hlen hoff]
    rfl
  unfold testProgram
  generalize testMaxSteps = fuel at hn
  obtain ⟨hsteps, hend⟩ := testRun_runs h hhalt hn hload
  exact ⟨hsteps, hend, rfl, rfl, rfl⟩

end

section test1

variable {s : Cpu C64Mem}

theorem test1_offScreen (i : Nat) (hi : i < test1Program.length) :
    OffScreen (test1Base + BitVec.ofNat 16 i) := by
  have hlen : i < 8 := hi
  unfold OffScreen c64ScreenStart c64ScreenEnd test1Base
  bv_omega

theorem test1_plain (i : Nat) (hi : i < test1Program.length) :
    Plain C64Mem (test1Base + BitVec.ofNat 16 i) := by
  have hlen : i < 8 := hi
  exact ⟨by unfold test1Base vicRaster; bv_omega, by unfold test1Base cia1Prb; bv_omega⟩

-- One turn of the loop: INX, CPX, BNE.
theorem test1_turn (h : Here test1Base test1Program 2 s) :
    ∃ p, flag .z p = (s.x + 1 == 5) ∧
      Runs 3 s { s with
        x := s.x + 1
        p := p
        pc := if s.x + 1 == 5 then test1Base + 7 else test1Base + 2 } := by
  have hinx := step_incr (h.instr (by decide) rfl)
  have h3 : Here test1Base test1Program 3 (step s) := by
    rw [hinx]
    exact h.move h.run (by change s.pc + 1 = _; rw [h.pc]; rfl) fun _ _ => rfl
  have hcpx := step_compare (h3.instr (by decide) rfl) (ea_imm _) (h3.readable 1 (by decide))
  have hfive : ramOf (step s) ((step s).pc + 1) = 5 := h3.byte 1 (by decide)
  obtain ⟨p, hz, hu⟩ : ∃ p, flag .z p = (s.x + 1 == 5) ∧
      step (step s) = { s with x := s.x + 1, pc := test1Base + 5, p := p } := by
    have hpc : test1Base + 5 = s.pc + 1 + 2 := by rw [h.pc]; rfl
    rw [hcpx, hfive, hinx, hpc]
    exact ⟨_, flag_z_compare _ _ _, rfl⟩
  have h5 : Here test1Base test1Program 5 (step (step s)) := by
    rw [hu]
    exact h.move h.run rfl fun _ _ => rfl
  have hnext : Next (step (step s)) (.branch .z false) := h5.instr (by decide) rfl
  have hbne := step_branch hnext (h5.readable 1 (by decide))
  have hoff : byteAt (step (step s)) 1 = 0xFB := h5.byte 1 (by decide)
  refine ⟨p, hz, ?_⟩
  have hlast : step (step (step s)) = { s with
      x := s.x + 1
      p := p
      pc := if s.x + 1 == 5 then test1Base + 7 else test1Base + 2 } := by
    rw [hbne, hoff, hu]
    dsimp only
    rw [hz]
    cases (s.x + 1 == 5) <;> rfl
  rw [← hlast]
  exact .next h.run (.next h3.run (.one h5.run))

-- The loop of the first test with `k` turns to go, over the memory `m`.
structure Counting (m : C64Mem) (k : Nat) (s : Cpu C64Mem) : Prop where
  here : Here test1Base test1Program (if k = 0 then 7 else 2) s
  x : s.x = 5 - BitVec.ofNat 8 k
  turns : k ≤ 5
  zero : k = 0 → flag .z s.p = true
  mem : s.mem = m

theorem counting_turn (m : C64Mem) (k : Nat) :
    Achieves 3 (Counting m (k + 1)) (Counting m k) := by
  intro s h
  obtain ⟨p, hz, hruns⟩ := test1_turn h.here
  refine ⟨_, hruns, ?_⟩
  have hx : s.x + 1 = 5 - BitVec.ofNat 8 k := by
    rw [h.x, BitVec.ofNat_add]
    bv_omega
  have hlast : (s.x + 1 == 5) = decide (k = 0) := by
    have hk := h.turns
    rw [hx, Bool.eq_iff_iff, beq_iff_eq, decide_eq_true_iff]
    bv_omega
  rw [hlast] at hz
  constructor
  · refine h.here.move h.here.run ?_ fun _ _ => rfl
    simp only [hlast, decide_eq_true_eq]
    split <;> rfl
  · exact hx
  · exact Nat.le_of_succ_le h.turns
  · intro hk
    simpa [hk] using hz
  · exact h.mem

theorem counting_start (m : C64Mem) :
    Achieves 1 (· = testLoaded test1Base test1Program m)
      (Counting (testLoaded test1Base test1Program m).mem 5) := by
  rintro _ rfl
  have h0 := here_testLoaded (by decide) test1_plain m
  have hldx := step_load (h0.instr (by decide) rfl) (ea_imm _) (h0.readable 1 (by decide))
  have hzero : ramOf (testLoaded test1Base test1Program m) (test1Base + 1) = 0 :=
    h0.byte 1 (by decide)
  refine ⟨_, .one h0.run, ?_⟩
  rw [hldx]
  constructor
  · exact h0.move rfl rfl fun _ _ => rfl
  · exact hzero
  · exact Nat.le_refl 5
  · exact fun h => absurd h (by decide)
  · rfl

theorem counting_stop (m : C64Mem) :
    Achieves 1 (Counting m 0) fun t =>
      t.halted = true ∧ t.x = 5 ∧ flag .z t.p = true ∧ t.mem = m := by
  intro s h
  have hbrk := step_stop (h.here.instr (by decide) rfl)
  refine ⟨_, .one h.here.run, ?_⟩
  rw [hbrk]
  exact ⟨rfl, h.x, h.zero rfl, h.mem⟩

theorem test1_runs (m : C64Mem) :
    Achieves 17 (· = testLoaded test1Base test1Program m) fun t =>
      t.halted = true ∧ t.x = 5 ∧ flag .z t.p = true ∧
        t.mem = (testLoaded test1Base test1Program m).mem :=
  ((counting_start m).seq (.loop (counting_turn _) 5)).seq (counting_stop _)

end test1

section test2

theorem test2_offScreen (i : Nat) (hi : i < test2Program.length) :
    OffScreen (test2Base + BitVec.ofNat 16 i) := by
  have hlen : i < 12 := hi
  unfold OffScreen c64ScreenStart c64ScreenEnd test2Base
  bv_omega

theorem test2_plain (i : Nat) (hi : i < test2Program.length) :
    Plain C64Mem (test2Base + BitVec.ofNat 16 i) := by
  have hlen : i < 12 := hi
  exact ⟨by unfold test2Base vicRaster; bv_omega, by unfold test2Base cia1Prb; bv_omega⟩

theorem stackPlain_c64 : StackPlain C64Mem := by
  intro b
  constructor
  · unfold stackPage vicRaster
    bv_omega
  · unfold stackPage cia1Prb
    bv_omega

theorem test2_ne_stack {i : Nat} (hi : i < test2Program.length) (b : Byte) :
    test2Base + BitVec.ofNat 16 i ≠ stackPage b := by
  have hlen : i < 12 := hi
  unfold test2Base stackPage
  bv_omega

def test2Ram (ram : Word → Byte) : Word → Byte :=
  Function.update (Function.update (Function.update (patch test2Base test2Program ram)
    0x01FD 0x09) 0x01FC 0x04) 0x0010 0x22

theorem test2Ram_result (ram : Word → Byte) : test2Ram ram 0x0010 = 0x22 := by
  rw [test2Ram, Function.update_self]

theorem test2_runs (m : C64Mem) :
    Achieves 6 (· = testLoaded test2Base test2Program m) fun t =>
      t.halted = true ∧ t.a = 0x22 ∧ t.mem = { m with ram := test2Ram m.ram } := by
  rintro s rfl
  generalize hs : testLoaded test2Base test2Program m = s
  have h0 : Here test2Base test2Program 0 s := hs ▸ here_testLoaded (by decide) test2_plain m
  have hlda := step_load (h0.instr (by decide) rfl) (ea_imm _) (h0.readable 1 (by decide))
  have h2 : Here test2Base test2Program 2 (step s) := by
    rw [hlda]
    exact h0.move h0.run (by change s.pc + 2 = _; rw [h0.pc]; rfl) fun _ _ => rfl
  have hcall : Next (step s) .jsr := h2.instr (by decide) rfl
  have hjsr := step_call hcall (h2.readable 1 (by decide)) (h2.readable 2 (by decide))
  have htarget : wordAt (step s) 1 = test2Base + 9 :=
    congrArg₂ (· ++ ·) (h2.byte 2 (by decide)) (h2.byte 1 (by decide))
  have h9 : Here test2Base test2Program 9 (step (step s)) :=
    h2.call hcall (by decide) htarget fun k hk => test2_ne_stack hk
  have hsub := step_load (h9.instr (by decide) rfl) (ea_imm _) (h9.readable 1 (by decide))
  have h11 : Here test2Base test2Program 11 (step (step (step s))) := by
    rw [hsub]
    exact h9.move h9.run (by change (step (step s)).pc + 2 = _; rw [h9.pc]; rfl) fun _ _ => rfl
  have hback := call_returns hcall (h2.readable 1 (by decide)) (h2.readable 2 (by decide))
    stackPlain_c64 (.one h9.run) (h11.instr (by decide) rfl)
    (by rw [hsub]; change (step (step s)).sp = _; rw [hjsr]) (fun _ _ => by rw [hsub]; rfl)
  generalize hu : { step (step (step s)) with pc := (step s).pc + 3, sp := (step s).sp } = u
    at hback
  have h5 : Here test2Base test2Program 5 u := by
    rw [← hu]
    exact h11.move h11.run (by rw [h2.pc]; rfl) fun _ _ => rfl
  have hua : u.a = 0x22 := by
    rw [← hu, hsub]
    exact h9.byte 1 (by decide)
  have hum : u.mem = ((testLoaded test2Base test2Program m).mem.write 0x01FD 0x09).write
      0x01FC 0x04 := by
    have hfirst : (step s).mem = (testLoaded test2Base test2Program m).mem := by
      rw [hlda, ← hs]
      rfl
    have hsp : (step s).sp = 0xFD := by
      rw [hlda, ← hs]
      rfl
    have hpushed : (step (step s)).mem =
        ((testLoaded test2Base test2Program m).mem.write 0x01FD 0x09).write 0x01FC 0x04 := by
      rw [hjsr, hfirst, hsp, h2.pc]
      rfl
    rw [← hu, hsub]
    exact hpushed
  have hstore : Next u (.store .a .zp) := h5.instr (by decide) rfl
  have hsta := step_store hstore (ea_zp (h5.readable 1 (by decide)))
  have haddr : byteAt u 1 = 0x10 := h5.byte 1 (by decide)
  have h7 : Here test2Base test2Program 7 (step u) := by
    rw [hsta, haddr]
    refine h5.move h5.run (by change u.pc + 2 = _; rw [h5.pc]; rfl)
      (write_clear (fun k hk => ?_) _ _)
    have hlen : k < 12 := hk
    unfold test2Base zeroPage
    bv_omega
  have hbrk := step_stop (h7.instr (by decide) rfl)
  refine ⟨_, .next h0.run (hback.trans (.next h5.run (.one h7.run))), ?_⟩
  rw [hbrk, hsta, haddr]
  have hfinal : u.mem.write 0x0010 u.a = { m with ram := test2Ram m.ram } := by
    rw [hua, hum, write_offScreen (by decide), write_offScreen (by decide),
      write_offScreen (by decide)]
    rfl
  exact ⟨rfl, hua, hfinal⟩

end test2

section report

def test1Report : List Byte :=
  text "Test 1 (LDX/INX/CPX/BNE loop):\n" ++
    text "  Steps: 17  X: 5 (expect 5)  Z: 1 (expect 1)  Halted: 1 (expect 1)\n" ++
    text "  RESULT: PASS\n\n"

def test2Report : List Byte :=
  text "Test 2 (JSR/RTS):\n" ++
    text "  Steps: 6  A: 34 (expect 34/0x22)  mem[$10]: 34 (expect 34/0x22)  Halted: 1" ++
    text " (expect 1)\n" ++ text "  RESULT: PASS\n\n"

def cpuTestReport : List Byte := text "6502 CPU tests:\n" ++ test1Report ++ test2Report

-- What a test leaves of the C64: the memory `m`, and everything but the trace as it was.
structure LeftBy (m : C64Mem) (k k' : C64) : Prop where
  mem : k'.mem = m
  cpu : k'.cpu = k.cpu
  exit : k'.exitRequested = k.exitRequested
  injected : k'.injectCallCount = k.injectCallCount

theorem Tested.left {k : C64} {n : Nat} {t : Cpu C64Mem} {r : Nat × Cpu6502 × C64}
    (h : Tested k n t r) : LeftBy t.mem k r.2.2 where
  mem := congrArg Cpu.mem h.ended
  cpu := h.cpu
  exit := h.exit
  injected := h.injected

theorem LeftBy.print {m : C64Mem} {k k' : C64} (h : LeftBy m k k') (s : List Byte) :
    LeftBy { m with console := m.console.print s } k (k'.print s) where
  mem := by rw [C64.print, C64.mem_withMem, h.mem]
  cpu := h.cpu
  exit := h.exit
  injected := h.injected

theorem test_flagZ (p : Byte) : (p &&& flagZ ≠ 0) ↔ flag .z p = true := by
  rw [← bne_iff_ne]
  exact Bool.eq_iff_iff.mp (test_bit p 1 (by decide))

theorem test1Loop_report (k : C64) :
    LeftBy
      { k.mem with
        ram := patch test1Base test1Program k.mem.ram
        console := k.mem.console.print test1Report }
      k (test1Loop k) := by
  obtain ⟨t, hruns, hhalt, hx, hz, hmem⟩ := test1_runs k.mem _ rfl
  have h := testProgram_runs (by decide) test1_offScreen hruns hhalt (by decide)
  have hleft := h.left
  rw [hmem] at hleft
  generalize hr : testProgram test1Base test1Program k = r at h hleft
  obtain ⟨steps, cpu, k'⟩ := r
  obtain ⟨rfl, rfl, -, -, -⟩ := h
  have hcpux : cpu.x = 5 := hx
  have hcpuz : cpu.p &&& flagZ ≠ 0 := (test_flagZ cpu.p).mpr hz
  have hcpuh : cpu.halted = true := hhalt
  have hreport : test1Loop k = k'.print test1Report := by
    rw [test1Loop, hr]
    simp only [hcpux, hcpuz, hcpuh, C64.printDec_eq_print, C64.print_print, ne_eq,
      not_false_eq_true, and_self, if_true, decide_true]
    rfl
  rw [hreport]
  exact hleft.print _

theorem test2JsrRts_report (k : C64) :
    LeftBy
      { k.mem with
        ram := test2Ram k.mem.ram
        console := k.mem.console.print test2Report }
      k (test2JsrRts k) := by
  obtain ⟨t, hruns, hhalt, ha, hmem⟩ := test2_runs k.mem _ rfl
  have h := testProgram_runs (by decide) test2_offScreen hruns hhalt (by decide)
  have hleft := h.left
  rw [hmem] at hleft
  generalize hr : testProgram test2Base test2Program k = r at h hleft
  obtain ⟨steps, cpu, k'⟩ := r
  obtain ⟨rfl, rfl, -, -, -⟩ := h
  have hcpua : cpu.a = 0x22 := ha
  have hcpuh : cpu.halted = true := hhalt
  have hram : k'.mem.ram 0x0010 = 0x22 :=
    (congrArg (fun m : C64Mem => m.ram 0x0010) hleft.mem).trans (test2Ram_result k.mem.ram)
  have hplain := C64Mem.read_plain (by decide : (0x0010 : Word) ≠ vicRaster) (by decide) k'.mem
  have hread : k'.readByte 0x0010 = (0x22, k') := by
    rw [C64.readByte, hplain, hram]
    rfl
  have hreport : test2JsrRts k = k'.print test2Report := by
    rw [test2JsrRts, hr]
    simp only [hread, hcpua, hcpuh, C64.printDec_eq_print, C64.print_print, and_self, if_true]
    rfl
  rw [hreport]
  exact hleft.print _

theorem LeftBy.trans {m m' : C64Mem} {k k' k'' : C64} (h : LeftBy m k k')
    (h' : LeftBy m' k' k'') : LeftBy m' k k'' where
  mem := h'.mem
  cpu := h'.cpu.trans h.cpu
  exit := h'.exit.trans h.exit
  injected := h'.injected.trans h.injected

theorem cputest_passes (k : C64) :
    LeftBy
      { k.mem with
        ram := test2Ram (patch test1Base test1Program k.mem.ram)
        console := k.mem.console.print cpuTestReport }
      k (cpu6502RunTest k) := by
  have h0 := LeftBy.print ⟨rfl, rfl, rfl, rfl⟩ (text "6502 CPU tests:\n") (m := k.mem) (k := k)
  rw [cpuTestReport, Console.print_append, Console.print_append, cpu6502RunTest]
  generalize text "6502 CPU tests:\n" = title at h0 ⊢
  have h1 := test1Loop_report (k.print title)
  have h2 := test2JsrRts_report (test1Loop (k.print title))
  rw [h1.mem, h0.mem] at h2
  exact h0.trans (h1.trans h2)

end report

end CDosX86
