import CDosX86.BootSession
import CDosX86.C64Calls
import CDosX86.Mos6502.Contract
import CDosX86.Paced
import CDosX86.RemoveKey

namespace CDosX86

open Paced

def guestEngine : Engine C64 where
  step := C64.step
  tick := C64.irq
  halted k := k.cpu.halted

def beatCall : Beat → Call
  | .step => .step
  | .tick => .irq

theorem guestEngine_beats (k : C64) (bs : List Beat) :
    guestEngine.beats k bs = k.calls (bs.map beatCall) := by
  rw [Engine.beats, C64.calls, List.foldl_map]
  congr
  funext k b
  cases b <;> rfl

theorem resumeLoop_eq_run (n t : Nat) (k : C64) :
    Kernel.resumeLoop n t k = guestEngine.run 1000 n t k := by
  induction n generalizing t k with
  | zero => rfl
  | succ n ih =>
      rw [Kernel.resumeLoop, Engine.run, ih]
      rfl

theorem typeRun_eq_countUp (n since : Nat) (k : C64) :
    typeRun n since k = guestEngine.countUp 1000 n since k := by
  induction n generalizing since k with
  | zero => rfl
  | succ n ih =>
      rw [typeRun, Engine.countUp]
      simp only [ih]
      rfl

theorem bootBatch_eq_batch (n : Nat) (k : C64) : bootBatch n k = guestEngine.batch n k := by
  induction n generalizing k with
  | zero => rfl
  | succ n ih =>
      rw [bootBatch, Engine.batch]
      simp only [ih]
      rfl

theorem type_and_resume_paced (n : Nat) (k : C64) :
    let (steps, k') := typeRun n 0 k
    Kernel.resumeLoop n 0 k = (steps, k') ∧
      k' = k.calls ((schedule 1000 0 steps).map beatCall) ∧
      (schedule 1000 0 steps).count .tick = steps / 1000 ∧
      steps ≤ n ∧ (steps < n → k'.cpu.halted = true) := by
  have hcount := guestEngine.countUp_eq_run (by decide : 0 < 1000) n 0 k
  obtain ⟨hle, -, hend⟩ := guestEngine.run_ends 1000 n 0 k
  have hbeats := guestEngine.run_eq_beats 1000 n 0 k
  rw [Nat.zero_add] at hle hend
  rw [Nat.sub_zero] at hcount hbeats
  rw [typeRun_eq_countUp, resumeLoop_eq_run, ← Nat.zero_mod 1000, hcount]
  refine ⟨rfl, ?_, ?_, hle, hend⟩
  · rw [← guestEngine_beats]
    exact hbeats
  · rw [count_tick_schedule, Nat.zero_add, Nat.zero_div, Nat.sub_zero]

def pressed (c : Byte) : List Byte := [c].filter (· ≠ 0)

def keyboardAfter (seen : List (Option Byte)) (kb : Keyboard) : Keyboard :=
  seen.foldl (fun kb waiting => (kb.pollChar waiting).2) kb

theorem polled_concat (seen : List (Option Byte)) (waiting : Option Byte) (kb : Keyboard) :
    polled (seen ++ [waiting]) kb =
      polled seen kb ++ [((keyboardAfter seen kb).pollChar waiting).1] := by
  induction seen generalizing kb with
  | nil => rfl
  | cons first seen ih => rw [List.cons_append, polled, ih, polled, List.cons_append]; rfl

theorem keyboardAfter_concat (seen : List (Option Byte)) (waiting : Option Byte) (kb : Keyboard) :
    keyboardAfter (seen ++ [waiting]) kb = ((keyboardAfter seen kb).pollChar waiting).2 := by
  rw [keyboardAfter, List.foldl_append]
  rfl

def Call.key? : Call → Option Byte
  | .key c => some c
  | _ => none

def Call.paced (c : Call) : Bool := c.key?.isNone

namespace C64

theorem cpu_injectKey (c : Byte) (k : C64) : (k.injectKey c).cpu = k.cpu := by
  rw [injectKey]
  dsimp only
  split_ifs <;> rfl

theorem machine_call_congr {k k' : C64} (h : k.machine = k'.machine) (c : Call) :
    (k.call c).machine = (k'.call c).machine := by
  have hmem : k.mem = k'.mem := by rw [mem, mem, h]
  cases c with
  | step => simp only [call, step, h]
  | irq => simp only [call, irq, h]
  | reset startPc => simp only [call, reset, h]
  | key c => simp only [call, machine_injectKey, keyWrites, hmem, h]
  | write addr val => simp only [call, write, withMem, hmem, h]

theorem machine_calls_congr {k k' : C64} (h : k.machine = k'.machine) (cs : List Call) :
    (k.calls cs).machine = (k'.calls cs).machine := by
  induction cs generalizing k k' with
  | nil => exact h
  | cons c cs ih => exact ih (machine_call_congr h c)

theorem calls_append (k : C64) (cs cs' : List Call) :
    k.calls (cs ++ cs') = (k.calls cs).calls cs' := List.foldl_append

end C64

@[simp] theorem key?_beatCall (b : Beat) : (beatCall b).key? = none := by
  cases b <;> rfl

@[simp] theorem paced_beatCall (b : Beat) : (beatCall b).paced = true := by
  cases b <;> rfl

@[simp] theorem filter_beats (bs : List Beat) :
    (bs.map beatCall).filter Call.paced = bs.map beatCall := by
  induction bs with
  | nil => rfl
  | cons b bs ih => simp [ih]

@[simp] theorem keys_beats (bs : List Beat) : (bs.map beatCall).filterMap Call.key? = [] := by
  induction bs with
  | nil => rfl
  | cons b bs ih => simp

@[simp] theorem steps_beats (bs : List Beat) :
    (bs.map beatCall).count .step = bs.count .step := by
  induction bs with
  | nil => rfl
  | cons b bs ih => cases b <;> simp [beatCall, ih]

@[simp] theorem filter_keys (cs : List Byte) : (cs.map Call.key).filter Call.paced = [] := by
  induction cs with
  | nil => rfl
  | cons c cs ih => simp [Call.paced, Call.key?]

@[simp] theorem keys_keys (cs : List Byte) : (cs.map Call.key).filterMap Call.key? = cs := by
  induction cs with
  | nil => rfl
  | cons c cs ih => simpa [Call.key?] using ih

@[simp] theorem steps_keys (cs : List Byte) : (cs.map Call.key).count .step = 0 := by
  induction cs with
  | nil => rfl
  | cons c cs ih => simpa using ih

theorem cpu_keys (k : C64) (cs : List Byte) : (k.calls (cs.map Call.key)).cpu = k.cpu := by
  induction cs generalizing k with
  | nil => rfl
  | cons c cs ih => exact (ih (k.injectKey c)).trans (C64.cpu_injectKey c k)

theorem bootRun_eq_batched (s : BootState) :
    bootRun s =
      { s with
        stepsSinceIrq := (guestEngine.batched irqInterval batchSteps s.stepsSinceIrq s.c64).1
        c64 := (guestEngine.batched irqInterval batchSteps s.stepsSinceIrq s.c64).2 } := by
  rw [bootRun, Engine.batched, bootBatch_eq_batch]
  dsimp only
  split
  · rfl
  · rfl

theorem bootPoll_eq (waiting : Option Byte) (s : BootState) :
    (bootPoll waiting s).2 =
      { s with
        keyboard := (s.keyboard.pollChar waiting).2
        c64 := s.c64.calls ((pressed (s.keyboard.pollChar waiting).1).map Call.key) } := by
  rw [bootPoll, pressed]
  dsimp only
  split
  · next hchar =>
    rw [List.filter_singleton, decide_eq_true hchar]
    rfl
  · next hnone =>
    rw [List.filter_singleton, decide_eq_false hnone]
    rfl

-- What a session of C64BOOT has done with the guest, and what its polls have found.
structure SessionPaced (start s : BootState) (log : List Call) (seen : List (Option Byte)) :
    Prop where
  machine : s.c64.machine = (start.c64.calls log).machine
  beats : log.filter Call.paced = (schedule irqInterval 0 (log.count .step)).map beatCall
  keys : log.filterMap Call.key? = (polled seen start.keyboard).filter (· ≠ 0)
  steps : s.c64.cpu.halted = false → log.count .step = batchSteps * seen.length

-- The same between two rounds of its loop.
structure Underway (start s : BootState) (log : List Call) (seen : List (Option Byte)) : Prop
    extends SessionPaced start s log seen where
  since : s.stepsSinceIrq = log.count .step % irqInterval
  keyboard : s.keyboard = keyboardAfter seen start.keyboard

theorem Underway.start {start : BootState} (h : start.stepsSinceIrq = 0) :
    Underway start start [] [] where
  machine := rfl
  beats := rfl
  keys := rfl
  steps _ := rfl
  since := h
  keyboard := rfl

theorem Underway.round {start s : BootState} {log : List Call} {seen : List (Option Byte)}
    (h : Underway start s log seen) (hrunning : s.c64.cpu.halted = false) (waiting : Option Byte) :
    ∃ log', Underway start (bootPoll waiting (bootRun s)).2 log' (seen ++ [waiting]) := by
  obtain ⟨⟨hmachine, hbeats, hkeys, hbatches⟩, hsince, hkeyboard⟩ := h
  generalize ht : log.count .step = t at hbeats hsince hbatches
  have haligned : batchSteps ∣ t := ⟨seen.length, hbatches hrunning⟩
  have hpaced := guestEngine.batched_eq_run (by decide : batchSteps ∣ irqInterval)
    haligned (by decide) s.c64
  have hrun := guestEngine.run_eq_beats irqInterval batchSteps t s.c64
  obtain ⟨hle, hge, hend⟩ := guestEngine.run_ends irqInterval batchSteps t s.c64
  rw [guestEngine_beats] at hrun
  generalize guestEngine.run irqInterval batchSteps t s.c64 = r at hpaced hrun hle hge hend
  obtain ⟨t', k⟩ := r
  dsimp only at hpaced hrun hle hge hend
  have hstate : (bootPoll waiting (bootRun s)).2 =
      { stepsSinceIrq := t' % irqInterval
        c64 := k.calls ((pressed (s.keyboard.pollChar waiting).1).map Call.key)
        keyboard := (s.keyboard.pollChar waiting).2 } := by
    rw [bootPoll_eq, bootRun_eq_batched, hsince, hpaced]
  have hkeys' := polled_concat seen waiting start.keyboard
  rw [← hkeyboard] at hkeys'
  have hsteps : t + (t' - t) = t' := Nat.add_sub_cancel' hge
  refine ⟨log ++ (schedule irqInterval t (t' - t)).map beatCall ++
    (pressed (s.keyboard.pollChar waiting).1).map Call.key, ⟨?_, ?_, ?_, ?_⟩, ?_, ?_⟩
  · rw [hstate, C64.calls_append, C64.calls_append, hrun]
    exact C64.machine_calls_congr (C64.machine_calls_congr hmachine _) _
  · have hsched := schedule_add irqInterval 0 t (t' - t)
    rw [hsteps, Nat.zero_add] at hsched
    simp [hbeats, ht, count_step_schedule, hsteps, hsched]
  · rw [List.filterMap_append, List.filterMap_append, hkeys, keys_beats, keys_keys,
      List.append_nil, hkeys', List.filter_append, pressed]
  · intro hstill
    rw [hstate] at hstill
    dsimp only at hstill
    rw [cpu_keys] at hstill
    have hfull : ¬ t' < t + batchSteps := by
      intro hlt
      have hhalted : k.cpu.halted = true := hend hlt
      rw [hstill] at hhalted
      cases hhalted
    have hlast : t' = t + batchSteps := by omega
    have hcount : (log ++ (schedule irqInterval t (t' - t)).map beatCall ++
        (pressed (s.keyboard.pollChar waiting).1).map Call.key).count .step = t' := by
      simp [ht, count_step_schedule, hsteps]
    rw [hcount, hlast, hbatches hrunning, List.length_append, List.length_singleton, Nat.mul_succ]
  · simp [hstate, ht, count_step_schedule, hsteps]
  · rw [hstate, keyboardAfter_concat, ← hkeyboard]

-- A round that does not end the session leaves all as the poll left it.
theorem bootCheck_goes_on (s : BootState) :
    (bootCheck s).2.c64.machine = s.c64.machine ∧
      ((bootCheck s).1 = none → (bootCheck s).2 = s) := by
  cases hf12 : s.keyboard.f12Pressed with
  | true => simp [bootCheck, Keyboard.f12WasPressed, hf12]
  | false =>
      cases hexit : s.c64.exitRequested with
      | true => simp [bootCheck, Keyboard.f12WasPressed, C64.exitWasRequested, hf12, hexit]
      | false => simp [bootCheck, Keyboard.f12WasPressed, C64.exitWasRequested, hf12, hexit]

theorem bootRound_goes_on {waiting : Option Byte} {s s' : BootState} {e : Option BootExit}
    (h : bootRound waiting s = (e, s')) :
    s'.c64.machine = (bootPoll waiting (bootRun s)).2.c64.machine ∧
      (e = none → s' = (bootPoll waiting (bootRun s)).2) := by
  obtain ⟨rfl, rfl⟩ := Prod.mk.inj h
  exact bootCheck_goes_on _

theorem BootLoops.paced {polls rest : List (Option Byte)} {start s s' : BootState} {e : BootExit}
    (hloop : BootLoops polls s e rest s') {log : List Call} {seen : List (Option Byte)}
    (h : Underway start s log seen) :
    ∃ log' seen', polls = seen' ++ rest ∧ SessionPaced start s' log' (seen ++ seen') := by
  induction hloop generalizing log seen with
  | halted _ => exact ⟨log, [], rfl, by simpa using h.toSessionPaced⟩
  | @exit waiting _ _ _ _ hrunning hround =>
      obtain ⟨log', ⟨hmachine, hbeats, hkeys, hsteps⟩, -, -⟩ := h.round hrunning waiting
      have hsame := (bootRound_goes_on hround).1
      refine ⟨log', [waiting], rfl, hsame.trans hmachine, hbeats, hkeys, fun hstill => hsteps ?_⟩
      rw [C64.cpu, ← hsame]
      exact hstill
  | @round waiting _ _ _ _ _ _ hrunning hround _ ih =>
      obtain ⟨log', hnext⟩ := h.round hrunning waiting
      rw [← (bootRound_goes_on hround).2 rfl] at hnext
      obtain ⟨log'', seen', hpolls, hdone⟩ := ih hnext
      refine ⟨log'', waiting :: seen', ?_, ?_⟩
      · rw [hpolls, List.cons_append]
      · simpa using hdone

theorem boot_session_paced {polls rest : List (Option Byte)} {s s' : BootState} {e : BootExit}
    (hloop : bootLoop polls s = some (e, rest, s')) (hfresh : s.stepsSinceIrq = 0) :
    ∃ log seen, polls = seen ++ rest ∧ SessionPaced s s' log seen ∧
      log.count .irq = log.count .step / irqInterval := by
  obtain ⟨log, seen, hpolls, hpaced⟩ :=
    (bootLoop_iff.mp hloop).paced (Underway.start hfresh)
  refine ⟨log, seen, hpolls, hpaced, ?_⟩
  have hirqs : (log.filter Call.paced).count .irq = log.count .irq := List.count_filter rfl
  have hticks : ∀ bs : List Beat, (bs.map beatCall).count .irq = bs.count .tick := by
    intro bs
    induction bs with
    | nil => rfl
    | cons b bs ih => cases b <;> simp [beatCall, ih]
  rw [← hirqs, hpaced.beats, hticks, count_tick_schedule, Nat.zero_add, Nat.zero_div, Nat.sub_zero]

section spinning

open Mos6502

-- A guest that does nothing but JMP $1000 at $1000, with interrupts masked.
def spin : List Byte := [0x4C, 0x00, 0x10]

structure Spinning (k : C64) : Prop where
  here : Here 0x1000 spin 0 (arch k.machine)
  masked : flag .i k.cpu.p = true

namespace Spinning

variable {k : C64}

theorem step (h : Spinning k) : Spinning k.step := by
  have hsim : arch (stepM k.machine) = Mos6502.step (arch k.machine) := sim_step k.machine
  have hnext : Next (arch k.machine) .jmp := h.here.instr (by decide) rfl
  have hlo : byteAt (arch k.machine) 1 = 0x00 := h.here.byte 1 (by decide)
  have hhi : byteAt (arch k.machine) 2 = 0x10 := h.here.byte 2 (by decide)
  have htarget : wordAt (arch k.machine) 1 = 0x1000 + BitVec.ofNat 16 0 :=
    congrArg₂ (· ++ ·) hhi hlo
  refine ⟨?_, ?_⟩
  · change Here 0x1000 spin 0 (arch (stepM k.machine))
    rw [hsim]
    exact h.here.jump hnext (by decide) htarget
  · have hp : (stepM k.machine).cpu.p = k.cpu.p := by
      change (arch (stepM k.machine)).p = _
      rw [hsim, step_jump hnext (h.here.readable 1 (by decide)) (h.here.readable 2 (by decide))]
      rfl
    change flag .i (stepM k.machine).cpu.p = true
    rw [hp]
    exact h.masked

theorem irq (h : Spinning k) : Spinning k.irq := by
  have hsame : irqM k.machine = k.machine := irq_ignored (.inl h.masked)
  refine ⟨?_, ?_⟩
  · rw [C64.irq, hsame]
    exact h.here
  · rw [C64.irq, hsame]
    exact h.masked

theorem injectKey (h : Spinning k) (c : Byte) : Spinning (k.injectKey c) := by
  have hcpu := C64.cpu_injectKey c k
  refine ⟨?_, by rw [hcpu]; exact h.masked⟩
  refine h.here.move ?_ ?_ ?_
  · change (k.injectKey c).cpu.halted = false
    rw [hcpu]
    exact h.here.run
  · change (k.injectKey c).cpu.pc = _
    rw [hcpu]
    exact h.here.pc
  · intro i hi
    have hlen : i < 3 := hi
    exact C64.ram_injectKey_elsewhere (by unfold ndx; bv_omega) (by unfold keyd; bv_omega) c k

theorem bootBatch (n : Nat) (h : Spinning k) : Spinning (bootBatch n k).2 := by
  induction n generalizing k with
  | zero => exact h
  | succ n ih =>
      rw [CDosX86.bootBatch]
      split
      · exact h
      · exact ih h.step

theorem round {s : BootState} (h : Spinning s.c64) (waiting : Option Byte) :
    Spinning (bootPoll waiting (bootRun s)).2.c64 := by
  have hbatch := h.bootBatch batchSteps
  have hrun : Spinning (bootRun s).c64 := by
    rw [bootRun]
    dsimp only
    split
    · exact hbatch.irq
    · exact hbatch
  rw [bootPoll]
  dsimp only
  split
  · exact hrun.injectKey _
  · exact hrun

end Spinning

theorem spinning_loops {polls : List (Option Byte)}
    (hpolls : ∀ waiting ∈ polls, waiting ≠ some f12Scancode ∧ waiting ≠ some escScancode)
    {s : BootState} (hs : Spinning s.c64) (hf12 : s.keyboard.f12Pressed = false)
    (hexit : s.c64.exitRequested = false) :
    ∃ s', BootLoops (polls ++ [some f12Scancode]) s .f12 [] s' ∧ s'.c64.cpu.halted = false := by
  induction polls generalizing s with
  | nil =>
      obtain ⟨s', hround⟩ := bootRound_f12 s
      refine ⟨s', .exit hs.here.run hround, ?_⟩
      rw [C64.cpu, (bootRound_goes_on hround).1]
      exact (hs.round _).here.run
  | cons waiting polls ih =>
      obtain ⟨⟨hkey, hesc⟩, hrest⟩ := List.forall_mem_cons.mp hpolls
      obtain ⟨hend, -, -⟩ := bootRound_checked waiting s
      rw [hf12, hexit, decide_eq_false hkey, decide_eq_false hesc, Bool.or_false,
        if_neg Bool.false_ne_true, if_neg Bool.false_ne_true] at hend
      have hround : bootRound waiting s = (none, (bootRound waiting s).2) := Prod.ext hend rfl
      obtain ⟨hf12', hexit'⟩ := round_goes_on hround
      have hs' : Spinning (bootRound waiting s).2.c64 := by
        rw [(bootRound_goes_on hround).2 rfl]
        exact hs.round waiting
      obtain ⟨s', hloop, hstill⟩ := ih hrest hs' hf12' hexit'
      exact ⟨s', .round hs.here.run hround hloop, hstill⟩

def spinningBoot : BootState where
  stepsSinceIrq := 0
  c64 :=
    { C64.zero with
      machine :=
        let m := Machine.zero.load 0x1000 spin
        { m with cpu := { m.cpu with pc := 0x1000, p := 0x24 } } }
  keyboard := Keyboard.zero

theorem spinning_start : Spinning spinningBoot.c64 := by
  refine ⟨⟨rfl, rfl, ?_, ?_⟩, by decide⟩
  · intro i hi
    have hlen : i < 3 := hi
    interval_cases i <;> rfl
  · intro i hi
    have hlen : i < 3 := hi
    exact ⟨by unfold vicRaster; bv_omega, by unfold cia1Prb; bv_omega⟩

end spinning

-- The key A, thirty-nine polls that find nothing, and F12: one more batch than an interrupt takes.
theorem boot_session_paced_spinning : ∃ s' log,
    bootLoop ((some 0x1E :: List.replicate 39 none) ++ [some f12Scancode]) spinningBoot =
      some (.f12, [], s') ∧
    SessionPaced spinningBoot s' log ((some 0x1E :: List.replicate 39 none) ++ [some f12Scancode]) ∧
    log.filterMap Call.key? = [0x61] ∧ log.count .step = 205000 ∧ log.count .irq = 1 := by
  have hpolls : ∀ waiting ∈ some 0x1E :: List.replicate 39 none,
      waiting ≠ some f12Scancode ∧ waiting ≠ some escScancode := by
    intro waiting hin
    rcases List.mem_cons.mp hin with rfl | hin
    · decide
    · rw [List.eq_of_mem_replicate hin]
      decide
  obtain ⟨s', hloops, hstill⟩ := spinning_loops hpolls spinning_start rfl rfl
  have hloop := bootLoop_iff.mpr hloops
  obtain ⟨log, seen, hseen, hpaced, hirqs⟩ := boot_session_paced hloop rfl
  rw [List.append_nil] at hseen
  rw [← hseen] at hpaced
  have hsteps : log.count .step = 205000 := hpaced.steps hstill
  refine ⟨s', log, hloop, hpaced, hpaced.keys.trans (by decide), hsteps, ?_⟩
  rw [hirqs, hsteps]
  rfl

end CDosX86
