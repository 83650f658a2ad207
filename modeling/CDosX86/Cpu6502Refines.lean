import CDosX86.Cpu6502Arms

namespace CDosX86

open StateMonad Mos6502 LittleEndian

instance : Bus C64Mem where
  read := C64Mem.read
  write := C64Mem.write

def arch (m : Machine) : Cpu C64Mem where
  a := m.cpu.a
  x := m.cpu.x
  y := m.cpu.y
  sp := m.cpu.sp
  pc := m.cpu.pc
  p := m.cpu.p
  halted := m.cpu.halted
  mem := m.mem

section primitives

theorem sim_fetch8 : Simulates arch fetch8 fetch := fun _ => ⟨rfl, rfl⟩

theorem sim_read (addr : Word) : Simulates arch (cpu6502Read addr) (readBus addr) :=
  fun _ => ⟨rfl, rfl⟩

theorem sim_fetch16 : Simulates arch fetch16 fetchWord :=
  sim_bind sim_fetch8 fun lo => sim_bind sim_fetch8 fun hi _ => ⟨word_of_bytes lo hi, rfl⟩

theorem sim_push8 {v w : Byte} (h : v = w) : Simulates arch (push8 v) (push w) :=
  h ▸ fun _ => ⟨rfl, rfl⟩

theorem sim_pop8 : Simulates arch pop8 pull := fun _ => ⟨rfl, rfl⟩

theorem sim_popWord {g : Word → M Unit} {h : Word → Exec C64Mem Unit}
    (hgh : ∀ w, Simulates arch (g w) (h w)) :
    Simulates arch
      (do
        let lo ← pop8
        let hi ← pop8
        g (lo.setWidth 16 ||| hi.setWidth 16 <<< 8))
      (pullWord >>= h) :=
  have hpull := sim_bind sim_pop8 fun lo => sim_bind sim_pop8 fun hi =>
    show Simulates arch (g (lo.setWidth 16 ||| hi.setWidth 16 <<< 8)) (h (hi ++ lo)) from
      word_of_bytes lo hi ▸ hgh _
  fun s => hpull s

theorem sim_addrZp : Simulates arch addrZp (ea .zp) := fun _ => ⟨rfl, rfl⟩

theorem sim_addrZpx : Simulates arch addrZpx (ea .zpx) := fun _ => ⟨rfl, rfl⟩

theorem sim_addrZpy : Simulates arch addrZpy (ea .zpy) := fun _ => ⟨rfl, rfl⟩

theorem sim_addrAbs : Simulates arch addrAbs (ea .abs) := sim_fetch16

theorem sim_addrAbsx : Simulates arch addrAbsx (ea .absx) :=
  sim_bind sim_fetch16 fun _ _ => ⟨rfl, rfl⟩

theorem sim_addrAbsy : Simulates arch addrAbsy (ea .absy) :=
  sim_bind sim_fetch16 fun _ _ => ⟨rfl, rfl⟩

theorem sim_addrIndx : Simulates arch addrIndx (ea .indx) := by
  intro m
  refine ⟨?_, rfl⟩
  exact word_of_bytes _ _

theorem sim_addrIndy : Simulates arch addrIndy (ea .indy) := by
  intro m
  refine ⟨?_, rfl⟩
  exact congrArg (· + zeroPage m.cpu.y) (word_of_bytes _ _)

theorem sim_readAt {addr : M Word} {m : Mode} (h : Simulates arch addr (ea m)) :
    Simulates arch (readAt addr) (operand m) :=
  sim_bind h sim_read

end primitives

section arms

variable {val : M Byte} {w : Exec C64Mem Byte} {addr : M Word} {m : Mode} {n : BitVec 64}

theorem sim_addrOf (m : Mode) : Simulates arch (addrOf m) (ea m) := by
  cases m with
  | imm => exact fun _ => ⟨rfl, rfl⟩
  | zp => exact sim_addrZp
  | zpx => exact sim_addrZpx
  | zpy => exact sim_addrZpy
  | abs => exact sim_addrAbs
  | absx => exact sim_addrAbsx
  | absy => exact sim_addrAbsy
  | indx => exact sim_addrIndx
  | indy => exact sim_addrIndy

theorem sim_operandOf (m : Mode) : Simulates arch (readAt (addrOf m)) (operand m) :=
  sim_readAt (sim_addrOf m)

theorem sim_regOf (r : Reg) : Simulates arch (regOf r) (fun s => (r.get s, s)) := by
  cases r <;> exact fun _ => ⟨rfl, rfl⟩

theorem sim_loadOf {r : Reg} (h : Simulates arch val w) :
    Simulates arch (loadOf r val n) (w >>= assign r) := by
  cases r <;> exact sim_bind h fun v _ => by rw [setZn_eq]; exact ⟨rfl, rfl⟩

theorem sim_store {r : Reg} (h : Simulates arch addr (ea m)) :
    Simulates arch (store addr (regOf r) n) (exec (.store r m)) := by
  cases r <;> exact sim_bind h fun _ _ => ⟨rfl, rfl⟩

theorem sim_andA (h : Simulates arch val (operand m)) :
    Simulates arch (andA val n) (exec (.logic .and m)) := by
  refine sim_loadOf (r := .a) (w := do let v ← operand m; return (← get).a &&& v) ?_
  exact sim_bind h fun _ _ => ⟨rfl, rfl⟩

theorem sim_oraA (h : Simulates arch val (operand m)) :
    Simulates arch (oraA val n) (exec (.logic .ora m)) := by
  refine sim_loadOf (r := .a) (w := do let v ← operand m; return (← get).a ||| v) ?_
  exact sim_bind h fun _ _ => ⟨rfl, rfl⟩

theorem sim_eorA (h : Simulates arch val (operand m)) :
    Simulates arch (eorA val n) (exec (.logic .eor m)) := by
  refine sim_loadOf (r := .a) (w := do let v ← operand m; return (← get).a ^^^ v) ?_
  exact sim_bind h fun _ _ => ⟨rfl, rfl⟩

theorem sim_adc (h : Simulates arch val (operand m)) :
    Simulates arch (adc val n) (exec (.adc m)) :=
  sim_bind h fun v _ => by rw [doAdc_eq]; exact ⟨rfl, rfl⟩

theorem sim_sbc (h : Simulates arch val (operand m)) :
    Simulates arch (sbc val n) (exec (.sbc m)) :=
  sim_bind h fun v _ => by rw [doSbc_eq]; exact ⟨rfl, rfl⟩

theorem sim_compare {reg : M Byte} {r : Reg}
    (hreg : Simulates arch reg (fun s => (r.get s, s)))
    (h : Simulates arch val (operand m)) :
    Simulates arch (compare reg val n) (exec (.compare r m)) := by
  obtain hb := fun v => sim_bind hreg fun k => show Simulates arch
      (do flagIf (k ≥ v) flagC; setZn (k - v); addCycles n)
      (modify fun s => { s with p := putCompare k v s.p }) by
    rw [show flagC = BitVec.twoPow 8 Flag.c.bit from rfl, flagIf_eq, setZn_eq]
    exact fun _ => ⟨rfl, rfl⟩
  exact sim_bind h hb

theorem sim_bit (h : Simulates arch val (operand m)) :
    Simulates arch (bit val n) (exec (.bit m)) := by
  refine sim_bind h fun v => ?_
  have h6 : (v &&& 0x40 != 0) = v.getLsbD 6 := test_bit v 6 (by decide)
  have h7 : (v &&& 0x80 != 0) = v.getLsbD 7 := test_bit v 7 (by decide)
  simp only [h6, h7]
  rw [show flagZ = BitVec.twoPow 8 Flag.z.bit from rfl,
    show flagV = BitVec.twoPow 8 Flag.v.bit from rfl,
    show flagN = BitVec.twoPow 8 Flag.n.bit from rfl]
  simp only [flagIf_eq]
  exact fun _ => ⟨rfl, rfl⟩

theorem sim_incMem (h : Simulates arch addr (ea m)) :
    Simulates arch (incMem addr n) (exec (.inc m)) :=
  sim_bind h fun a => sim_bind (sim_read a) fun v _ => by rw [setZn_eq]; exact ⟨rfl, rfl⟩

theorem sim_decMem (h : Simulates arch addr (ea m)) :
    Simulates arch (decMem addr n) (exec (.dec m)) :=
  sim_bind h fun a => sim_bind (sim_read a) fun v _ => by rw [setZn_eq]; exact ⟨rfl, rfl⟩

theorem sim_shiftA {op : Byte → M Byte} {o : Shift} (hop : ∀ v, op v = applyShift o v) :
    Simulates arch (shiftA op n) (exec (.shiftA o)) := by
  obtain rfl : op = applyShift o := funext hop
  exact fun _ => ⟨rfl, rfl⟩

theorem sim_shiftMem {op : Byte → M Byte} {o : Shift} (hop : ∀ v, op v = applyShift o v)
    (h : Simulates arch addr (ea m)) :
    Simulates arch (shiftMem op addr n) (exec (.shift o m)) :=
  sim_bind h fun a => sim_bind (sim_read a) fun v _ => by
    rw [hop]; exact ⟨rfl, rfl⟩

theorem sim_branchIf {taken : Byte → Bool} {f : Flag} {on : Bool}
    (htaken : ∀ p, taken p = (flag f p == on)) :
    Simulates arch (branchIf taken) (exec (.branch f on)) := by
  refine sim_bind sim_fetch8 fun off s => ?_
  have hgo : ∀ b : Bool, taken s.cpu.p = b →
      arch ((do
        addCycles 2
        if b then
          putPc ((← get).cpu.pc + off.signExtend 16)
          addCycles 1 : M Unit) s).2 =
        { arch s with
          pc := if flag f s.cpu.p = on then s.cpu.pc + off.signExtend 16 else s.cpu.pc } := by
    intro b hb
    rw [htaken] at hb
    cases b with
    | false =>
        have hne : ¬ flag f s.cpu.p = on := by simpa using hb
        rw [if_neg hne]
        rfl
    | true =>
        have heq : flag f s.cpu.p = on := by simpa using hb
        rw [if_pos heq]
        rfl
  exact ⟨rfl, hgo _ rfl⟩

theorem sim_txs : Simulates arch txs (exec .txs) := fun _ => ⟨rfl, rfl⟩

theorem sim_pha : Simulates arch pha (exec .pha) := fun _ => ⟨rfl, rfl⟩

theorem sim_php : Simulates arch php (exec .php) := fun _ => ⟨rfl, rfl⟩

theorem sim_plp : Simulates arch plp (exec .plp) := fun _ => ⟨rfl, rfl⟩

theorem sim_setFlag (f : Flag) :
    Simulates arch (do orFlag (BitVec.twoPow 8 f.bit); addCycles n) (exec (.setFlag f true)) :=
  fun _ => ⟨rfl, rfl⟩

theorem sim_clearFlag (f : Flag) :
    Simulates arch (do clearFlag (BitVec.twoPow 8 f.bit); addCycles n)
      (exec (.setFlag f false)) :=
  fun _ => ⟨rfl, rfl⟩

theorem sim_jmpAbs : Simulates arch jmpAbs (exec .jmp) :=
  sim_bind sim_addrAbs fun _ _ => ⟨rfl, rfl⟩

theorem sim_jmpInd : Simulates arch jmpInd (exec .jmpInd) := by
  refine sim_bind sim_fetch16 fun ptr => sim_bind (sim_read ptr) fun lo =>
    sim_bind (sim_read (ptr + 1)) fun hi s => ?_
  exact ⟨rfl, congrArg (fun w => { arch s with pc := w }) (word_of_bytes lo hi)⟩

theorem sim_jsr : Simulates arch jsr (exec .jsr) := by
  refine sim_bind sim_fetch16 fun target s => ?_
  have hpush := sim_bind (sim_push8 (high_byte (s.cpu.pc - 1))) fun _ =>
    sim_bind (sim_push8 (low_byte (s.cpu.pc - 1))) fun _ =>
      show Simulates arch (do putPc target; addCycles 6)
        (modify fun s => { s with pc := target }) from fun _ => ⟨rfl, rfl⟩
  exact hpush s

theorem sim_rts : Simulates arch rts (exec .rts) :=
  sim_popWord (g := fun w => do putPc (w + 1); addCycles 6) fun _ _ => ⟨rfl, rfl⟩

theorem sim_rti : Simulates arch rti (exec .rti) :=
  sim_bind sim_pop8 fun v =>
    sim_bind (m := putP (v &&& ~~~flagB ||| flagU)) (fun _ => ⟨rfl, rfl⟩) fun _ =>
      sim_popWord (g := fun w => do putPc w; addCycles 6) fun _ _ => ⟨rfl, rfl⟩

theorem sim_brk : Simulates arch brk (exec .brk) := fun _ => ⟨rfl, rfl⟩

theorem sim_shiftOf (o : Shift) (v : Byte) : shiftOf o v = applyShift o v := by
  cases o with
  | asl => exact doAsl_eq v
  | rol => exact doRol_eq v
  | lsr => exact doLsr_eq v
  | ror => exact doRor_eq v

theorem taken_set (f : Flag) (p : Byte) : (p &&& maskOf f != 0) = (flag f p == true) := by
  rw [maskOf, test_bit p f.bit f.bit_lt, beq_true]
  rfl

theorem taken_clear (f : Flag) (p : Byte) : (p &&& maskOf f == 0) = (flag f p == false) := by
  have hset : (p &&& maskOf f != 0) = flag f p := test_bit p f.bit f.bit_lt
  rw [bne] at hset
  rw [beq_false, ← hset, Bool.not_not]

theorem sim_branchSet (f : Flag) : Simulates arch (branchSet (maskOf f)) (exec (.branch f true)) :=
  sim_branchIf (taken_set f)

theorem sim_branchClear (f : Flag) :
    Simulates arch (branchClear (maskOf f)) (exec (.branch f false)) :=
  sim_branchIf (taken_clear f)

theorem sim_armOf (n : BitVec 64) (i : Instr) : Simulates arch (armOf n i) (exec i) := by
  cases i with
  | load r m => exact sim_loadOf (sim_operandOf m)
  | store r m => exact sim_store (sim_addrOf m)
  | logic o m =>
      cases o with
      | ora => exact sim_oraA (sim_operandOf m)
      | and => exact sim_andA (sim_operandOf m)
      | eor => exact sim_eorA (sim_operandOf m)
  | adc m => exact sim_adc (sim_operandOf m)
  | sbc m => exact sim_sbc (sim_operandOf m)
  | compare r m => exact sim_compare (sim_regOf r) (sim_operandOf m)
  | bit m => exact sim_bit (sim_operandOf m)
  | shiftA o => exact sim_shiftA (sim_shiftOf o)
  | shift o m => exact sim_shiftMem (sim_shiftOf o) (sim_addrOf m)
  | inc m => exact sim_incMem (sim_addrOf m)
  | dec m => exact sim_decMem (sim_addrOf m)
  | incr r => exact sim_loadOf (sim_bind (sim_regOf r) fun v => sim_pure (v + 1))
  | decr r => exact sim_loadOf (sim_bind (sim_regOf r) fun v => sim_pure (v - 1))
  | transfer src dst => exact sim_loadOf (sim_regOf src)
  | txs => exact sim_txs
  | tsx => exact sim_loadOf (r := .x) (w := fun s => (s.sp, s)) fun _ => ⟨rfl, rfl⟩
  | pha => exact sim_pha
  | pla => exact sim_loadOf (r := .a) sim_pop8
  | php => exact sim_php
  | plp => exact sim_plp
  | setFlag f on =>
      cases on with
      | true => exact sim_setFlag f
      | false => exact sim_clearFlag f
  | branch f on =>
      cases on with
      | true => exact sim_branchSet f
      | false => exact sim_branchClear f
  | jmp => exact sim_jmpAbs
  | jmpInd => exact sim_jmpInd
  | jsr => exact sim_jsr
  | rts => exact sim_rts
  | rti => exact sim_rti
  | brk => exact sim_brk
  | nop => exact fun _ => ⟨rfl, rfl⟩

end arms

theorem sim_switch (op : Byte) : Simulates arch (cpu6502Switch op) (execOp op) := by
  obtain ⟨n, hn⟩ := switch_factors op
  rw [hn, execOp]
  cases decode op with
  | none => exact fun _ => ⟨rfl, rfl⟩
  | some i => exact sim_armOf n i

theorem sim_step (m : Machine) : arch (cpu6502Step m).2 = Mos6502.step (arch m) := by
  cases h : m.cpu.halted with
  | true =>
      have hs : (arch m).halted = true := h
      simp [cpu6502Step, Mos6502.step, h, hs]
  | false =>
      have hs : (arch m).halted = false := h
      have hrun : Simulates arch
          (do
            let op ← fetch8
            modify fun k => { k with trace := traceFetch m.cpu.pc op k.cpu.sp k.trace }
            cpu6502Switch op)
          (do execOp (← fetch)) :=
        sim_bind sim_fetch8 fun op s => sim_switch op _
      simp only [cpu6502Step, Mos6502.step, hs, bind_apply, get_apply, h]
      exact (hrun m).2

theorem test_flagI (p : Byte) : (p &&& flagI ≠ 0) ↔ flag .i p = true := by
  rw [← bne_iff_ne]
  exact Bool.eq_iff_iff.mp (test_bit p 2 (by decide))

theorem irq_ignored {m : Machine} (h : flag .i m.cpu.p = true ∨ m.cpu.halted = true) :
    (cpu6502Irq m).2 = m := by
  simp only [cpu6502Irq, bind_apply, get_apply, test_flagI]
  rcases h with h | h
  · simp [h]
  · by_cases hi : flag .i m.cpu.p = true <;> simp [h, hi]

theorem irq_taken {m : Machine} (h : ¬ (flag .i m.cpu.p = true ∨ m.cpu.halted = true)) :
    cpu6502Irq m = (do
      push8 ((m.cpu.pc >>> 8 &&& 0xFF).setWidth 8)
      push8 ((m.cpu.pc &&& 0xFF).setWidth 8)
      push8 (m.cpu.p &&& ~~~flagB ||| flagU)
      orFlag flagI
      let lo ← cpu6502Read 0xFFFE
      let hi ← cpu6502Read 0xFFFF
      modifyCpu fun c => { c with pc := lo.setWidth 16 ||| hi.setWidth 16 <<< 8 }
      addCycles 7 : M Unit) m := by
  obtain ⟨hi, hrun⟩ := not_or.mp h
  rw [cpu6502Irq, bind_apply, get_apply]
  simp only [test_flagI, hi, hrun]
  rfl

theorem sim_irq (m : Machine) : arch (cpu6502Irq m).2 = irq (arch m) := by
  by_cases h : flag .i m.cpu.p = true ∨ m.cpu.halted = true
  · rw [irq_ignored h]
    have hs : (flag .i (arch m).p || (arch m).halted) = true := by simpa [arch] using h
    rw [irq, if_pos hs]
  · have hs : ¬ (flag .i (arch m).p || (arch m).halted) = true := by simpa [arch] using h
    rw [irq, if_neg hs]
    have henter := sim_bind (sim_push8 (high_byte m.cpu.pc)) fun _ =>
      sim_bind (sim_push8 (low_byte m.cpu.pc)) fun _ =>
        sim_bind (sim_push8 (v := m.cpu.p &&& ~~~flagB ||| flagU) rfl) fun _ =>
          sim_bind (show Simulates arch (orFlag flagI)
            (modify fun s => { s with p := putFlag .i true s.p }) from fun _ => ⟨rfl, rfl⟩) fun _ =>
            sim_bind (sim_read 0xFFFE) fun lo => sim_bind (sim_read 0xFFFF) fun hi =>
              show Simulates arch
                (do
                  modifyCpu fun c => { c with pc := lo.setWidth 16 ||| hi.setWidth 16 <<< 8 }
                  addCycles 7)
                (modify fun s => { s with pc := hi ++ lo }) from
                fun s => ⟨rfl, congrArg (fun w => { arch s with pc := w }) (word_of_bytes lo hi)⟩
    rw [irq_taken h]
    exact (henter m).2

theorem stepM_halted {m : Machine} (h : m.cpu.halted = true) : stepM m = m := by
  simp [stepM, cpu6502Step, h]

theorem stepM_running {m : Machine} (h : m.cpu.halted = false) :
    stepM m = ((do
      let op ← fetch8
      modify fun k => { k with trace := traceFetch m.cpu.pc op k.cpu.sp k.trace }
      cpu6502Switch op : M Unit) m).2 := by
  simp only [stepM, cpu6502Step, bind_apply, get_apply, h]
  rfl

end CDosX86
