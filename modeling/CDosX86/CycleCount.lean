import CDosX86.Cpu6502Refines

namespace CDosX86

open StateMonad Mos6502

-- Neither the trace nor the cycle counter changes.
def Inert {α : Type} (f : M α) : Prop :=
  ∀ t c, Keeps (fun m : Machine => m.trace = t ∧ m.cpu.cycles = c) f

namespace Inert

variable {α β : Type}

theorem pure (a : α) : Inert (Pure.pure a : M α) := fun _ _ => keeps_pure a

theorem bind {f : M α} {g : α → M β} (hf : Inert f) (hg : ∀ a, Inert (g a)) :
    Inert (f >>= g) :=
  fun t c => keeps_bind (hf t c) fun a => hg a t c

theorem get : Inert (MonadState.get : M Machine) := fun _ _ => keeps_get

theorem read (addr : Word) : Inert (cpu6502Read addr) := fun _ _ _ h => h

theorem write (addr : Word) (val : Byte) : Inert (cpu6502Write addr val) := fun _ _ _ h => h

theorem flagIf (cond : Bool) (mask : Byte) : Inert (flagIf cond mask) := by
  cases cond <;> exact fun _ _ _ h => h

theorem setZn (val : Byte) : Inert (setZn val) := bind (flagIf _ _) fun _ => flagIf _ _

theorem addrOf (md : Mode) : Inert (addrOf md) := by
  cases md <;> exact fun _ _ _ h => h

theorem readAt (md : Mode) : Inert (readAt (CDosX86.addrOf md)) := bind (addrOf md) read

theorem regOf (r : Reg) : Inert (regOf r) := by cases r <;> exact fun _ _ _ h => h

theorem doAdc (val : Byte) : Inert (doAdc val) :=
  bind get fun _ => bind (flagIf _ _) fun _ => bind (flagIf _ _) fun _ =>
    bind (fun _ _ _ h => h) fun _ => setZn _

theorem shiftOf (o : Shift) (v : Byte) : Inert (shiftOf o v) := by
  cases o with
  | asl | lsr => exact bind (flagIf _ _) fun _ => bind (setZn _) fun _ => pure _
  | rol | ror => exact bind get fun _ => bind (flagIf _ _) fun _ => bind (setZn _) fun _ => pure _

end Inert

def Costs {α : Type} (n : BitVec 64) (f : M α) : Prop :=
  ∀ m, (f m).2.trace = m.trace ∧ (f m).2.cpu.cycles = m.cpu.cycles + n

namespace Costs

variable {α β : Type}

theorem addCycles (n : BitVec 64) : Costs n (addCycles n) := fun _ => ⟨rfl, rfl⟩

theorem after {n : BitVec 64} {f : M α} {g : α → M β} (hf : Inert f)
    (hg : ∀ a, Costs n (g a)) : Costs n (f >>= g) := by
  intro m
  obtain ⟨htrace, hcycles⟩ := hf m.trace m.cpu.cycles m ⟨rfl, rfl⟩
  obtain ⟨htrace', hcycles'⟩ := hg (f m).1 (f m).2
  rw [htrace] at htrace'
  rw [hcycles] at hcycles'
  exact ⟨htrace', hcycles'⟩

theorem loadOf (r : Reg) {val : M Byte} (hval : Inert val) (n : BitVec 64) :
    Costs n (loadOf r val n) := by
  cases r <;>
    exact after hval fun _ => after (fun _ _ _ h => h) fun _ => after (Inert.setZn _) fun _ =>
      addCycles n

theorem incDec (md : Mode) (f : Byte → Byte) (n : BitVec 64) :
    Costs n (do
      let a ← addrOf md
      let v := f (← cpu6502Read a)
      cpu6502Write a v
      setZn v
      CDosX86.addCycles n) :=
  after (Inert.addrOf md) fun a => after (Inert.read a) fun _ =>
    after (Inert.write a _) fun _ => after (Inert.setZn _) fun _ => addCycles n

end Costs

-- What an instruction adds to `cycles`, where `n` stands in its case of the switch.
def armCycles (n : BitVec 64) (p : Byte) : Instr → BitVec 64
  | .branch f on => if flag f p = on then 2 + 1 else 2
  | .txs => 2
  | .pha | .php | .jmp => 3
  | .plp => 4
  | .jmpInd => 5
  | .jsr | .rts | .rti => 6
  | .brk => 7
  | _ => n

theorem costs_branchIf {taken : Byte → Bool} {f : Flag} {on : Bool}
    (htaken : ∀ p, taken p = (flag f p == on)) (n : BitVec 64) (m : Machine) :
    (branchIf taken m).2.trace = m.trace ∧
      (branchIf taken m).2.cpu.cycles = m.cpu.cycles + armCycles n m.cpu.p (.branch f on) := by
  have hgo : ∀ b : Bool, taken m.cpu.p = b →
      let r := ((do
        let off ← fetch8
        addCycles 2
        if b then
          putPc ((← get).cpu.pc + off.signExtend 16)
          addCycles 1 : M Unit) m).2
      r.trace = m.trace ∧ r.cpu.cycles = m.cpu.cycles + armCycles n m.cpu.p (.branch f on) := by
    intro b hb
    rw [htaken] at hb
    cases b with
    | false =>
        have hne : ¬ flag f m.cpu.p = on := by simpa using hb
        rw [armCycles, if_neg hne]
        exact ⟨rfl, rfl⟩
    | true =>
        have heq : flag f m.cpu.p = on := by simpa using hb
        rw [armCycles, if_pos heq]
        exact ⟨rfl, BitVec.add_assoc m.cpu.cycles 2 1⟩
  exact hgo _ rfl

theorem costs_armOf (n : BitVec 64) (i : Instr) (m : Machine) :
    (armOf n i m).2.trace = m.trace ∧
      (armOf n i m).2.cpu.cycles = m.cpu.cycles + armCycles n m.cpu.p i := by
  revert m
  cases i with
  | load r md => exact Costs.loadOf r (Inert.readAt md) n
  | store r md =>
      exact Costs.after (Inert.addrOf md) fun a => Costs.after (Inert.regOf r) fun _ =>
        Costs.after (Inert.write a _) fun _ => Costs.addCycles n
  | logic o md =>
      cases o <;>
        exact Costs.loadOf .a (Inert.bind (Inert.readAt md) fun _ =>
          Inert.bind (Inert.regOf .a) fun _ => Inert.pure _) n
  | adc md =>
      exact Costs.after (Inert.readAt md) fun v => Costs.after (Inert.doAdc v) fun _ =>
        Costs.addCycles n
  | sbc md =>
      exact Costs.after (Inert.readAt md) fun v => Costs.after (Inert.doAdc _) fun _ =>
        Costs.addCycles n
  | compare r md =>
      exact Costs.after (Inert.readAt md) fun _ => Costs.after (Inert.regOf r) fun _ =>
        Costs.after (Inert.flagIf _ _) fun _ => Costs.after (Inert.setZn _) fun _ =>
          Costs.addCycles n
  | bit md =>
      exact Costs.after (Inert.readAt md) fun _ => Costs.after (Inert.regOf .a) fun _ =>
        Costs.after (Inert.flagIf _ _) fun _ => Costs.after (Inert.flagIf _ _) fun _ =>
          Costs.after (Inert.flagIf _ _) fun _ => Costs.addCycles n
  | shiftA o =>
      exact Costs.after (Inert.regOf .a) fun v =>
        Costs.after (Inert.shiftOf o v) fun _ => Costs.after (fun _ _ _ h => h) fun _ =>
          Costs.addCycles n
  | shift o md =>
      exact Costs.after (Inert.addrOf md) fun a => Costs.after (Inert.read a) fun v =>
        Costs.after (Inert.shiftOf o v) fun _ => Costs.after (Inert.write a _) fun _ =>
          Costs.addCycles n
  | inc md => exact Costs.incDec md (· + 1) n
  | dec md => exact Costs.incDec md (· - 1) n
  | incr r =>
      exact Costs.loadOf r (Inert.bind (Inert.regOf r) fun _ => Inert.pure _) n
  | decr r =>
      exact Costs.loadOf r (Inert.bind (Inert.regOf r) fun _ => Inert.pure _) n
  | transfer src dst => exact Costs.loadOf dst (Inert.regOf src) n
  | tsx => exact Costs.loadOf .x (fun _ _ _ h => h) n
  | pla => exact Costs.loadOf .a (fun _ _ _ h => h) n
  | setFlag f on => cases on <;> exact fun _ => ⟨rfl, rfl⟩
  | branch f on =>
      cases on with
      | true => exact costs_branchIf (taken_set f) n
      | false => exact costs_branchIf (taken_clear f) n
  | txs | pha | php | plp | jmp | jmpInd | jsr | rts | rti | brk | nop => exact fun _ => ⟨rfl, rfl⟩

theorem switch_cost (op : Byte) : ∃ cost : Byte → BitVec 64, ∀ m : Machine,
    (cpu6502Switch op m).2.trace = m.trace ∧
      (cpu6502Switch op m).2.cpu.cycles = m.cpu.cycles + cost m.cpu.p := by
  obtain ⟨n, hn⟩ := switch_factors op
  rw [hn]
  cases decode op with
  | none => exact ⟨fun _ => 0, fun m => ⟨rfl, (BitVec.add_zero m.cpu.cycles).symm⟩⟩
  | some i => exact ⟨fun p => armCycles n p i, costs_armOf n i⟩

theorem cycles_stepM_congr {m m' : Machine} (hcpu : m.cpu = m'.cpu)
    (hop : (m.mem.read m.cpu.pc).1 = (m'.mem.read m.cpu.pc).1) :
    (stepM m).cpu.cycles = (stepM m').cpu.cycles := by
  cases hrun : m.cpu.halted with
  | true => rw [stepM_halted hrun, stepM_halted (hcpu ▸ hrun), hcpu]
  | false =>
      obtain ⟨cost, hcost⟩ := switch_cost (m.mem.read m.cpu.pc).1
      have hcycles (k : Machine) (h : k.cpu.halted = false)
          (hk : (k.mem.read k.cpu.pc).1 = (m.mem.read m.cpu.pc).1) :
          (stepM k).cpu.cycles = k.cpu.cycles + cost k.cpu.p := by
        rw [stepM_running h]
        exact (congrArg (fun op => (cpu6502Switch op _).2.cpu.cycles) hk).trans (hcost _).2
      rw [hcycles m hrun rfl, hcycles m' (hcpu ▸ hrun) (hcpu ▸ hop.symm), hcpu]

theorem cycles_irqM (m : Machine) :
    (irqM m).cpu.cycles =
      if flag .i m.cpu.p = true ∨ m.cpu.halted = true then m.cpu.cycles
      else m.cpu.cycles + 7 := by
  split
  · next h => rw [irqM, irq_ignored h]
  · next h =>
    rw [irqM, irq_taken h]
    rfl

end CDosX86
