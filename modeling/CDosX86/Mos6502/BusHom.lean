import CDosX86.Mos6502.Exec

namespace Mos6502

open StateMonad

structure BusHom (δ ε : Type) [Bus δ] [Bus ε] where
  toFun : δ → ε
  map_read : ∀ addr m,
    Bus.read addr (toFun m) = ((Bus.read addr m).1, toFun (Bus.read addr m).2)
  map_write : ∀ addr v m, toFun (Bus.write addr v m) = Bus.write addr v (toFun m)

def Cpu.map {δ ε : Type} (f : δ → ε) (s : Cpu δ) : Cpu ε where
  a := s.a
  x := s.x
  y := s.y
  sp := s.sp
  pc := s.pc
  p := s.p
  halted := s.halted
  mem := f s.mem

namespace BusHom

variable {δ ε : Type} [Bus δ] [Bus ε] (f : BusHom δ ε)

theorem sim_readBus (addr : Word) :
    Simulates (Cpu.map f.toFun) (readBus addr) (readBus addr) := by
  intro s
  simp [readBus, Cpu.map, f.map_read]

theorem sim_writeBus (addr : Word) (v : Byte) :
    Simulates (Cpu.map f.toFun) (writeBus addr v) (writeBus addr v) := by
  intro s
  simp [writeBus, Cpu.map, f.map_write]

theorem sim_fetch : Simulates (Cpu.map f.toFun) fetch fetch :=
  sim_bind (fun _ => ⟨rfl, rfl⟩) f.sim_readBus

theorem sim_fetchWord : Simulates (Cpu.map f.toFun) fetchWord fetchWord :=
  sim_bind f.sim_fetch fun _ => sim_bind f.sim_fetch fun _ => sim_pure _

theorem sim_pointer (ptr : Byte) :
    Simulates (Cpu.map f.toFun)
      (do
        let lo ← readBus (zeroPage ptr)
        let hi ← readBus (zeroPage (ptr + 1))
        return (hi ++ lo : Word))
      (do
        let lo ← readBus (zeroPage ptr)
        let hi ← readBus (zeroPage (ptr + 1))
        return hi ++ lo) :=
  sim_bind (f.sim_readBus _) fun _ => sim_bind (f.sim_readBus _) fun _ => sim_pure _

theorem sim_ea (m : Mode) : Simulates (Cpu.map f.toFun) (ea m) (ea m) := by
  cases m with
  | imm => exact fun _ => ⟨rfl, rfl⟩
  | zp => exact sim_bind f.sim_fetch fun _ => sim_pure _
  | zpx => exact sim_bind f.sim_fetch fun _ _ => ⟨rfl, rfl⟩
  | zpy => exact sim_bind f.sim_fetch fun _ _ => ⟨rfl, rfl⟩
  | abs => exact f.sim_fetchWord
  | absx => exact sim_bind f.sim_fetchWord fun _ _ => ⟨rfl, rfl⟩
  | absy => exact sim_bind f.sim_fetchWord fun _ _ => ⟨rfl, rfl⟩
  | indx => exact sim_bind f.sim_fetch fun v s => f.sim_pointer (v + s.x) s
  | indy =>
      exact sim_bind f.sim_fetch fun ptr => sim_bind (f.sim_readBus _) fun _ =>
        sim_bind (f.sim_readBus _) fun _ _ => ⟨rfl, rfl⟩

theorem sim_operand (m : Mode) : Simulates (Cpu.map f.toFun) (operand m) (operand m) :=
  sim_bind (f.sim_ea m) f.sim_readBus

theorem sim_assign (r : Reg) (v : Byte) :
    Simulates (Cpu.map f.toFun) (assign r v) (assign r v) := by
  cases r <;> exact fun _ => ⟨rfl, rfl⟩

theorem sim_reg (r : Reg) {g : Byte → Exec δ Unit} {h : Byte → Exec ε Unit}
    (hgh : ∀ v, Simulates (Cpu.map f.toFun) (g v) (h v)) :
    Simulates (Cpu.map f.toFun) (do g (r.get (← get))) (do h (r.get (← get))) := by
  cases r <;> exact fun s => hgh _ s

theorem sim_rmw (m : Mode) (g : Byte → Byte → Byte × Byte) :
    Simulates (Cpu.map f.toFun) (rmw m g) (rmw m g) := by
  refine sim_bind (f.sim_ea m) fun addr => sim_bind (f.sim_readBus addr) fun v s => ?_
  have hstore : Simulates (Cpu.map f.toFun)
      (do modify fun t => { t with p := (g v s.p).2 }; writeBus addr (g v s.p).1)
      (do modify fun t => { t with p := (g v s.p).2 }; writeBus addr (g v s.p).1) :=
    sim_bind (fun _ => ⟨rfl, rfl⟩) fun _ => f.sim_writeBus addr _
  exact hstore s

theorem sim_push (v : Byte) : Simulates (Cpu.map f.toFun) (push v) (push v) := by
  intro s
  simp [push, Cpu.map, f.map_write]

theorem sim_pull : Simulates (Cpu.map f.toFun) pull pull := by
  intro s
  simp [pull, Cpu.map, f.map_read]

theorem sim_pushWord (w : Word) : Simulates (Cpu.map f.toFun) (pushWord w) (pushWord w) :=
  sim_bind (f.sim_push _) fun _ => f.sim_push _

theorem sim_pullWord : Simulates (Cpu.map f.toFun) pullWord pullWord :=
  sim_bind f.sim_pull fun _ => sim_bind f.sim_pull fun _ => sim_pure _

theorem sim_exec (i : Instr) : Simulates (Cpu.map f.toFun) (exec i) (exec i) := by
  cases i with
  | load r m => exact sim_bind (f.sim_operand m) (f.sim_assign r)
  | store r m =>
      exact sim_bind (f.sim_ea m) fun addr => f.sim_reg r (f.sim_writeBus addr)
  | logic o m => exact sim_bind (f.sim_operand m) fun _ _ => ⟨rfl, rfl⟩
  | adc m => exact sim_bind (f.sim_operand m) fun _ _ => ⟨rfl, rfl⟩
  | sbc m => exact sim_bind (f.sim_operand m) fun _ _ => ⟨rfl, rfl⟩
  | compare r m => cases r <;> exact sim_bind (f.sim_operand m) fun _ _ => ⟨rfl, rfl⟩
  | bit m => exact sim_bind (f.sim_operand m) fun _ _ => ⟨rfl, rfl⟩
  | shiftA o => exact fun _ => ⟨rfl, rfl⟩
  | shift o m => exact f.sim_rmw m _
  | inc m => exact f.sim_rmw m fun v p => (v + 1, putZN (v + 1) p)
  | dec m => exact f.sim_rmw m fun v p => (v - 1, putZN (v - 1) p)
  | incr r => exact f.sim_reg r fun v => f.sim_assign r (v + 1)
  | decr r => exact f.sim_reg r fun v => f.sim_assign r (v - 1)
  | transfer src dst => exact f.sim_reg src (f.sim_assign dst)
  | txs => exact fun _ => ⟨rfl, rfl⟩
  | tsx => exact fun _ => ⟨rfl, rfl⟩
  | pha => exact fun s => f.sim_push s.a s
  | pla => exact sim_bind f.sim_pull (f.sim_assign .a)
  | php => exact fun s => f.sim_push _ s
  | plp => exact sim_bind f.sim_pull fun _ _ => ⟨rfl, rfl⟩
  | setFlag g on => exact fun _ => ⟨rfl, rfl⟩
  | branch g on => exact sim_bind f.sim_fetch fun _ _ => ⟨rfl, rfl⟩
  | jmp => exact sim_bind (f.sim_ea .abs) fun _ _ => ⟨rfl, rfl⟩
  | jmpInd =>
      exact sim_bind (f.sim_ea .abs) fun ptr => sim_bind (f.sim_readBus _) fun _ =>
        sim_bind (f.sim_readBus _) fun _ _ => ⟨rfl, rfl⟩
  | jsr =>
      refine sim_bind (f.sim_ea .abs) fun target s => ?_
      have hcall : Simulates (Cpu.map f.toFun)
          (do pushWord (s.pc - 1); modify fun t => { t with pc := target })
          (do pushWord (s.pc - 1); modify fun t => { t with pc := target }) :=
        sim_bind (f.sim_pushWord _) fun _ _ => ⟨rfl, rfl⟩
      exact hcall s
  | rts => exact sim_bind f.sim_pullWord fun _ _ => ⟨rfl, rfl⟩
  | rti =>
      exact sim_bind f.sim_pull fun _ => sim_bind (fun _ => ⟨rfl, rfl⟩) fun _ =>
        sim_bind f.sim_pullWord fun _ _ => ⟨rfl, rfl⟩
  | brk => exact fun _ => ⟨rfl, rfl⟩
  | nop => exact fun _ => ⟨rfl, rfl⟩

theorem sim_execOp (op : Byte) : Simulates (Cpu.map f.toFun) (execOp op) (execOp op) := by
  unfold execOp
  cases decode op with
  | none => exact fun _ => ⟨rfl, rfl⟩
  | some i => exact f.sim_exec i

theorem map_step (s : Cpu δ) : (step s).map f.toFun = step (s.map f.toFun) := by
  have hmap : (s.map f.toFun).halted = s.halted := rfl
  cases h : s.halted with
  | true => simp only [step, hmap, h, if_true]
  | false =>
      simp only [step, hmap, h]
      exact (sim_bind f.sim_fetch f.sim_execOp s).2

theorem sim_enterIrq : Simulates (Cpu.map f.toFun) enterIrq enterIrq := by
  have htail (p : Byte) : Simulates (Cpu.map f.toFun)
      (do
        push p
        modify fun s => { s with p := putFlag .i true s.p }
        let lo ← readBus 0xFFFE
        let hi ← readBus 0xFFFF
        modify fun s => { s with pc := hi ++ lo })
      (do
        push p
        modify fun s => { s with p := putFlag .i true s.p }
        let lo ← readBus 0xFFFE
        let hi ← readBus 0xFFFF
        modify fun s => { s with pc := hi ++ lo }) :=
    sim_bind (f.sim_push p) fun _ => sim_bind (fun _ => ⟨rfl, rfl⟩) fun _ =>
      sim_bind (f.sim_readBus _) fun _ => sim_bind (f.sim_readBus _) fun _ _ => ⟨rfl, rfl⟩
  intro s
  exact sim_bind (f.sim_pushWord s.pc) (fun _ t => htail _ t) s

theorem map_irq (s : Cpu δ) : (irq s).map f.toFun = irq (s.map f.toFun) := by
  have hmap : (flag .i (s.map f.toFun).p || (s.map f.toFun).halted) =
      (flag .i s.p || s.halted) := rfl
  cases h : (flag .i s.p || s.halted) with
  | true => simp only [irq, hmap, h, if_true]
  | false =>
      simp only [irq, hmap, h]
      exact (f.sim_enterIrq s).2

end BusHom

end Mos6502
