import CDosX86.Mos6502.Exec

namespace Mos6502

open StateMonad

variable {δ : Type} [Bus δ]

structure Stable (I : Cpu δ → Prop) : Prop where
  pc : ∀ s pc, I s → I { s with pc := pc }
  put : ∀ s (r : Reg) v, I s → I (r.put v s)
  flags : ∀ s f on, f ≠ .u → f ≠ .b → I s → I { s with p := putFlag f on s.p }
  pulled : ∀ s v, I s → I { s with p := putFlag .u true (putFlag .b false v) }
  halt : ∀ s, I s → I { s with halted := true }
  read : ∀ s addr, I s → I { s with mem := (Bus.read addr s.mem).2 }
  write : ∀ s addr v, I s → I { s with mem := Bus.write addr v s.mem }

def SpStable (I : Cpu δ → Prop) : Prop :=
  ∀ s sp, I s → I { s with sp := sp }

def Instr.movesSp : Instr → Bool
  | .txs | .pha | .pla | .php | .plp | .jsr | .rts | .rti => true
  | _ => false

def Instr.flagOk : Instr → Bool
  | .setFlag f _ => f != .u && f != .b
  | _ => true

theorem decode_flagOk : ∀ op : Byte, ∀ i ∈ decode op, i.flagOk = true := by
  decide +kernel

namespace Stable

variable {I : Cpu δ → Prop} (hI : Stable I)

include hI

theorem putZN {s : Cpu δ} (v : Byte) (h : I s) : I { s with p := putZN v s.p } :=
  hI.flags _ .n _ (by decide) (by decide) (hI.flags s .z _ (by decide) (by decide) h)

theorem keeps_readBus (addr : Word) : Keeps I (readBus addr) :=
  fun s h => hI.read s addr h

theorem keeps_writeBus (addr : Word) (v : Byte) : Keeps I (writeBus addr v) :=
  fun s h => hI.write s addr v h

theorem keeps_nextPc : Keeps I nextPc := fun s h => hI.pc s _ h

theorem keeps_fetch : Keeps I fetch := keeps_bind hI.keeps_nextPc hI.keeps_readBus

theorem keeps_fetchWord : Keeps I fetchWord :=
  keeps_bind hI.keeps_fetch fun _ => keeps_bind hI.keeps_fetch fun _ => keeps_pure _

theorem keeps_pointer (ptr : Byte) :
    Keeps I (do
      let lo ← readBus (zeroPage ptr)
      let hi ← readBus (zeroPage (ptr + 1))
      return (hi ++ lo : Word)) :=
  keeps_bind (hI.keeps_readBus _) fun _ => keeps_bind (hI.keeps_readBus _) fun _ => keeps_pure _

theorem keeps_ea (m : Mode) : Keeps I (ea m) := by
  cases m with
  | imm => exact hI.keeps_nextPc
  | zp => exact keeps_bind hI.keeps_fetch fun _ => keeps_pure _
  | zpx => exact keeps_bind hI.keeps_fetch fun _ => keeps_bind keeps_get fun _ => keeps_pure _
  | zpy => exact keeps_bind hI.keeps_fetch fun _ => keeps_bind keeps_get fun _ => keeps_pure _
  | abs => exact hI.keeps_fetchWord
  | absx => exact keeps_bind hI.keeps_fetchWord fun _ => keeps_bind keeps_get fun _ => keeps_pure _
  | absy => exact keeps_bind hI.keeps_fetchWord fun _ => keeps_bind keeps_get fun _ => keeps_pure _
  | indx => exact keeps_bind hI.keeps_fetch fun _ => keeps_bind keeps_get fun _ => hI.keeps_pointer _
  | indy =>
      refine keeps_bind hI.keeps_fetch fun _ => keeps_bind (hI.keeps_readBus _) fun _ =>
        keeps_bind (hI.keeps_readBus _) fun _ => ?_
      exact keeps_bind keeps_get fun _ => keeps_pure _

theorem keeps_operand (m : Mode) : Keeps I (operand m) :=
  keeps_bind (hI.keeps_ea m) hI.keeps_readBus

theorem keeps_assign (r : Reg) (v : Byte) : Keeps I (assign r v) :=
  fun s h => by
    have hput := hI.putZN v (hI.put s r v h)
    cases r <;> exact hput

theorem keeps_alu (f : Cpu δ → AluResult) :
    Keeps I (modify fun s => { s with a := (f s).value, p := putAlu (f s) s.p }) := by
  intro s h
  have hc := hI.flags s .c (f s).carry (by decide) (by decide) h
  have hv := hI.flags _ .v (f s).overflow (by decide) (by decide) hc
  exact hI.put _ .a _ (hI.putZN (f s).value hv)

theorem keeps_rmw (m : Mode) {f : Byte → Byte → Byte × Byte}
    (hf : ∀ v s, I s → I { s with p := (f v s.p).2 }) : Keeps I (rmw m f) :=
  keeps_bind (hI.keeps_ea m) fun addr => keeps_bind (hI.keeps_readBus addr) fun v s h =>
    hI.write _ addr _ (hf v s h)

theorem shift_flags (o : Shift) (v : Byte) (s : Cpu δ) (h : I s) :
    I { s with p := (o.step v s.p).2 } :=
  hI.putZN _ (hI.flags s .c _ (by decide) (by decide) h)

section stack

variable (hsp : SpStable I)

include hsp

theorem keeps_push (v : Byte) : Keeps I (push v) :=
  fun s h => hsp _ _ (hI.write s _ v h)

theorem keeps_pull : Keeps I pull :=
  fun s h => hI.read _ (stackPage (s.sp + 1)) (hsp s (s.sp + 1) h)

theorem keeps_pushWord (w : Word) : Keeps I (pushWord w) :=
  keeps_bind (hI.keeps_push hsp _) fun _ => hI.keeps_push hsp _

theorem keeps_pullWord : Keeps I pullWord :=
  keeps_bind (hI.keeps_pull hsp) fun _ => keeps_bind (hI.keeps_pull hsp) fun _ => keeps_pure _

end stack

theorem keeps_exec {i : Instr} (hflag : i.flagOk = true)
    (hsp : i.movesSp = true → SpStable I) : Keeps I (exec i) := by
  cases i with
  | load r m => exact keeps_bind (hI.keeps_operand m) (hI.keeps_assign r)
  | store r m =>
      exact keeps_bind (hI.keeps_ea m) fun addr => keeps_bind keeps_get fun _ =>
        hI.keeps_writeBus addr _
  | logic o m =>
      exact keeps_bind (hI.keeps_operand m) fun _ => keeps_bind keeps_get fun _ =>
        hI.keeps_assign .a _
  | adc m => exact keeps_bind (hI.keeps_operand m) fun v => hI.keeps_alu _
  | sbc m => exact keeps_bind (hI.keeps_operand m) fun v => hI.keeps_alu _
  | compare r m =>
      exact keeps_bind (hI.keeps_operand m) fun v s h =>
        hI.putZN _ (hI.flags s .c _ (by decide) (by decide) h)
  | bit m =>
      refine keeps_bind (hI.keeps_operand m) fun v s h => ?_
      have hz := hI.flags s .z (s.a &&& v == 0) (by decide) (by decide) h
      have hv := hI.flags _ .v (v.getLsbD 6) (by decide) (by decide) hz
      exact hI.flags _ .n (v.getLsbD 7) (by decide) (by decide) hv
  | shiftA o => exact fun s h => hI.put _ .a _ (hI.shift_flags o s.a s h)
  | shift o m => exact hI.keeps_rmw m (hI.shift_flags o)
  | inc m =>
      exact hI.keeps_rmw m (f := fun v p => (v + 1, Mos6502.putZN (v + 1) p)) fun v s h =>
        hI.putZN (v + 1) h
  | dec m =>
      exact hI.keeps_rmw m (f := fun v p => (v - 1, Mos6502.putZN (v - 1) p)) fun v s h =>
        hI.putZN (v - 1) h
  | incr r => exact keeps_bind keeps_get fun _ => hI.keeps_assign r _
  | decr r => exact keeps_bind keeps_get fun _ => hI.keeps_assign r _
  | transfer src dst => exact keeps_bind keeps_get fun _ => hI.keeps_assign dst _
  | txs => exact fun s h => hsp rfl s s.x h
  | tsx => exact keeps_bind keeps_get fun _ => hI.keeps_assign .x _
  | pha => exact keeps_bind keeps_get fun _ => hI.keeps_push (hsp rfl) _
  | pla => exact keeps_bind (hI.keeps_pull (hsp rfl)) (hI.keeps_assign .a)
  | php => exact keeps_bind keeps_get fun _ => hI.keeps_push (hsp rfl) _
  | plp => exact keeps_bind (hI.keeps_pull (hsp rfl)) fun v s h => hI.pulled s v h
  | setFlag f on =>
      simp only [Instr.flagOk, Bool.and_eq_true, bne_iff_ne] at hflag
      exact fun s h => hI.flags s f on hflag.1 hflag.2 h
  | branch f on => exact keeps_bind hI.keeps_fetch fun off s h => hI.pc s _ h
  | jmp => exact keeps_bind (hI.keeps_ea .abs) fun target s h => hI.pc s target h
  | jmpInd =>
      exact keeps_bind (hI.keeps_ea .abs) fun ptr => keeps_bind (hI.keeps_readBus _) fun lo =>
        keeps_bind (hI.keeps_readBus _) fun hi s h => hI.pc s _ h
  | jsr =>
      exact keeps_bind (hI.keeps_ea .abs) fun target => keeps_bind keeps_get fun _ =>
        keeps_bind (hI.keeps_pushWord (hsp rfl) _) fun _ s h => hI.pc s target h
  | rts => exact keeps_bind (hI.keeps_pullWord (hsp rfl)) fun ret s h => hI.pc s _ h
  | rti =>
      refine keeps_bind (hI.keeps_pull (hsp rfl)) fun v => ?_
      refine keeps_bind (fun s h => hI.pulled s v h) fun _ => ?_
      exact keeps_bind (hI.keeps_pullWord (hsp rfl)) fun ret s h => hI.pc s ret h
  | brk => exact fun s h => hI.halt s h
  | nop => exact keeps_pure _

theorem keeps_irq (hsp : SpStable I) {s : Cpu δ} (h : I s) : I (irq s) := by
  unfold irq
  split
  · exact h
  · have henter : Keeps I (enterIrq (δ := δ)) := by
      refine keeps_bind keeps_get fun _ => keeps_bind (hI.keeps_pushWord hsp _) fun _ => ?_
      refine keeps_bind keeps_get fun _ => keeps_bind (hI.keeps_push hsp _) fun _ => ?_
      refine keeps_bind (fun t ht => hI.flags t .i true (by decide) (by decide) ht) fun _ => ?_
      exact keeps_bind (hI.keeps_readBus _) fun lo => keeps_bind (hI.keeps_readBus _)
        fun hi t ht => hI.pc t _ ht
    exact henter s h

end Stable

def executes (s : Cpu δ) : Option Instr :=
  if s.halted then none else decode (Bus.read s.pc s.mem).1

theorem Stable.keeps_step {I : Cpu δ → Prop} (hI : Stable I) {s : Cpu δ}
    (hsp : ∀ i, executes s = some i → i.movesSp = true → SpStable I) (h : I s) :
    I (step s) := by
  unfold step
  split
  · exact h
  · next hrun =>
    have hfetch : I (fetch s).2 := hI.keeps_fetch s h
    change I (execOp (fetch s).1 (fetch s).2).2
    have hexec : executes s = decode (fetch s).1 := if_neg hrun
    unfold execOp
    cases hop : decode (fetch s).1 with
    | none => exact hI.halt _ hfetch
    | some i =>
        have hflag := decode_flagOk _ i hop
        exact hI.keeps_exec hflag (hsp i (hexec.trans hop)) _ hfetch

def StatusOk (p : Byte) : Prop := flag .u p = true ∧ flag .b p = false

theorem StatusOk.put_eq_self {p : Byte} (h : StatusOk p) :
    putFlag .u true (putFlag .b false p) = p := by
  rw [putFlag_eq_self h.2, putFlag_eq_self h.1]

theorem statusOk_stable : Stable fun s : Cpu δ => StatusOk s.p where
  pc _ _ h := h
  put _ r _ h := by cases r <;> exact h
  flags s f on hu hb h := by
    simp only [StatusOk, flag_putFlag]
    rw [if_neg hu.symm, if_neg hb.symm]
    exact h
  pulled _ v _ := by simp [StatusOk]
  halt _ h := h
  read _ _ h := h
  write _ _ _ h := h

omit [Bus δ] in
theorem statusOk_spStable : SpStable fun s : Cpu δ => StatusOk s.p := fun _ _ h => h

end Mos6502
