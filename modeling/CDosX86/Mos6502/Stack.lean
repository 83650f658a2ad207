import CDosX86.Mos6502.Frame

namespace Mos6502

open StateMonad

class StackBus (δ : Type) extends Bus δ where
  stack : δ → Byte → Byte
  read_stack : ∀ b m, Bus.read (stackPage b) m = (stack m b, m)
  write_stack : ∀ b v m, stack (Bus.write (stackPage b) v m) = Function.update (stack m) b v
  stack_read : ∀ addr m, stack (Bus.read addr m).2 = stack m

variable {δ : Type} [StackBus δ]

def stackAt (s : Cpu δ) (b : Byte) : Byte := StackBus.stack s.mem b

def LiveKept (d : Nat) (s t : Cpu δ) : Prop :=
  ∀ k < d, stackAt t (s.sp + 1 + BitVec.ofNat 8 k) = stackAt s (s.sp + 1 + BitVec.ofNat 8 k)

theorem fetch_stack (s : Cpu δ) (b : Byte) : stackAt (fetch s).2 b = stackAt s b :=
  congrFun (StackBus.stack_read s.pc s.mem) b

theorem fetchWord_stack (s : Cpu δ) (b : Byte) : stackAt (fetchWord s).2 b = stackAt s b :=
  (fetch_stack (fetch s).2 b).trans (fetch_stack s b)

theorem push_stack (v : Byte) (s : Cpu δ) :
    stackAt (push v s).2 = Function.update (stackAt s) s.sp v :=
  StackBus.write_stack s.sp v s.mem

theorem pull_apply (s : Cpu δ) :
    pull s = (stackAt s (s.sp + 1), { s with sp := s.sp + 1 }) := by
  simp [pull, StackBus.read_stack, stackAt]

theorem pullWord_apply (s : Cpu δ) :
    pullWord s = (stackAt s (s.sp + 1 + 1) ++ stackAt s (s.sp + 1), { s with sp := s.sp + 1 + 1 }) := by
  simp [pullWord, pull_apply, stackAt]

theorem step_eq {s : Cpu δ} {i : Instr} (h : executes s = some i) :
    step s = (exec i (fetch s).2).2 := by
  unfold executes at h
  split at h
  · cases h
  · next hrun =>
    have hop : decode (fetch s).1 = some i := h
    rw [step, if_neg hrun]
    change (execOp (fetch s).1 (fetch s).2).2 = _
    rw [execOp, hop]

theorem stackAt_fetch (s : Cpu δ) : stackAt (fetch s).2 = stackAt s :=
  funext (fetch_stack s)

theorem stackAt_fetchWord (s : Cpu δ) : stackAt (fetchWord s).2 = stackAt s :=
  funext (fetchWord_stack s)

theorem exec_jsr (s : Cpu δ) :
    (exec .jsr s).2 =
      { (pushWord ((fetchWord s).2.pc - 1) (fetchWord s).2).2 with pc := (fetchWord s).1 } := rfl

theorem step_jsr {s : Cpu δ} (h : executes s = some .jsr) :
    (step s).sp = s.sp - 1 - 1 ∧
      stackAt (step s) =
        Function.update (Function.update (stackAt s) s.sp ((s.pc + 2).extractLsb' 8 8))
          (s.sp - 1) ((s.pc + 2).extractLsb' 0 8) := by
  rw [step_eq h, exec_jsr]
  have hpc : (fetchWord (fetch s).2).2.pc - 1 = s.pc + 2 := by
    change s.pc + 1 + 1 + 1 - 1 = s.pc + 2
    bv_omega
  have hsp : (fetchWord (fetch s).2).2.sp = s.sp := rfl
  have hstack : stackAt (fetchWord (fetch s).2).2 = stackAt s := by
    rw [stackAt_fetchWord, stackAt_fetch]
  rw [hpc]
  generalize (fetchWord (fetch s).2).2 = t at hsp hstack
  constructor
  · change t.sp - 1 - 1 = s.sp - 1 - 1
    rw [hsp]
  · change stackAt (push _ (push _ t).2).2 = _
    rw [push_stack, push_stack, hstack]
    change Function.update (Function.update _ t.sp _) (t.sp - 1) _ = _
    rw [hsp]

theorem step_rts {s : Cpu δ} (h : executes s = some .rts) :
    (step s).sp = s.sp + 1 + 1 ∧ stackAt (step s) = stackAt s ∧
      (step s).pc = (stackAt s (s.sp + 1 + 1) ++ stackAt s (s.sp + 1) : Word) + 1 := by
  rw [step_eq h, exec, bind_apply, pullWord_apply, stackAt_fetch]
  exact ⟨rfl, stackAt_fetch s, rfl⟩

theorem step_pha {s : Cpu δ} (h : executes s = some .pha) :
    (step s).sp = s.sp - 1 ∧ stackAt (step s) = Function.update (stackAt s) s.sp s.a := by
  rw [step_eq h]
  refine ⟨rfl, ?_⟩
  change stackAt (push s.a (fetch s).2).2 = _
  rw [push_stack, stackAt_fetch]
  rfl

theorem step_php {s : Cpu δ} (h : executes s = some .php) :
    (step s).sp = s.sp - 1 ∧
      stackAt (step s) =
        Function.update (stackAt s) s.sp (putFlag .u true (putFlag .b true s.p)) := by
  rw [step_eq h]
  refine ⟨rfl, ?_⟩
  change stackAt (push _ (fetch s).2).2 = _
  rw [push_stack, stackAt_fetch]
  rfl

theorem step_pla {s : Cpu δ} (h : executes s = some .pla) :
    (step s).sp = s.sp + 1 ∧ stackAt (step s) = stackAt s ∧
      (step s).a = stackAt s (s.sp + 1) := by
  rw [step_eq h, exec, bind_apply, pull_apply, stackAt_fetch]
  exact ⟨rfl, stackAt_fetch s, rfl⟩

theorem step_plp {s : Cpu δ} (h : executes s = some .plp) :
    (step s).sp = s.sp + 1 ∧ stackAt (step s) = stackAt s ∧
      (step s).p = putFlag .u true (putFlag .b false (stackAt s (s.sp + 1))) := by
  rw [step_eq h, exec, bind_apply, pull_apply, stackAt_fetch]
  exact ⟨rfl, stackAt_fetch s, rfl⟩

theorem step_rti {s : Cpu δ} (h : executes s = some .rti) :
    (step s).sp = s.sp + 1 + 1 + 1 ∧ (step s).a = s.a ∧ (step s).x = s.x ∧ (step s).y = s.y ∧
      (step s).p = putFlag .u true (putFlag .b false (stackAt s (s.sp + 1))) ∧
      (step s).pc = stackAt s (s.sp + 1 + 1 + 1) ++ stackAt s (s.sp + 1 + 1) := by
  rw [step_eq h, exec, bind_apply, pull_apply, bind_apply, modify_apply, bind_apply,
    pullWord_apply, ← stackAt_fetch s]
  exact ⟨rfl, rfl, rfl, rfl, rfl, rfl⟩

theorem step_sp {s : Cpu δ} (h : ∀ i, executes s = some i → i.movesSp = false) :
    (step s).sp = s.sp := by
  have hI : Stable fun t : Cpu δ => t.sp = s.sp :=
    { pc := fun _ _ ht => ht
      put := fun _ r _ ht => by cases r <;> exact ht
      flags := fun _ _ _ _ _ ht => ht
      pulled := fun _ _ ht => ht
      halt := fun _ ht => ht
      read := fun _ _ ht => ht
      write := fun _ _ _ ht => ht }
  refine hI.keeps_step (fun i hi hmoves => ?_) rfl
  rw [h i hi] at hmoves
  cases hmoves

def Holds (f : Byte → Byte) (sp : Byte) : List Byte → Prop
  | [] => True
  | v :: xs => f (sp + 1) = v ∧ Holds f (sp + 1) xs

theorem Holds.congr {f g : Byte → Byte} {sp : Byte} {xs : List Byte} (h : Holds f sp xs)
    (hfg : ∀ k < xs.length, g (sp + 1 + BitVec.ofNat 8 k) = f (sp + 1 + BitVec.ofNat 8 k)) :
    Holds g sp xs := by
  induction xs generalizing sp with
  | nil => trivial
  | cons v xs ih =>
      have htop := hfg 0 (by simp)
      simp only [BitVec.add_zero] at htop
      refine ⟨htop.trans h.1, ih h.2 fun k hk => ?_⟩
      have hnext := hfg (k + 1) (by simpa using hk)
      rwa [BitVec.ofNat_add, BitVec.add_comm (BitVec.ofNat 8 k), ← BitVec.add_assoc] at hnext

theorem Holds.push {f : Byte → Byte} {sp : Byte} {xs : List Byte} (h : Holds f sp xs)
    (hroom : xs.length < 256) (v : Byte) :
    Holds (Function.update f sp v) (sp - 1) (v :: xs) := by
  have hback : sp - 1 + 1 = sp := by bv_omega
  refine ⟨by rw [hback, Function.update_self], ?_⟩
  rw [hback]
  refine h.congr fun k hk => Function.update_of_ne ?_ _ _
  intro heq
  have : (BitVec.ofNat 8 k).toNat = k := by simp; omega
  bv_omega

theorem word_halves (w : Word) : (w.extractLsb' 8 8 ++ w.extractLsb' 0 8 : Word) = w := by
  ext k hk
  rw [BitVec.getElem_append]
  simp only [BitVec.getElem_extractLsb']
  split <;> rw [← BitVec.getLsbD_eq_getElem hk] <;> congr 1 <;> omega

inductive Opener where
  | call | saveA | saveP
  deriving DecidableEq, Repr

namespace Opener

def opens : Opener → Instr
  | .call => .jsr
  | .saveA => .pha
  | .saveP => .php

def closes : Opener → Instr
  | .call => .rts
  | .saveA => .pla
  | .saveP => .plp

def saved (s : Cpu δ) : Opener → List Byte
  | .call => [(s.pc + 2).extractLsb' 0 8, (s.pc + 2).extractLsb' 8 8]
  | .saveA => [s.a]
  | .saveP => [putFlag .u true (putFlag .b true s.p)]

def bytes : Opener → Nat
  | .call => 2
  | .saveA => 1
  | .saveP => 1

omit [StackBus δ] in
theorem length_saved (s : Cpu δ) (o : Opener) : (o.saved s).length = o.bytes := by
  cases o <;> rfl

def Restores (before after : Cpu δ) : Opener → Prop
  | .call => after.pc = before.pc + 3
  | .saveA => after.a = before.a
  | .saveP => after.p = putFlag .u true (putFlag .b false before.p)

theorem step_opens {o : Opener} {s : Cpu δ} {xs : List Byte} (h : executes s = some o.opens)
    (hroom : xs.length + o.bytes ≤ 256) (hs : Holds (stackAt s) s.sp xs) :
    Holds (stackAt (step s)) (step s).sp (o.saved s ++ xs) ∧
      (step s).sp = s.sp - BitVec.ofNat 8 o.bytes := by
  cases o with
  | call =>
      obtain ⟨hsp, hstack⟩ := step_jsr h
      rw [hsp, hstack]
      have hone := hs.push (by simp only [bytes] at hroom; omega) ((s.pc + 2).extractLsb' 8 8)
      have htwo := hone.push (by simp only [bytes, List.length_cons] at hroom ⊢; omega)
        ((s.pc + 2).extractLsb' 0 8)
      exact ⟨htwo, by simp only [bytes]; bv_omega⟩
  | saveA =>
      obtain ⟨hsp, hstack⟩ := step_pha h
      rw [hsp, hstack]
      exact ⟨hs.push (by simp only [bytes] at hroom; omega) _, rfl⟩
  | saveP =>
      obtain ⟨hsp, hstack⟩ := step_php h
      rw [hsp, hstack]
      exact ⟨hs.push (by simp only [bytes] at hroom; omega) _, rfl⟩

theorem step_closes {o : Opener} {s t : Cpu δ} {xs : List Byte}
    (h : executes t = some o.closes) (ht : Holds (stackAt t) t.sp (o.saved s ++ xs)) :
    Holds (stackAt (step t)) (step t).sp xs ∧ (step t).sp = t.sp + BitVec.ofNat 8 o.bytes ∧
      o.Restores s (step t) := by
  cases o with
  | call =>
      obtain ⟨hsp, hstack, hpc⟩ := step_rts h
      obtain ⟨hlo, hhi, hrest⟩ := ht
      rw [hsp, hstack]
      refine ⟨hrest, by simp only [bytes]; bv_omega, ?_⟩
      rw [Restores, hpc, hlo, hhi]
      rw [word_halves]
      bv_omega
  | saveA =>
      obtain ⟨hsp, hstack, ha⟩ := step_pla h
      obtain ⟨htop, hrest⟩ := ht
      rw [hsp, hstack]
      exact ⟨hrest, rfl, ha.trans htop⟩
  | saveP =>
      obtain ⟨hsp, hstack, hp⟩ := step_plp h
      obtain ⟨htop, hrest⟩ := ht
      rw [hsp, hstack]
      refine ⟨hrest, rfl, ?_⟩
      rw [Restores, hp, htop]
      apply ext_flag
      intro f
      simp only [flag_putFlag]
      split_ifs <;> rfl

end Opener

def irqFrame (s : Cpu δ) : List Byte :=
  [putFlag .u true (putFlag .b false s.p), s.pc.extractLsb' 0 8, s.pc.extractLsb' 8 8]

theorem irq_pushes {s : Cpu δ} (hi : flag .i s.p = false) (hrun : s.halted = false) :
    (irq s).sp = s.sp - 1 - 1 - 1 ∧ Holds (stackAt (irq s)) (irq s).sp (irqFrame s) := by
  have henter : irq s = (enterIrq s).2 := if_neg (by simp [hi, hrun])
  have hsp : (irq s).sp = s.sp - 1 - 1 - 1 := by rw [henter]; rfl
  have hstack : stackAt (irq s) =
      Function.update (Function.update (Function.update (stackAt s) s.sp (s.pc.extractLsb' 8 8))
        (s.sp - 1) (s.pc.extractLsb' 0 8)) (s.sp - 1 - 1)
        (putFlag .u true (putFlag .b false s.p)) := by
    rw [henter]
    let t := (push (putFlag .u true (putFlag .b false s.p)) (pushWord s.pc s).2).2
    have hread : stackAt (enterIrq s).2 = stackAt t := by
      funext b
      have hhi := congrFun (StackBus.stack_read 0xFFFF (Bus.read 0xFFFE t.mem).2) b
      exact hhi.trans (congrFun (StackBus.stack_read 0xFFFE t.mem) b)
    rw [hread, push_stack]
    change Function.update (stackAt (push _ (push _ s).2).2) _ _ = _
    rw [push_stack, push_stack]
    rfl
  have hnone : Holds (stackAt s) s.sp [] := trivial
  have hhi := hnone.push (by decide) (s.pc.extractLsb' 8 8)
  have hlo := hhi.push (by simp) (s.pc.extractLsb' 0 8)
  have hp := hlo.push (by simp) (putFlag .u true (putFlag .b false s.p))
  rw [hsp, hstack]
  exact ⟨rfl, hp⟩

theorem irq_rti_restores {s t : Cpu δ} (hok : StatusOk s.p) (hi : flag .i s.p = false)
    (hrun : s.halted = false) (hrti : executes t = some .rti) (hsp : t.sp = (irq s).sp)
    (hkept : LiveKept 3 (irq s) t) :
    (step t).sp = s.sp ∧ (step t).pc = s.pc ∧ (step t).p = s.p ∧
      (step t).a = t.a ∧ (step t).x = t.x ∧ (step t).y = t.y := by
  obtain ⟨hdown, hheld⟩ := irq_pushes hi hrun
  have htop : Holds (stackAt t) (irq s).sp (irqFrame s) := hheld.congr hkept
  rw [← hsp] at htop
  obtain ⟨hp, hlo, hhi, -⟩ := htop
  obtain ⟨hup, ha, hx, hy, hpull, hpc⟩ := step_rti hrti
  refine ⟨?_, ?_, ?_, ha, hx, hy⟩
  · rw [hup, hsp, hdown]
    bv_omega
  · rw [hpc, hhi, hlo, word_halves]
  · rw [hpull, hp, hok.put_eq_self, hok.put_eq_self]

structure Matched (σ : Type) where
  opener : Opener
  before : σ
  closing : σ

section nested

variable {σ : Type} (next : σ → σ) (view : σ → Cpu δ)

-- The depth counts the stack bytes pushed since the start of the run and not yet pulled.
inductive Nested : Nat → σ → List (Matched σ) → σ → Prop
  | done (d : Nat) (s : σ) : Nested d s [] s
  | plain {d : Nat} {s t : σ} {ps : List (Matched σ)} :
      (∀ i, executes (view s) = some i → i.movesSp = false) →
      LiveKept d (view s) (view (next s)) →
      Nested d (next s) ps t →
      Nested d s ps t
  | bracket {d : Nat} {s t u : σ} {ps qs : List (Matched σ)} (o : Opener) :
      executes (view s) = some o.opens →
      d + o.bytes ≤ 256 →
      Nested (d + o.bytes) (next s) ps t →
      executes (view t) = some o.closes →
      Nested d (next t) qs u →
      Nested d s (⟨o, s, t⟩ :: (ps ++ qs)) u

variable {next view}

def Matched.Restored (next : σ → σ) (view : σ → Cpu δ) (c : Matched σ) : Prop :=
  c.opener.Restores (view c.before) (view (next c.closing))

theorem Nested.sound (hview : ∀ s, view (next s) = step (view s)) {d : Nat} {s t : σ}
    {ps : List (Matched σ)} (h : Nested next view d s ps t) :
    ∀ xs : List Byte, xs.length = d → Holds (stackAt (view s)) (view s).sp xs →
      Holds (stackAt (view t)) (view t).sp xs ∧ (view t).sp = (view s).sp ∧
        ∀ c ∈ ps, c.Restored next view := by
  induction h with
  | done d s => exact fun xs _ hs => ⟨hs, rfl, by simp⟩
  | @plain d s t ps hplain hlive _ ih =>
      intro xs hlen hs
      have hsp : (view (next s)).sp = (view s).sp := by rw [hview, step_sp hplain]
      have hkept : Holds (stackAt (view (next s))) (view (next s)).sp xs := by
        rw [hsp]
        exact hs.congr fun k hk => hlive k (by omega)
      obtain ⟨ht, htsp, hps⟩ := ih xs hlen hkept
      exact ⟨ht, htsp.trans hsp, hps⟩
  | @bracket d s t u ps qs o hopen hroom _ hclose _ ihbody ihrest =>
      intro xs hlen hs
      obtain ⟨hpushed, hdown⟩ := Opener.step_opens hopen (by omega) hs
      rw [← hview] at hpushed hdown
      have hbody := ihbody (o.saved (view s) ++ xs)
        (by rw [List.length_append, Opener.length_saved]; omega) hpushed
      obtain ⟨hheld, hsame, hps⟩ := hbody
      obtain ⟨hpulled, hup, hrestored⟩ := Opener.step_closes hclose hheld
      rw [← hview] at hpulled hup hrestored
      obtain ⟨hu, husp, hqs⟩ := ihrest xs hlen hpulled
      refine ⟨hu, ?_, ?_⟩
      · rw [husp, hup, hsame, hdown]
        exact BitVec.sub_add_cancel _ _
      · intro c hc
        rcases List.mem_cons.mp hc with rfl | hc
        · exact hrestored
        · rcases List.mem_append.mp hc with hc | hc
          · exact hps c hc
          · exact hqs c hc

end nested

end Mos6502
