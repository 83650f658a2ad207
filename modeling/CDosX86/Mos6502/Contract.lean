import CDosX86.Mos6502.RamRules

namespace Mos6502

open StateMonad

section

variable {δ : Type} [Bus δ]

inductive Runs : Nat → Cpu δ → Cpu δ → Prop where
  | here (s : Cpu δ) : Runs 0 s s
  | next {n : Nat} {s t : Cpu δ} : s.halted = false → Runs n (step s) t → Runs (n + 1) s t

variable {s t u : Cpu δ} {n k : Nat}

theorem Runs.one (h : s.halted = false) : Runs 1 s (step s) := .next h (.here _)

theorem Runs.trans (h : Runs n s t) (h' : Runs k t u) : Runs (n + k) s u := by
  induction h with
  | here s => rwa [Nat.zero_add]
  | next hrun _ ih =>
      rw [Nat.add_right_comm]
      exact .next hrun (ih h')

def Achieves (n : Nat) (P Q : Cpu δ → Prop) : Prop := ∀ s, P s → ∃ t, Runs n s t ∧ Q t

namespace Achieves

variable {P Q R : Cpu δ → Prop}

theorem seq (h : Achieves n P Q) (h' : Achieves k Q R) : Achieves (n + k) P R := by
  intro s hs
  obtain ⟨t, hst, ht⟩ := h s hs
  obtain ⟨u, htu, hu⟩ := h' t ht
  exact ⟨u, hst.trans htu, hu⟩

-- `I k` is the state of a loop that goes round `k` more times.
theorem loop {c : Nat} {I : Nat → Cpu δ → Prop} (body : ∀ k, Achieves c (I (k + 1)) (I k))
    (k : Nat) : Achieves (c * k) (I k) (I 0) := by
  induction k with
  | zero => exact fun s hs => ⟨s, .here s, hs⟩
  | succ k ih =>
      rw [Nat.mul_succ, Nat.add_comm]
      exact (body k).seq ih

end Achieves

end

variable {δ : Type} [RamBus δ]

structure Here (base : Word) (code : List Byte) (i : Nat) (s : Cpu δ) : Prop where
  run : s.halted = false
  pc : s.pc = base + BitVec.ofNat 16 i
  stored : CodeAt base code (ramOf s)
  plain : ∀ j < code.length, Plain δ (base + BitVec.ofNat 16 j)

namespace Here

variable {base : Word} {code : List Byte} {i : Nat} {s t : Cpu δ}

theorem byte (h : Here base code i s) (k : Nat) (hk : i + k < code.length) :
    byteAt s (BitVec.ofNat 16 k) = code[i + k] := by
  rw [byteAt, h.pc, BitVec.add_assoc, ← BitVec.ofNat_add]
  exact h.stored (i + k) hk

theorem readable (h : Here base code i s) (k : Nat) (hk : i + k < code.length) :
    Plain δ (s.pc + BitVec.ofNat 16 k) := by
  rw [h.pc, BitVec.add_assoc, ← BitVec.ofNat_add]
  exact h.plain (i + k) hk

theorem instr (h : Here base code i s) (hi : i < code.length) {ins : Instr}
    (hop : decode code[i] = some ins) : Next s ins where
  run := h.run
  plain := by
    have hfirst := h.readable 0 hi
    rwa [BitVec.add_zero] at hfirst
  op := (congrArg decode (h.byte 0 hi)).trans hop

theorem move (h : Here base code i s) {j : Nat} (hrun : t.halted = false)
    (hpc : t.pc = base + BitVec.ofNat 16 j)
    (hkept : ∀ k < code.length,
      ramOf t (base + BitVec.ofNat 16 k) = ramOf s (base + BitVec.ofNat 16 k)) :
    Here base code j t where
  run := hrun
  pc := hpc
  stored k hk := (hkept k hk).trans (h.stored k hk)
  plain := h.plain

end Here

variable {s t : Cpu δ}

theorem step_stop (h : Next s .brk) : step s = { skip 1 s with halted := true } := h.step_eq

def StackPlain (δ : Type) [RamBus δ] : Prop := ∀ b, Plain δ (stackPage b)

theorem pull_plain (hstack : StackPlain δ) (s : Cpu δ) :
    pull s = (ramOf s (stackPage (s.sp + 1)), { s with sp := s.sp + 1 }) := by
  rw [pull, RamBus.read_plain _ s.mem (hstack (s.sp + 1))]
  rfl

theorem step_jump (h : Next s .jmp) (hlo : Plain δ (s.pc + 1)) (hhi : Plain δ (s.pc + 2)) :
    step s = { s with pc := wordAt s 1 } := by
  rw [h.step_eq, exec, bind_apply, ea_abs hlo hhi]
  rfl

theorem step_call (h : Next s .jsr) (hlo : Plain δ (s.pc + 1)) (hhi : Plain δ (s.pc + 2)) :
    step s =
      { s with
        pc := wordAt s 1
        sp := s.sp - 2
        mem := Bus.write (stackPage (s.sp - 1)) ((s.pc + 2).extractLsb' 0 8)
          (Bus.write (stackPage s.sp) ((s.pc + 2).extractLsb' 8 8) s.mem) } := by
  have hret : s.pc + 3 - 1 = s.pc + 2 := by bv_omega
  have hsp : s.sp - 1 - 1 = s.sp - 2 := by bv_omega
  rw [h.step_eq, exec, bind_apply, ea_abs hlo hhi, ← hret, ← hsp]
  rfl

theorem Here.jump {base : Word} {code : List Byte} {i j : Nat} (h : Here base code i s)
    (hnext : Next s .jmp) (hlen : i + 2 < code.length)
    (htarget : wordAt s 1 = base + BitVec.ofNat 16 j) : Here base code j (step s) := by
  rw [step_jump hnext (h.readable 1 (by omega)) (h.readable 2 hlen), htarget]
  exact h.move h.run rfl fun _ _ => rfl

theorem write_clear {base addr : Word} {code : List Byte}
    (hclear : ∀ k < code.length, base + BitVec.ofNat 16 k ≠ addr) (v : Byte) (m : δ) :
    ∀ k < code.length,
      RamBus.ram (Bus.write addr v m) (base + BitVec.ofNat 16 k) =
        RamBus.ram m (base + BitVec.ofNat 16 k) := by
  intro k hk
  rw [RamBus.ram_write, Function.update_of_ne (hclear k hk)]

theorem Here.call {base : Word} {code : List Byte} {i j : Nat} (h : Here base code i s)
    (hnext : Next s .jsr) (hlen : i + 2 < code.length)
    (htarget : wordAt s 1 = base + BitVec.ofNat 16 j)
    (hclear : ∀ k < code.length, ∀ b, base + BitVec.ofNat 16 k ≠ stackPage b) :
    Here base code j (step s) := by
  rw [step_call hnext (h.readable 1 (by omega)) (h.readable 2 hlen), htarget]
  refine h.move h.run rfl fun k hk => ?_
  exact (write_clear (fun k hk => hclear k hk _) _ _ k hk).trans
    (write_clear (fun k hk => hclear k hk _) _ _ k hk)

theorem step_return (h : Next s .rts) (hstack : StackPlain δ) :
    step s =
      { s with
        pc := ramOf s (stackPage (s.sp + 2)) ++ ramOf s (stackPage (s.sp + 1)) + 1
        sp := s.sp + 2 } := by
  have hsp : s.sp + 1 + 1 = s.sp + 2 := by bv_omega
  rw [h.step_eq, exec, pullWord, bind_apply, bind_apply, pull_plain hstack, bind_apply,
    pull_plain hstack, ← hsp]
  rfl

-- Whatever runs between a call and the return that takes its two bytes from the stack, control
-- goes back behind the call.
theorem call_returns {n : Nat} (hcall : Next s .jsr) (hlo : Plain δ (s.pc + 1))
    (hhi : Plain δ (s.pc + 2)) (hstack : StackPlain δ) (body : Runs n (step s) t)
    (hret : Next t .rts) (hsp : t.sp = s.sp - 2)
    (hkept : ∀ b, b = s.sp ∨ b = s.sp - 1 →
      ramOf t (stackPage b) = ramOf (step s) (stackPage b)) :
    Runs (n + 2) s { t with pc := s.pc + 3, sp := s.sp } := by
  have hlow : ramOf t (stackPage (t.sp + 1)) = (s.pc + 2).extractLsb' 0 8 := by
    have hb : t.sp + 1 = s.sp - 1 := by rw [hsp]; bv_omega
    rw [hb, hkept _ (Or.inr rfl), step_call hcall hlo hhi, ramOf, RamBus.ram_write,
      Function.update_self]
  have hhigh : ramOf t (stackPage (t.sp + 2)) = (s.pc + 2).extractLsb' 8 8 := by
    have hb : t.sp + 2 = s.sp := by rw [hsp]; bv_omega
    have hne : stackPage s.sp ≠ stackPage (s.sp - 1) := by
      unfold stackPage
      bv_omega
    rw [hb, hkept _ (Or.inl rfl), step_call hcall hlo hhi, ramOf, RamBus.ram_write,
      Function.update_of_ne hne, RamBus.ram_write, Function.update_self]
  have hword : (s.pc + 2).extractLsb' 8 8 ++ (s.pc + 2).extractLsb' 0 8 = s.pc + 2 := by
    rw [BitVec.extractLsb'_append_extractLsb'_eq_extractLsb' (by decide : 8 = 0 + 8)]
    exact BitVec.extractLsb'_eq_self
  have hback : step t = { t with pc := s.pc + 3, sp := s.sp } := by
    rw [step_return hret hstack, hlow, hhigh, hword, hsp]
    congr 1 <;> bv_omega
  rw [← hback]
  exact .next hcall.run (body.trans (.one hret.run))

end Mos6502
