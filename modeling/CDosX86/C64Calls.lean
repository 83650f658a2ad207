import CDosX86.C64Keys

namespace CDosX86

inductive Call where
  | step
  | irq
  | reset (startPc : Word)
  | key (c : Byte)
  | write (addr : Word) (val : Byte)
  deriving DecidableEq, Repr

namespace C64

def reset (startPc : Word) (k : C64) : C64 := { k with machine := resetM startPc k.machine }

def write (addr : Word) (val : Byte) (k : C64) : C64 := k.withMem (k.mem.write addr val)

def call (k : C64) : Call → C64
  | .step => k.step
  | .irq => k.irq
  | .reset startPc => k.reset startPc
  | .key c => k.injectKey c
  | .write addr val => k.write addr val

def calls (k : C64) (cs : List Call) : C64 := cs.foldl call k

theorem calls_keep {I : C64 → Prop} (hcall : ∀ c k, I k → I (k.call c)) (cs : List Call)
    {k : C64} (h : I k) : I (k.calls cs) := by
  induction cs generalizing k with
  | nil => exact h
  | cons c cs ih => exact ih (hcall c k h)

def gather {α : Type} (f : C64 → Call → List α) : C64 → List Call → List α
  | _, [] => []
  | k, c :: cs => f k c ++ gather f (k.call c) cs

theorem gather_keeps {α : Type} {f : C64 → Call → List α} {J : List α → C64 → Prop}
    (hcall : ∀ log k c, J log k → J (log ++ f k c) (k.call c)) (cs : List Call)
    {log : List α} {k : C64} (h : J log k) : J (log ++ gather f k cs) (k.calls cs) := by
  induction cs generalizing log k with
  | nil => rwa [gather, List.append_nil]
  | cons c cs ih =>
      rw [gather, ← List.append_assoc]
      exact ih (hcall log k c h)

def keyWrites (c : Byte) (k : C64) : List (Word × Byte) :=
  if c ≠ escape ∧ k.mem.ram ndx < keydMax then
    [(keyd + (k.mem.ram ndx).setWidth 16, translateKey c), (ndx, k.mem.ram ndx + 1)]
  else []

theorem machine_injectKey (c : Byte) (k : C64) :
    (k.injectKey c).machine =
      (k.keyWrites c).foldl (fun m w => (cpu6502Write w.1 w.2 m).2) k.machine := by
  by_cases hesc : c = escape
  · subst hesc
    rfl
  · by_cases hroom : k.mem.ram ndx < keydMax
    · rw [injectKey_room hesc hroom, keyWrites, if_pos ⟨hesc, hroom⟩]
      rfl
    · rw [injectKey_full hesc (BitVec.not_lt.mp hroom), keyWrites, if_neg fun h => hroom h.2]
      rfl

theorem ram_injectKey_elsewhere {addr : Word} (hndx : addr ≠ ndx)
    (hkeyd : ¬ (keyd ≤ addr ∧ addr ≤ keyd + 9)) (c : Byte) (k : C64) :
    (k.injectKey c).mem.ram addr = k.mem.ram addr := by
  by_cases hesc : c = escape
  · rw [hesc]
    rfl
  · by_cases hroom : k.mem.ram ndx < keydMax
    · have hkey : addr ≠ keyd + (k.mem.ram ndx).setWidth 16 := by
        unfold keydMax at hroom
        unfold keyd at hkeyd ⊢
        bv_omega
      rw [injectKey_room hesc hroom, mem_withMem, C64Mem.write_ram, C64Mem.write_ram,
        Function.update_of_ne hndx, Function.update_of_ne hkey]
    · rw [injectKey_full hesc (BitVec.not_lt.mp hroom)]
      rfl

theorem keep_injectKey {I : Machine → Prop}
    (hwrite : ∀ addr val m, I m → I (cpu6502Write addr val m).2) (c : Byte) {k : C64}
    (h : I k.machine) : I (k.injectKey c).machine := by
  rw [machine_injectKey]
  generalize k.keyWrites c = ws
  generalize k.machine = m at h
  induction ws generalizing m with
  | nil => exact h
  | cons w ws ih => exact ih _ (hwrite w.1 w.2 m h)

end C64

end CDosX86
