import CDosX86.StateMonad
import Mathlib.Tactic.IntervalCases

namespace Mos6502

abbrev Byte := BitVec 8

abbrev Word := BitVec 16

inductive Flag where
  | c | z | i | d | b | u | v | n
  deriving DecidableEq, Repr

def Flag.bit : Flag → Nat
  | .c => 0
  | .z => 1
  | .i => 2
  | .d => 3
  | .b => 4
  | .u => 5
  | .v => 6
  | .n => 7

theorem Flag.bit_lt (f : Flag) : f.bit < 8 := by cases f <;> decide

theorem Flag.bit_inj (f g : Flag) : f.bit = g.bit ↔ f = g := by
  cases f <;> cases g <;> decide

theorem Flag.bit_surj (k : Nat) (hk : k < 8) : ∃ f : Flag, f.bit = k := by
  interval_cases k
  exacts [⟨.c, rfl⟩, ⟨.z, rfl⟩, ⟨.i, rfl⟩, ⟨.d, rfl⟩, ⟨.b, rfl⟩, ⟨.u, rfl⟩, ⟨.v, rfl⟩, ⟨.n, rfl⟩]

def flag (f : Flag) (p : Byte) : Bool := p.getLsbD f.bit

def putFlag (f : Flag) (on : Bool) (p : Byte) : Byte :=
  if on then p ||| BitVec.twoPow 8 f.bit else p &&& ~~~(BitVec.twoPow 8 f.bit)

@[simp] theorem flag_putFlag (f g : Flag) (on : Bool) (p : Byte) :
    flag f (putFlag g on p) = if f = g then on else flag f p := by
  have hf := f.bit_lt
  unfold flag putFlag
  by_cases h : f = g
  · subst h
    cases on <;> simp [hf]
  · have hb : ¬ f.bit = g.bit := by rwa [Flag.bit_inj]
    cases on <;> simp [h, hf] <;> grind

theorem ext_flag {p q : Byte} (h : ∀ f, flag f p = flag f q) : p = q := by
  apply BitVec.eq_of_getLsbD_eq
  intro k hk
  obtain ⟨f, rfl⟩ := Flag.bit_surj k hk
  exact h f

theorem putFlag_eq_self {f : Flag} {on : Bool} {p : Byte} (h : flag f p = on) :
    putFlag f on p = p := by
  apply ext_flag
  intro g
  rw [flag_putFlag]
  split
  · next hg => rw [hg, h]
  · rfl

class Bus (δ : Type) where
  read : Word → δ → Byte × δ
  write : Word → Byte → δ → δ

structure Cpu (δ : Type) where
  a : Byte
  x : Byte
  y : Byte
  sp : Byte
  pc : Word
  p : Byte
  halted : Bool
  mem : δ

abbrev Exec (δ α : Type) := StateM (Cpu δ) α

def zeroPage (b : Byte) : Word := b.setWidth 16

def stackPage (b : Byte) : Word := 0x0100#16 + b.setWidth 16

section

variable {δ : Type} [Bus δ]

def readBus (addr : Word) : Exec δ Byte := fun s =>
  ((Bus.read addr s.mem).1, { s with mem := (Bus.read addr s.mem).2 })

def writeBus (addr : Word) (v : Byte) : Exec δ Unit := fun s =>
  ((), { s with mem := Bus.write addr v s.mem })

def nextPc : Exec δ Word := fun s => (s.pc, { s with pc := s.pc + 1 })

def fetch : Exec δ Byte := do
  readBus (← nextPc)

def fetchWord : Exec δ Word := do
  let lo ← fetch
  let hi ← fetch
  return hi ++ lo

def push (v : Byte) : Exec δ Unit := fun s =>
  ((), { s with mem := Bus.write (stackPage s.sp) v s.mem, sp := s.sp - 1 })

def pull : Exec δ Byte := fun s =>
  let r := Bus.read (stackPage (s.sp + 1)) s.mem
  (r.1, { s with mem := r.2, sp := s.sp + 1 })

def pushWord (w : Word) : Exec δ Unit := do
  push (w.extractLsb' 8 8)
  push (w.extractLsb' 0 8)

def pullWord : Exec δ Word := do
  let lo ← pull
  let hi ← pull
  return hi ++ lo

end

end Mos6502
