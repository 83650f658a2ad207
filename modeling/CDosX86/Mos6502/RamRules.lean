import CDosX86.Mos6502.Exec

namespace Mos6502

open StateMonad

class RamBus (δ : Type) extends Bus δ where
  ram : δ → Word → Byte
  Plain : Word → Prop
  read_plain : ∀ addr m, Plain addr → Bus.read addr m = (ram m addr, m)
  ram_write : ∀ addr v m, ram (Bus.write addr v m) = Function.update (ram m) addr v

def skip {δ : Type} (n : Word) (s : Cpu δ) : Cpu δ := { s with pc := s.pc + n }

theorem skip_one_one {δ : Type} (s : Cpu δ) : skip 1 (skip 1 s) = skip 2 s := by
  rw [skip, skip, skip, BitVec.add_assoc]
  rfl

theorem skip_two_one {δ : Type} (s : Cpu δ) : skip 1 (skip 2 s) = skip 3 s := by
  rw [skip, skip, skip, BitVec.add_assoc]
  rfl

variable {δ : Type} [RamBus δ]

def ramOf (s : Cpu δ) : Word → Byte := RamBus.ram s.mem

def Plain (δ : Type) [RamBus δ] (addr : Word) : Prop := RamBus.Plain δ addr

def CodeAt (base : Word) (code : List Byte) (ram : Word → Byte) : Prop :=
  ∀ i, (h : i < code.length) → ram (base + BitVec.ofNat 16 i) = code[i]

def byteAt (s : Cpu δ) (k : Word) : Byte := ramOf s (s.pc + k)

def wordAt (s : Cpu δ) (k : Word) : Word := byteAt s (k + 1) ++ byteAt s k

theorem readBus_plain {addr : Word} (h : Plain δ addr) (s : Cpu δ) :
    readBus addr s = (ramOf s addr, s) := by
  rw [readBus, RamBus.read_plain addr s.mem h]
  rfl

theorem fetch_plain {s : Cpu δ} (h : Plain δ s.pc) : fetch s = (byteAt s 0, skip 1 s) := by
  change readBus s.pc (skip 1 s) = _
  rw [readBus_plain h, byteAt, show s.pc + 0 = s.pc from BitVec.add_zero _]
  rfl

theorem byteAt_skip (s : Cpu δ) (n k : Word) : byteAt (skip n s) k = byteAt s (n + k) := by
  rw [byteAt, byteAt, ← BitVec.add_assoc]
  rfl

structure Next (s : Cpu δ) (i : Instr) : Prop where
  run : s.halted = false
  plain : Plain δ s.pc
  op : decode (byteAt s 0) = some i

variable {s : Cpu δ} {i : Instr}

theorem Next.step_eq (h : Next s i) : step s = (exec i (skip 1 s)).2 := by
  rw [step, if_neg (by simp [h.run])]
  change (execOp (fetch s).1 (fetch s).2).2 = _
  rw [fetch_plain h.plain, execOp, h.op]

theorem fetch_operand (h : Plain δ (s.pc + 1)) : fetch (skip 1 s) = (byteAt s 1, skip 2 s) := by
  rw [fetch_plain (s := skip 1 s) h, byteAt_skip, skip_one_one]
  rfl

theorem fetchWord_operand (hlo : Plain δ (s.pc + 1)) (hhi : Plain δ (s.pc + 2)) :
    fetchWord (skip 1 s) = (wordAt s 1, skip 3 s) := by
  have hnext : Plain δ ((skip 2 s).pc) := hhi
  rw [fetchWord, bind_apply, fetch_operand hlo, bind_apply, fetch_plain hnext, byteAt_skip,
    skip_two_one]
  rfl

theorem ea_imm (s : Cpu δ) : ea .imm (skip 1 s) = (s.pc + 1, skip 2 s) := by
  rw [← skip_one_one]
  rfl

theorem ea_zp (h : Plain δ (s.pc + 1)) :
    ea .zp (skip 1 s) = (zeroPage (byteAt s 1), skip 2 s) := by
  rw [ea, bind_apply, fetch_operand h]
  rfl

theorem ea_abs (hlo : Plain δ (s.pc + 1)) (hhi : Plain δ (s.pc + 2)) :
    ea .abs (skip 1 s) = (wordAt s 1, skip 3 s) :=
  fetchWord_operand hlo hhi

theorem ea_absx (hlo : Plain δ (s.pc + 1)) (hhi : Plain δ (s.pc + 2)) :
    ea .absx (skip 1 s) = (wordAt s 1 + zeroPage s.x, skip 3 s) := by
  rw [ea, bind_apply, fetchWord_operand hlo hhi]
  rfl

theorem step_setFlag {f : Flag} {on : Bool} (h : Next s (.setFlag f on)) :
    step s = { skip 1 s with p := putFlag f on s.p } := h.step_eq

theorem step_transfer {src dst : Reg} (h : Next s (.transfer src dst)) :
    step s = { dst.put (src.get s) (skip 1 s) with p := putZN (src.get s) s.p } := by
  rw [h.step_eq]
  cases src <;> cases dst <;> rfl

theorem step_incr {r : Reg} (h : Next s (.incr r)) :
    step s = { r.put (r.get s + 1) (skip 1 s) with p := putZN (r.get s + 1) s.p } := by
  rw [h.step_eq]
  cases r <;> rfl

theorem step_load {r : Reg} {m : Mode} {addr : Word} {n : Word} (h : Next s (.load r m))
    (hea : ea m (skip 1 s) = (addr, skip n s)) (hplain : Plain δ addr) :
    step s = { r.put (ramOf s addr) (skip n s) with p := putZN (ramOf s addr) s.p } := by
  rw [h.step_eq, exec, bind_apply, operand, bind_apply, hea, readBus_plain hplain]
  cases r <;> rfl

theorem step_store {r : Reg} {m : Mode} {addr : Word} {n : Word} (h : Next s (.store r m))
    (hea : ea m (skip 1 s) = (addr, skip n s)) :
    step s = { skip n s with mem := Bus.write addr (r.get s) s.mem } := by
  rw [h.step_eq, exec, bind_apply, hea]
  cases r <;> rfl

theorem step_compare {r : Reg} {m : Mode} {addr : Word} {n : Word} (h : Next s (.compare r m))
    (hea : ea m (skip 1 s) = (addr, skip n s)) (hplain : Plain δ addr) :
    step s = { skip n s with p := putCompare (r.get s) (ramOf s addr) s.p } := by
  rw [h.step_eq, exec, bind_apply, operand, bind_apply, hea, readBus_plain hplain]
  cases r <;> rfl

theorem step_dec {m : Mode} {addr : Word} {n : Word} (h : Next s (.dec m))
    (hea : ea m (skip 1 s) = (addr, skip n s)) (hplain : Plain δ addr) :
    step s =
      { skip n s with
        p := putZN (ramOf s addr - 1) s.p
        mem := Bus.write addr (ramOf s addr - 1) s.mem } := by
  rw [h.step_eq, exec, rmw, bind_apply, hea, bind_apply, readBus_plain hplain]
  rfl

theorem step_branch {f : Flag} {on : Bool} (h : Next s (.branch f on))
    (hplain : Plain δ (s.pc + 1)) :
    step s =
      { s with
        pc := if flag f s.p = on then s.pc + 2 + (byteAt s 1).signExtend 16 else s.pc + 2 } := by
  rw [h.step_eq, exec, bind_apply, fetch_operand hplain]
  rfl

end Mos6502
