import CDosX86.DiskRoundTrip
import CDosX86.Interrupts
import CDosX86.X86Stack

namespace CDosX86

open X86

def kernelData : Selector := 0x10

variable {σ : Type}

-- What the macros ISR_NOERR and IRQ, and ISR_ERR, do before they jump to the common stub.
def enterNoErr (number : Dword) : List (Instr σ) := [.cli, .pushImm 0, .pushImm number]

def enterErr (number : Dword) : List (Instr σ) := [.cli, .pushImm number]

def stubEntry : List (Instr σ) :=
  [.pusha, .movAxDs, .pushEax, .movAxImm kernelData] ++ loadSegs

-- `struct registers` and `struct irq_registers`. Their last two fields, `useresp` and `ss`, are
-- left out: no function reads them, and there is no change of privilege to push them.
structure IrqRegisters where
  ds : Dword
  edi : Dword
  esi : Dword
  ebp : Dword
  esp : Dword
  ebx : Dword
  edx : Dword
  ecx : Dword
  eax : Dword
  intNo : Dword
  errCode : Dword
  eip : Dword
  cs : Dword
  eflags : Dword

namespace IrqRegisters

-- How the common stub goes on with `c` from what is left of the struct.
def resume (r : IrqRegisters) (stack : List Dword) (c : Cpu σ) : Cpu σ :=
  { c with
    regs := ⟨r.eax, r.ecx, r.edx, r.ebx, r.ebp, r.esi, r.edi⟩
    segs := Segs.flat (r.ds.setWidth 16)
    cs := r.cs.setWidth 16
    eip := r.eip
    eflags := r.eflags
    stack := stack }

-- Of two such structs the stub takes the same; it leaves out `esp`, `int_no`, `err_code` and the
-- upper halves of `ds` and `cs`.
structure Restores (r saved : IrqRegisters) : Prop where
  ds : r.ds.setWidth 16 = saved.ds.setWidth 16
  edi : r.edi = saved.edi
  esi : r.esi = saved.esi
  ebp : r.ebp = saved.ebp
  ebx : r.ebx = saved.ebx
  edx : r.edx = saved.edx
  ecx : r.ecx = saved.ecx
  eax : r.eax = saved.eax
  eip : r.eip = saved.eip
  cs : r.cs.setWidth 16 = saved.cs.setWidth 16
  eflags : r.eflags = saved.eflags

theorem Restores.refl (r : IrqRegisters) : r.Restores r :=
  ⟨rfl, rfl, rfl, rfl, rfl, rfl, rfl, rfl, rfl, rfl, rfl⟩

end IrqRegisters

-- What the common stub puts on the stack before its call, `struct registers` from `ds` to `eax`.
def savedDwords (c : Cpu σ) : List Dword :=
  (c.regs.eax.extractLsb' 16 16 ++ c.segs.ds) :: c.regs.edi :: c.regs.esi :: c.regs.ebp :: c.esp ::
    c.regs.ebx :: c.regs.edx :: c.regs.ecx :: c.regs.eax :: c.stack

-- The processor at the call of the C function, before the return address is pushed.
def atCall (c : Cpu σ) : Cpu σ :=
  { c with
    regs := { c.regs with eax := c.regs.eax.extractLsb' 16 16 ++ kernelData }
    esp := c.esp - 36
    segs := Segs.flat kernelData
    stack := savedDwords c }

theorem run_stubEntry (c : Cpu σ) : run stubEntry c = some (atCall c) := by
  have hesp : c.esp - 4 - 4 - 4 - 4 - 4 - 4 - 4 - 4 - 4 = c.esp - 36 := by bv_omega
  have hhigh : (c.regs.eax.extractLsb' 16 16 ++ c.segs.ds : Dword).extractLsb' 16 16 =
      c.regs.eax.extractLsb' 16 16 := BitVec.extractLsb'_append_eq_left
  have hflat : Segs.flat kernelData = Segs.flat (((c.regs.eax.extractLsb' 16 16 ++ c.segs.ds :
      Dword).extractLsb' 16 16 ++ kernelData : Dword).setWidth 16) := by
    rw [ax_append]
  rw [atCall, ← hesp, ← hhigh, hflat]
  rfl

variable [Ports σ]

def picSendEoi (irq : Byte) (w : σ) : σ :=
  let w := if irq ≥ 8 then Ports.outb 0xA0 0x20 w else w
  Ports.outb 0x20 0x20 w

def halfwayCpu : Cpu IdealDrive where
  regs := { eax := 1, ecx := 2, edx := 3, ebx := 4, ebp := 5, esi := 6, edi := 7 }
  esp := 0x00120000
  segs := Segs.flat kernelData
  cs := kernelCode
  eip := 0x00100400
  eflags := 0x202
  stack := []
  world := IdealDrive.holding []

end CDosX86
