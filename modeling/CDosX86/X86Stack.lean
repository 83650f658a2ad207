import Mathlib.Tactic.Common

namespace X86

abbrev Dword := BitVec 32

abbrev Selector := BitVec 16

structure Regs where
  eax : Dword
  ecx : Dword
  edx : Dword
  ebx : Dword
  ebp : Dword
  esi : Dword
  edi : Dword

structure Segs where
  ds : Selector
  es : Selector
  fs : Selector
  gs : Selector

inductive Seg where
  | ds
  | es
  | fs
  | gs

def Segs.put (seg : Seg) (v : Selector) (s : Segs) : Segs :=
  match seg with
  | .ds => { s with ds := v }
  | .es => { s with es := v }
  | .fs => { s with fs := v }
  | .gs => { s with gs := v }

def Segs.flat (v : Selector) : Segs := { ds := v, es := v, fs := v, gs := v }

-- `stack` is the dwords from `esp` up; `world` is all that the processor does not hold.
structure Cpu (σ : Type) where
  regs : Regs
  esp : Dword
  segs : Segs
  cs : Selector
  eip : Dword
  eflags : Dword
  stack : List Dword
  world : σ

def interruptFlag : Dword := 0x200

variable {σ : Type}

namespace Cpu

def push (v : Dword) (c : Cpu σ) : Cpu σ := { c with esp := c.esp - 4, stack := v :: c.stack }

def pushAll (vs : List Dword) (c : Cpu σ) : Cpu σ := vs.foldl (fun c v => c.push v) c

-- `none` is a read past what the model of the stack holds.
def pop (c : Cpu σ) : Option (Dword × Cpu σ) :=
  match c.stack with
  | [] => none
  | v :: stack => some (v, { c with esp := c.esp + 4, stack := stack })

def ax (c : Cpu σ) : Selector := c.regs.eax.setWidth 16

def putAx (v : Selector) (c : Cpu σ) : Cpu σ :=
  { c with regs := { c.regs with eax := c.regs.eax.extractLsb' 16 16 ++ v } }

end Cpu

inductive Instr (σ : Type) where
  | cli
  | sti
  | pushImm (v : Dword)
  | pushEax
  | popEax
  | pusha
  | popa
  | movAxDs
  | movAxImm (v : Selector)
  | movSegAx (seg : Seg)
  | addEsp8 (flags : Dword → Dword)
  | call (f : Cpu σ → Cpu σ)
  | iret

def pushaList (c : Cpu σ) : List Dword :=
  [c.regs.eax, c.regs.ecx, c.regs.edx, c.regs.ebx, c.esp, c.regs.ebp, c.regs.esi, c.regs.edi]

def exec (i : Instr σ) (c : Cpu σ) : Option (Cpu σ) :=
  match i with
  | .cli => some { c with eflags := c.eflags &&& ~~~interruptFlag }
  | .sti => some { c with eflags := c.eflags ||| interruptFlag }
  | .pushImm v => some (c.push v)
  | .pushEax => some (c.push c.regs.eax)
  | .popEax => c.pop.map fun (v, c) => { c with regs := { c.regs with eax := v } }
  | .pusha => some (c.pushAll (pushaList c))
  | .popa =>
      match c.stack with
      | edi :: esi :: ebp :: _ :: ebx :: edx :: ecx :: eax :: stack =>
          some
            { c with
              regs := ⟨eax, ecx, edx, ebx, ebp, esi, edi⟩
              esp := c.esp + 32
              stack := stack }
      | _ => none
  | .movAxDs => some (c.putAx c.segs.ds)
  | .movAxImm v => some (c.putAx v)
  | .movSegAx seg => some { c with segs := c.segs.put seg c.ax }
  | .addEsp8 flags =>
      match c.stack with
      | _ :: _ :: stack =>
          some { c with esp := c.esp + 8, eflags := flags c.eflags, stack := stack }
      | _ => none
  | .call f => some (f c)
  | .iret =>
      match c.stack with
      | eip :: cs :: eflags :: stack =>
          some
            { c with
              eip := eip
              cs := cs.setWidth 16
              eflags := eflags
              esp := c.esp + 12
              stack := stack }
      | _ => none

def run : List (Instr σ) → Cpu σ → Option (Cpu σ)
  | [], c => some c
  | i :: is, c => (exec i c).bind (run is)

theorem run_append (is js : List (Instr σ)) (c : Cpu σ) :
    run (is ++ js) c = (run is c).bind (run js) := by
  induction is generalizing c with
  | nil => rfl
  | cons i is ih =>
      rw [List.cons_append, run, run]
      cases exec i c with
      | none => rfl
      | some c' => exact ih c'

structure Gate where
  sel : Selector
  offset : Dword
  clearsFlag : Bool

-- What the processor does for an interrupt at its own privilege level; for some exceptions it
-- pushes an error code as well.
def interrupt (g : Gate) (errorCode : Option Dword) (c : Cpu σ) : Cpu σ :=
  let c' := c.pushAll ([c.eflags, c.cs.setWidth 32, c.eip] ++ errorCode.toList)
  { c' with
    cs := g.sel
    eip := g.offset
    eflags := if g.clearsFlag then c.eflags &&& ~~~interruptFlag else c.eflags }

def loadSegs : List (Instr σ) := [.movSegAx .ds, .movSegAx .es, .movSegAx .fs, .movSegAx .gs]

theorem ax_append (hi v : Selector) : (hi ++ v : Dword).setWidth 16 = v := by
  ext i hlt
  rw [BitVec.getElem_setWidth]
  refine (BitVec.getLsbD_append (x := hi) (y := v)).trans ?_
  simp [hlt]

end X86
