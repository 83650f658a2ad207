import CDosX86.IrqStub
import Mathlib.Data.List.Induction

namespace CDosX86

open X86

-- The vectors that isr.asm gives ISR_ERR.
def errVectors : List Nat := [8, 10, 11, 12, 13, 14]

-- The stub of an exception up to its call of `isr_handler`, which never returns.
def isrStub {σ : Type} (number : Nat) : List (Instr σ) :=
  (if number ∈ errVectors then enterErr (BitVec.ofNat 32 number)
    else enterNoErr (BitVec.ofNat 32 number)) ++ stubEntry

def exceptionMessages : List (List Byte) :=
  [text "Division By Zero", text "Debug", text "Non Maskable Interrupt", text "Breakpoint",
    text "Into Detected Overflow", text "Out of Bounds", text "Invalid Opcode",
    text "No Coprocessor", text "Double Fault", text "Coprocessor Segment Overrun",
    text "Bad TSS", text "Segment Not Present", text "Stack Fault",
    text "General Protection Fault", text "Page Fault", text "Unknown Interrupt",
    text "Coprocessor Fault", text "Alignment Check", text "Machine Check"] ++
    List.replicate 13 (text "Reserved")

def panicBanner : List Byte := text "KERNEL PANIC: "

def redChar (c : Byte) : Cell := 0x0400 ||| c.setWidth 16

-- The texts hold no NUL, at which the loop of the source stops.
def panicPrint (msg : List Byte) (vga : Nat → Cell) : Nat → Cell :=
  msg.zipIdx.foldl (fun vga (c, i) => Function.update vga (80 + i) (redChar c)) vga

def intNo (regs : List Dword) : Dword := regs.getD 9 0

-- `isr_handler` up to its endless loop.
def isrHandler (regs : List Dword) (vga : Nat → Cell) : Nat → Cell :=
  let vga := panicPrint panicBanner vga
  if intNo regs < 32 then panicPrint (exceptionMessages.getD (intNo regs).toNat []) vga else vga

-- What is left of a line when a shorter one is written over it.
def overlay (top bottom : List Byte) : List Byte := top ++ bottom.drop top.length

theorem panicPrint_concat (msg : List Byte) (c : Byte) (vga : Nat → Cell) :
    panicPrint (msg ++ [c]) vga =
      Function.update (panicPrint msg vga) (80 + msg.length) (redChar c) := by
  rw [panicPrint, List.zipIdx_append, List.foldl_append, Nat.zero_add]
  rfl

theorem panicPrint_apply (msg : List Byte) (vga : Nat → Cell) (i : Nat) :
    panicPrint msg vga i =
      if 80 ≤ i then (msg[i - 80]?.map redChar).getD (vga i) else vga i := by
  induction msg using List.reverseRecOn with
  | nil => simp [panicPrint]
  | append_singleton msg c ih =>
      rw [panicPrint_concat, Function.update_apply, ih]
      rcases Nat.lt_trichotomy i (80 + msg.length) with hlt | rfl | hgt
      · rw [if_neg (Nat.ne_of_lt hlt)]
        split
        · rw [List.getElem?_append_left (by omega)]
        · rfl
      · simp
      · rw [if_neg (Nat.ne_of_gt hgt), if_pos (by omega), if_pos (by omega),
          List.getElem?_eq_none (by omega), List.getElem?_eq_none (by simp; omega)]

theorem panicPrint_panicPrint (top bottom : List Byte) (vga : Nat → Cell) :
    panicPrint top (panicPrint bottom vga) = panicPrint (overlay top bottom) vga := by
  funext i
  simp only [panicPrint_apply]
  split
  · rcases Nat.lt_or_ge (i - 80) top.length with hin | hout
    · rw [overlay, List.getElem?_append_left hin, List.getElem?_eq_getElem hin]
      rfl
    · have hrest : top.length + (i - 80 - top.length) = i - 80 := by omega
      rw [overlay, List.getElem?_append_right hout, List.getElem?_drop, hrest,
        List.getElem?_eq_none hout]
      rfl
  · rfl

theorem run_isrStub {σ : Type} (number : Nat) (c : Cpu σ) :
    ∃ c', run (isrStub number) c = some c' ∧
      intNo c'.stack = BitVec.ofNat 32 number ∧ c'.world = c.world := by
  rw [isrStub, run_append]
  split
  · simp only [enterErr, run, exec, Option.bind_some, run_stubEntry]
    exact ⟨_, rfl, rfl, rfl⟩
  · simp only [enterNoErr, run, exec, Option.bind_some, run_stubEntry]
    exact ⟨_, rfl, rfl, rfl⟩

theorem world_interrupt {σ : Type} (g : Gate) (errorCode : Option Dword) (c : Cpu σ) :
    (interrupt g errorCode c).world = c.world := by
  cases errorCode <;> rfl

theorem panic_rows : ∀ number < 32,
    (overlay (exceptionMessages.getD number []) panicBanner).length ≤ 80 ∧
      ¬ panicBanner <+: overlay (exceptionMessages.getD number []) panicBanner := by
  decide +kernel

-- The message is written over the banner, on the same row.
theorem exception_panics {number : Nat} (hnumber : number < 32) (g : Gate)
    (errorCode : Option Dword) (c : Cpu (Nat → Cell)) :
    ∃ c' row, run (isrStub number) (interrupt g errorCode c) = some c' ∧
      intNo c'.stack = BitVec.ofNat 32 number ∧
      row = overlay (exceptionMessages.getD number []) panicBanner ∧
      isrHandler c'.stack c'.world = panicPrint row c.world ∧
      row.length ≤ 80 ∧ ¬ panicBanner <+: row := by
  obtain ⟨c', hrun, hno, hworld⟩ := run_isrStub number (interrupt g errorCode c)
  rw [world_interrupt] at hworld
  have hindex : (BitVec.ofNat 32 number).toNat = number := by
    rw [BitVec.toNat_ofNat]
    exact Nat.mod_eq_of_lt (by omega)
  have hlt : BitVec.ofNat 32 number < 32 := by
    rw [BitVec.lt_def, hindex]
    exact hnumber
  obtain ⟨hlength, hbanner⟩ := panic_rows number hnumber
  refine ⟨c', _, hrun, hno, rfl, ?_, hlength, hbanner⟩
  rw [isrHandler, hno, hworld, if_pos hlt, hindex, panicPrint_panicPrint]

theorem exception_panics_page_fault :
    ∃ c' row, run (isrStub 14)
        (interrupt ⟨kernelCode, 0, true⟩ (some 2) { halfwayCpu with world := fun _ => blank }) =
          some c' ∧
      intNo c'.stack = 14 ∧
      row = overlay (exceptionMessages.getD 14 []) panicBanner ∧
      isrHandler c'.stack c'.world = panicPrint row (fun _ => blank) ∧
      row.length ≤ 80 ∧ ¬ panicBanner <+: row :=
  exception_panics (by decide) _ _ _

end CDosX86
