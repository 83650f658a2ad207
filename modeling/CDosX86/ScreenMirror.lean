import CDosX86.C64Calls
import CDosX86.C64Commands
import CDosX86.ConsoleCells
import CDosX86.IrqTransparency
import CDosX86.Mos6502.Logged

namespace CDosX86

open Mos6502

def screenAddr (row col : Nat) : Word := c64ScreenStart + BitVec.ofNat 16 (c64ScreenCols * row + col)

def written (log : List (Word × Byte)) (addr : Word) : Bool := log.any fun w => w.1 == addr

def shown (log : List (Word × Byte)) (ram : Word → Byte) (addr : Word) : Cell :=
  if written log addr then attrChar (screenCodeToAscii (ram addr)) else blank

structure Mirrors (log : List (Word × Byte)) (m : C64Mem) : Prop where
  cell : ∀ row < 25, ∀ col < 40,
    m.console.vga (vgaCell row col) = shown log m.ram (screenAddr row col)
  border : ∀ row < 25, ∀ col < 80, 40 ≤ col → m.console.vga (vgaCell row col) = blank
  cursorPos : m.console.cursorPos = 0
  lineStart : m.console.lineStart = 0

theorem screenAddr_toNat {row col : Nat} (hrow : row < 25) (hcol : col < 40) :
    (screenAddr row col).toNat = 1024 + (40 * row + col) := by
  have hstart : c64ScreenStart.toNat = 1024 := rfl
  simp only [screenAddr, c64ScreenCols, BitVec.toNat_add, BitVec.toNat_ofNat, hstart]
  omega

theorem inScreen_iff (addr : Word) :
    (addr ≥ c64ScreenStart ∧ addr ≤ c64ScreenEnd) ↔ 1024 ≤ addr.toNat ∧ addr.toNat ≤ 2023 :=
  Iff.rfl

theorem screenOffset_toNat {addr : Word} (h : addr ≥ c64ScreenStart) :
    (addr - c64ScreenStart).toNat = addr.toNat - 1024 :=
  BitVec.toNat_sub_of_le h

theorem vga_putcharAt {row col : Nat} (hrow : row < 25) (hcol : col < 80) (c : Byte)
    (k : Console) :
    k.putcharAt row col c =
      { k with vga := Function.update k.vga (vgaCell row col) (attrChar c) } := by
  have hinside : ¬ ((row : Int) < 0 ∨ (row : Int) ≥ vgaRows ∨ (col : Int) < 0 ∨
      (col : Int) ≥ vgaCols) := by
    simp only [vgaRows, vgaCols]
    omega
  have hcell : ((row : Int) * vgaCols + col).toNat = vgaCell row col := by
    simp only [vgaCell, vgaCols]
    omega
  rw [Console.putcharAt, if_neg hinside, hcell]

theorem written_concat (log : List (Word × Byte)) (addr a : Word) (v : Byte) :
    written (log ++ [(addr, v)]) a = (written log a || addr == a) := by
  simp [written]

theorem shown_write (log : List (Word × Byte)) (ram : Word → Byte) (addr a : Word) (v : Byte) :
    shown (log ++ [(addr, v)]) (Function.update ram addr v) a =
      if addr = a then attrChar (screenCodeToAscii v) else shown log ram a := by
  rcases eq_or_ne addr a with rfl | hne
  · simp [shown, written_concat]
  · have ha : (addr == a) = false := by simpa using hne
    simp [shown, written_concat, ha, hne, Function.update_of_ne hne.symm]

theorem Mirrors.read {log : List (Word × Byte)} {m : C64Mem} (h : Mirrors log m) (addr : Word) :
    Mirrors log (m.read addr).2 := by
  have hconsole : (m.read addr).2.console = m.console := by
    unfold C64Mem.read C64Mem.ioRead
    dsimp only
    split_ifs <;> rfl
  have hram := C64Mem.read_ram addr m
  refine ⟨?_, ?_, ?_, ?_⟩
  · rw [hconsole, hram]
    exact h.cell
  · rw [hconsole]
    exact h.border
  · rw [hconsole]
    exact h.cursorPos
  · rw [hconsole]
    exact h.lineStart

theorem Mirrors.write_outside {log : List (Word × Byte)} {m : C64Mem} (h : Mirrors log m)
    {addr : Word} (v : Byte) (hout : ¬ (addr ≥ c64ScreenStart ∧ addr ≤ c64ScreenEnd)) :
    Mirrors (log ++ [(addr, v)]) (m.write addr v) := by
  have hwrite : m.write addr v = { m with ram := Function.update m.ram addr v } := if_neg hout
  rw [hwrite]
  refine ⟨fun row hrow col hcol => ?_, h.border, h.cursorPos, h.lineStart⟩
  have hne : addr ≠ screenAddr row col := by
    rintro rfl
    apply hout
    rw [inScreen_iff, screenAddr_toNat hrow hcol]
    omega
  rw [shown_write, if_neg hne]
  exact h.cell row hrow col hcol

theorem console_write {addr : Word} (v : Byte) (m : C64Mem)
    (hin : addr ≥ c64ScreenStart ∧ addr ≤ c64ScreenEnd) :
    ∃ row < 25, ∃ col < 40, addr = screenAddr row col ∧
      (m.write addr v).console =
        ({ m.console with
          vga := Function.update m.console.vga (vgaCell row col)
            (attrChar (screenCodeToAscii v)) } : Console).setHwCursor row (col + 1) := by
  obtain ⟨hlo, hhi⟩ := (inScreen_iff addr).mp hin
  have hoff := screenOffset_toNat hin.1
  have hrow : (addr - c64ScreenStart).toNat / c64ScreenCols < 25 := by
    simp only [c64ScreenCols]
    omega
  have hcol : (addr - c64ScreenStart).toNat % c64ScreenCols < 40 :=
    Nat.mod_lt _ (by decide)
  refine ⟨_, hrow, _, hcol, ?_, ?_⟩
  · apply BitVec.eq_of_toNat_eq
    rw [screenAddr_toNat hrow hcol, hoff]
    simp only [c64ScreenCols]
    omega
  · rw [← vga_putcharAt hrow (by omega), C64Mem.write, if_pos hin]

theorem Mirrors.write_inside {log : List (Word × Byte)} {m : C64Mem} (h : Mirrors log m)
    {addr : Word} (v : Byte) (hin : addr ≥ c64ScreenStart ∧ addr ≤ c64ScreenEnd) :
    Mirrors (log ++ [(addr, v)]) (m.write addr v) := by
  obtain ⟨r, hr, c, hc, rfl, hconsole⟩ := console_write v m hin
  refine ⟨fun row hrow col hcol => ?_, fun row hrow col hcol hright => ?_, ?_, ?_⟩
  · have hcell : vgaCell row col = vgaCell r c ↔ screenAddr r c = screenAddr row col := by
      rw [← BitVec.toNat_inj, screenAddr_toNat hr hc, screenAddr_toNat hrow hcol]
      simp only [vgaCell, vgaCols]
      omega
    rw [hconsole, C64Mem.write_ram, shown_write, ← h.cell row hrow col hcol]
    simp only [← hcell]
    exact Function.update_apply _ _ _ _
  · rw [hconsole, ← h.border row hrow col hcol hright]
    apply Function.update_of_ne
    simp only [vgaCell, vgaCols]
    omega
  · rw [hconsole]
    exact h.cursorPos
  · rw [hconsole]
    exact h.lineStart

theorem mirrors_invariant : LogInvariant Mirrors where
  read _ addr _ h := h.read addr
  write _ addr v m h := by
    by_cases hin : addr ≥ c64ScreenStart ∧ addr ≤ c64ScreenEnd
    · exact h.write_inside v hin
    · exact h.write_outside v hin

theorem mirrors_clear (m : C64Mem) : Mirrors [] { m with console := m.console.clear } where
  cell row hrow col hcol := by
    have hcell : vgaCell row col < 2000 := by
      simp only [vgaCell, vgaCols]
      omega
    simpa [shown, written] using Console.vga_clear m.console hcell
  border row hrow col hcol _ := Console.vga_clear m.console (by
    simp only [vgaCell, vgaCols]
    omega)
  cursorPos := rfl
  lineStart := rfl

namespace C64

def writes (k : C64) : Call → List (Word × Byte)
  | .step => stepWrites (arch k.machine)
  | .irq => irqWrites (arch k.machine)
  | .reset _ => []
  | .key c => k.keyWrites c
  | .write addr val => [(addr, val)]

def writeLog (k : C64) (cs : List Call) : List (Word × Byte) := gather writes k cs

theorem mirrors_injectKey {log : List (Word × Byte)} (c : Byte) {k : C64} (h : Mirrors log k.mem) :
    Mirrors (log ++ k.keyWrites c) (k.injectKey c).mem := by
  rw [mem, machine_injectKey]
  rw [mem] at h
  generalize k.keyWrites c = ws
  generalize k.machine = m at h
  induction ws generalizing log m with
  | nil => simpa using h
  | cons w ws ih =>
      rw [← List.singleton_append, ← List.append_assoc]
      exact ih _ (mirrors_invariant.write log w.1 w.2 m.mem h)

theorem mirrors_call {log : List (Word × Byte)} {k : C64} (c : Call) (h : Mirrors log k.mem) :
    Mirrors (log ++ k.writes c) (k.call c).mem := by
  cases c with
  | step =>
      have hstep := mirrors_invariant.step (s := arch k.machine) h
      rwa [← arch_stepM] at hstep
  | irq =>
      have hirq := mirrors_invariant.irq (s := arch k.machine) h
      rwa [← arch_irqM] at hirq
  | reset startPc =>
      rw [writes, List.append_nil]
      exact h
  | key c => exact mirrors_injectKey c h
  | write addr val => exact mirrors_invariant.write log addr val k.mem h

end C64

theorem screen_mirror_coherent (k : C64) (cs : List Call) :
    Mirrors ((k.onConsole Console.clear).writeLog cs)
      ((k.onConsole Console.clear).calls cs).mem := by
  have hrun := C64.gather_keeps (J := fun log k => Mirrors log k.mem)
    (fun _ _ c h => C64.mirrors_call c h) cs (k := k.onConsole Console.clear) (mirrors_clear k.mem)
  rwa [List.nil_append] at hrun

end CDosX86
