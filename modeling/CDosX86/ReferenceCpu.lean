import CDosX86.Cpu6502Refines
import CDosX86.Mos6502.BusHom

namespace CDosX86

open Mos6502

structure C64Bus where
  ram : Word → Byte
  raster : BitVec 32

instance : Bus C64Bus where
  read addr b :=
    if addr = 0xD012 then
      let line := (b.raster + 1) % 312
      (line.setWidth 8, { b with raster := line })
    else if addr = 0xDC01 then (0xFF, b)
    else (b.ram addr, b)
  write addr v b := { b with ram := Function.update b.ram addr v }

def busView (m : C64Mem) : C64Bus where
  ram := m.ram
  raster := m.rasterCounter

theorem low_byte_raster (k : BitVec 32) : (k &&& 0xFF).setWidth 8 = k.setWidth 8 := by
  ext i hi
  interval_cases i <;> simp

theorem busView_read (addr : Word) (m : C64Mem) :
    Bus.read addr (busView m) = ((Bus.read addr m).1, busView (Bus.read addr m).2) := by
  change _ = ((m.read addr).1, busView (m.read addr).2)
  unfold C64Mem.read C64Mem.ioRead
  by_cases hr : addr = vicRaster
  · subst hr
    rw [if_pos (Or.inl rfl), if_pos rfl]
    exact Prod.ext (low_byte_raster _).symm rfl
  · by_cases hc : addr = cia1Prb
    · subst hc
      rw [if_pos (Or.inr rfl), if_neg hr, if_pos rfl]
      rfl
    · rw [if_neg (not_or.mpr ⟨hr, hc⟩)]
      exact (if_neg hr).trans (if_neg hc)

def busHom : BusHom C64Mem C64Bus where
  toFun := busView
  map_read := busView_read
  map_write addr v m := by
    change busView (m.write addr v) = _
    simp only [busView, C64Mem.write_ram, C64Mem.write_raster]
    rfl

def archView (m : Machine) : Cpu C64Bus := (arch m).map busView

theorem archView_step (m : Machine) : archView (stepM m) = step (archView m) := by
  unfold archView stepM
  rw [sim_step]
  exact busHom.map_step (arch m)

theorem step_undocumented {δ : Type} [Bus δ] {s : Cpu δ} (hrun : s.halted = false)
    (hop : decode (Bus.read s.pc s.mem).1 = none) :
    step s = { s with
      pc := s.pc + 1
      halted := true
      mem := (Bus.read s.pc s.mem).2 } := by
  have hne : ¬ s.halted = true := by simp [hrun]
  rw [step, if_neg hne]
  change (execOp (Bus.read s.pc s.mem).1 (fetch s).2).2 = _
  rw [execOp, hop]
  rfl

-- The reference adds and subtracts in binary, as on the chip while the decimal flag is clear.
theorem step_matches_reference (m : Machine) (hrun : m.cpu.halted = false) :
    archView (stepM m) = step (archView m) ∧
      documented.length = 151 ∧
      ((Bus.read m.cpu.pc (busView m.mem)).1 ∉ documented →
        archView (stepM m) = { archView m with
          pc := m.cpu.pc + 1
          halted := true
          mem := (Bus.read m.cpu.pc (busView m.mem)).2 }) := by
  refine ⟨archView_step m, by decide +kernel, fun hop => ?_⟩
  have hnone := undocumented_decode hop
  rw [archView_step]
  exact step_undocumented (s := archView m) hrun hnone

-- ADC $10FF,X with X = 1, over a page boundary.
def indexedAdd : Machine :=
  let m := (Machine.zero.load 0 [0x7D, 0xFF, 0x10]).load 0x1100 [0x50]
  { m with cpu := { m.cpu with a := 0x50, x := 0x01, p := 0x21 } }

theorem step_matches_reference_adc :
    archView (stepM indexedAdd) = step (archView indexedAdd) ∧
      documented.length = 151 ∧
      ((Bus.read indexedAdd.cpu.pc (busView indexedAdd.mem)).1 ∉ documented →
        archView (stepM indexedAdd) = { archView indexedAdd with
          pc := indexedAdd.cpu.pc + 1
          halted := true
          mem := (Bus.read indexedAdd.cpu.pc (busView indexedAdd.mem)).2 }) ∧
      (stepM indexedAdd).cpu.a = 0xA1 ∧ (stepM indexedAdd).cpu.p = 0xE0 := by
  obtain ⟨hstep, hlength, hother⟩ := step_matches_reference indexedAdd rfl
  exact ⟨hstep, hlength, hother, by decide +kernel, by decide +kernel⟩

end CDosX86
