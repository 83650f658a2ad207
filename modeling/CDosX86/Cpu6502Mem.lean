import CDosX86.Console
import CDosX86.Mos6502.State

namespace CDosX86

abbrev Word := BitVec 16

structure C64Mem where
  ram : Word → Byte
  rasterCounter : BitVec 32
  console : Console

def vicRaster : Word := 0xD012

def cia1Prb : Word := 0xDC01

def palRasterLines : BitVec 32 := 312

def c64ScreenStart : Word := 0x0400

def c64ScreenEnd : Word := 0x07E7

def c64ScreenCols : Nat := 40

def screenCodeToAscii (sc : Byte) : Byte :=
  let masked := sc &&& 0x7F
  if masked > 63 then 0x20
  else
    let base := masked
    if base = 0 then 0x40
    else if base ≥ 1 ∧ base ≤ 26 then 0x41 + (base - 1)
    else if base = 27 then 0x5B
    else if base = 28 then 0x20
    else if base = 29 then 0x5D
    else if base = 30 then 0x5E
    else if base = 31 then 0x3C
    else if base ≥ 32 ∧ base ≤ 63 then base
    else 0x20

namespace C64Mem

def ioRead (addr : Word) (m : C64Mem) : Byte × C64Mem :=
  if addr = vicRaster then
    let m := { m with rasterCounter := (m.rasterCounter + 1) % palRasterLines }
    ((m.rasterCounter &&& 0xFF).setWidth 8, m)
  else if addr = cia1Prb then (0xFF, m)
  else (m.ram addr, m)

def read (addr : Word) (m : C64Mem) : Byte × C64Mem :=
  if addr = vicRaster ∨ addr = cia1Prb then m.ioRead addr
  else (m.ram addr, m)

def write (addr : Word) (val : Byte) (m : C64Mem) : C64Mem :=
  let m := { m with ram := Function.update m.ram addr val }
  if addr ≥ c64ScreenStart ∧ addr ≤ c64ScreenEnd then
    let offset := addr - c64ScreenStart
    let row := offset.toNat / c64ScreenCols
    let col := offset.toNat % c64ScreenCols
    { m with
      console :=
        (m.console.putcharAt row col (screenCodeToAscii val)).setHwCursor row (col + 1) }
  else m

@[simp] theorem write_ram (addr : Word) (val : Byte) (m : C64Mem) :
    (m.write addr val).ram = Function.update m.ram addr val := by
  unfold write
  dsimp only
  split <;> rfl

@[simp] theorem write_raster (addr : Word) (val : Byte) (m : C64Mem) :
    (m.write addr val).rasterCounter = m.rasterCounter := by
  unfold write
  dsimp only
  split <;> rfl

@[simp] theorem read_ram (addr : Word) (m : C64Mem) : (m.read addr).2.ram = m.ram := by
  unfold read ioRead
  dsimp only
  split_ifs <;> rfl

theorem read_plain {addr : Word} (hr : addr ≠ vicRaster) (hc : addr ≠ cia1Prb) (m : C64Mem) :
    m.read addr = (m.ram addr, m) :=
  if_neg (not_or.mpr ⟨hr, hc⟩)

end C64Mem

end CDosX86
