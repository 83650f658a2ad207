import CDosX86.Printing
import CDosX86.ScreenMirror

namespace CDosX86

def screenCells (ram : Word → Byte) (row : Nat) : List Byte :=
  (List.range 40).map fun col => Shell.screenCodeToAscii (ram (screenAddr row col))

def screenLine (ram : Word → Byte) (row : Nat) : List Byte :=
  0x7C :: screenCells ram row ++ text "|\n"

def screenBorder : List Byte := text "+----------------------------------------+\n"

def screenText (ram : Word → Byte) : List Byte :=
  text "C64 screen memory ($0400-$07E7), decoded:\n" ++ screenBorder ++
    (List.range 25).flatMap (screenLine ram) ++ screenBorder

theorem C64.ram_print (s : List Byte) (k : C64) : (k.print s).mem.ram = k.mem.ram := rfl

theorem C64.ram_onConsole (f : Console → Console) (k : C64) :
    (k.onConsole f).mem.ram = k.mem.ram := rfl

theorem C64.console_print (s : List Byte) (k : C64) :
    (k.print s).mem.console = k.mem.console.print s := rfl

theorem C64.console_onConsole (f : Console → Console) (k : C64) :
    (k.onConsole f).mem.console = f k.mem.console := rfl

theorem screenAddr_ne {row col : Nat} (hrow : row < 25) (hcol : col < 40) {addr : Word}
    (h : 2024 ≤ addr.toNat) : screenAddr row col ≠ addr := by
  rintro rfl
  rw [screenAddr_toNat hrow hcol] at h
  omega

theorem readByte_screen {row col : Nat} (hrow : row < 25) (hcol : col < 40) (k : C64) :
    k.readByte (BitVec.ofNat 16 (0x0400 + row * 40 + col)) =
      (k.mem.ram (screenAddr row col), k) := by
  have haddr : BitVec.ofNat 16 (0x0400 + row * 40 + col) = screenAddr row col := by
    apply BitVec.eq_of_toNat_eq
    rw [BitVec.toNat_ofNat, screenAddr_toNat hrow hcol]
    omega
  have hraster : screenAddr row col ≠ vicRaster := screenAddr_ne hrow hcol (by decide)
  have hcia : screenAddr row col ≠ cia1Prb := screenAddr_ne hrow hcol (by decide)
  rw [haddr, C64.readByte, C64Mem.read_plain hraster hcia]
  rfl

theorem screenCols_eq {row : Nat} (hrow : row < 25) {n : Nat} (hn : n ≤ 40) (k : C64) :
    Loop.upto
      (fun col k =>
        let (sc, k) := k.readByte (BitVec.ofNat 16 (0x0400 + row * 40 + col))
        k.putchar (Shell.screenCodeToAscii sc))
      n k =
    k.print ((List.range n).map fun col =>
      Shell.screenCodeToAscii (k.mem.ram (screenAddr row col))) := by
  induction n with
  | zero => rfl
  | succ n ih =>
      rw [Loop.upto, ih (Nat.le_of_succ_le hn)]
      dsimp only
      rw [readByte_screen hrow hn, C64.putchar_eq_print, C64.print_print, C64.ram_print,
        List.range_succ, List.map_append]
      rfl

theorem screenRow_eq {row : Nat} (hrow : row < 25) (k : C64) :
    screenRow row k = k.print (screenLine k.mem.ram row) := by
  rw [screenRow, C64.putchar_eq_print, screenCols_eq hrow le_rfl, C64.ram_print, C64.print_print,
    C64.print_print]
  rfl

theorem screenRows_eq {n : Nat} (hn : n ≤ 25) (k : C64) :
    Loop.upto screenRow n k = k.print ((List.range n).flatMap (screenLine k.mem.ram)) := by
  induction n with
  | zero => rfl
  | succ n ih =>
      rw [Loop.upto, ih (Nat.le_of_succ_le hn), screenRow_eq hn, C64.ram_print, C64.print_print,
        List.range_succ, List.flatMap_append, List.flatMap_singleton]

theorem cmdC64screen_eq (k : C64) :
    cmdC64screen k = (k.onConsole Console.clear).print (screenText k.mem.ram) := by
  have hram : (k.onConsole Console.clear).mem.ram = k.mem.ram := rfl
  rw [cmdC64screen, screenRows_eq le_rfl]
  simp only [C64.print_print, C64.ram_print, hram, screenText, screenBorder, List.append_assoc]

-- The codes that both decoders show alike: no graphics but $60, and not the pound sign.
def SameGlyph (sc : Byte) : Prop := sc &&& 0x7F ≤ 63 ∧ sc &&& 0x7F ≠ 28 ∨ sc &&& 0x7F = 96

instance (sc : Byte) : Decidable (SameGlyph sc) := inferInstanceAs (Decidable (_ ∧ _ ∨ _))

def folded (sc : Byte) : Byte :=
  if sc &&& 0x3F = 28 then 0x24 else screenCodeToAscii (sc &&& 0x3F)

theorem decoders_at : ∀ sc : Byte, Shell.screenCodeToAscii sc = folded sc ∧
    (folded sc = screenCodeToAscii sc ↔ SameGlyph sc) ∧
    (¬ SameGlyph sc → screenCodeToAscii sc = space) := by
  decide +kernel

theorem getElem_screenCells (ram : Word → Byte) (row : Nat) {col : Nat} (hcol : col < 40) :
    (screenCells ram row)[col]? = some (Shell.screenCodeToAscii (ram (screenAddr row col))) := by
  rw [screenCells, List.getElem?_map, List.getElem?_range hcol]
  rfl

theorem vga_write_screen {row col : Nat} (hrow : row < 25) (hcol : col < 40) (v : Byte)
    (m : C64Mem) :
    (m.write (screenAddr row col) v).console.vga (vgaCell row col) =
      attrChar (screenCodeToAscii v) := by
  have hnat := screenAddr_toNat hrow hcol
  obtain ⟨r, hr, c, hc, haddr, hconsole⟩ :=
    console_write v m ((inScreen_iff (screenAddr row col)).mpr ⟨by omega, by omega⟩)
  have hrc := screenAddr_toNat hr hc
  rw [← haddr, hnat] at hrc
  obtain ⟨rfl, rfl⟩ : r = row ∧ c = col := by omega
  rw [hconsole]
  exact Function.update_self _ _ _

theorem c64screen_matches_mirror (k : C64) :
    cmdC64screen k = (k.onConsole Console.clear).print (screenText k.mem.ram) ∧
    ∀ (row : Fin 25) (col : Fin 40) (m : C64Mem),
      let sc := k.mem.ram (screenAddr row col)
      (screenCells k.mem.ram row)[col.val]? = some (folded sc) ∧
        (m.write (screenAddr row col) sc).console.vga (vgaCell row col) =
          attrChar (screenCodeToAscii sc) ∧
        (folded sc = screenCodeToAscii sc ↔ SameGlyph sc) ∧
        (¬ SameGlyph sc → screenCodeToAscii sc = space) := by
  refine ⟨cmdC64screen_eq k, fun row col m => ?_⟩
  obtain ⟨hfolded, hsame, hblank⟩ := decoders_at (k.mem.ram (screenAddr row col))
  refine ⟨?_, vga_write_screen row.isLt col.isLt _ m, hsame, hblank⟩
  rw [← hfolded]
  exact getElem_screenCells k.mem.ram row col.isLt

def spades : C64 := C64.zero.withMem { C64.zero.mem with ram := fun _ => 0x41 }

theorem c64screen_differs : ¬ ∀ (k : C64) (row : Fin 25) (col : Fin 40) (m : C64Mem),
    (screenCells k.mem.ram row)[col.val]?.map attrChar =
      some ((m.write (screenAddr row col) (k.mem.ram (screenAddr row col))).console.vga
        (vgaCell row col)) := by
  intro hclaim
  have hcell := hclaim spades 0 0 spades.mem
  rw [getElem_screenCells _ _ (by decide), vga_write_screen (by decide) (by decide)] at hcell
  exact absurd hcell (by decide)

end CDosX86
