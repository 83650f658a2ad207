import CDosX86.LineEditor
import CDosX86.ScreenText
import CDosX86.Terminal
import Mathlib.Data.List.GetD
import Mathlib.Data.List.Induction

namespace CDosX86

instance vgaCols_neZero : NeZero 80 := ⟨by decide⟩

-- What a page holds after whole lines.
structure Page.Holds (lines : List (List Byte)) (p : Page) : Prop where
  row : p.row = lines.length
  col : p.col = 0
  cell : ∀ r c, p.cell r c = (lines[r]?.getD [])[c]?

namespace Page

theorem typeAll_append (p : Page) (s t : List Byte) :
    p.typeAll (s ++ t) = (p.typeAll s).typeAll t :=
  List.foldl_append

theorem typeAll_line {p : Page} (hcol : p.col = 0) {s : List Byte} (hs : newline ∉ s)
    (hlen : s.length < 80) :
    (p.typeAll s).row = p.row ∧ (p.typeAll s).col = s.length ∧
      ∀ r c, (p.typeAll s).cell r c = if r = p.row then s[c]? else p.cell r c := by
  induction s using List.reverseRecOn with
  | nil =>
      refine ⟨rfl, hcol, fun r c => ?_⟩
      split
      · next h => exact p.fresh r c (Or.inr ⟨h.symm, hcol ▸ Nat.zero_le c⟩)
      · rfl
  | append_singleton s x ih =>
      simp only [List.mem_append, List.mem_singleton, not_or, List.length_append,
        List.length_singleton] at hs hlen
      obtain ⟨hrow, hcol', hcell⟩ := ih hs.1 (by omega)
      have hput : p.typeAll (s ++ [x]) = (p.typeAll s).put x := by
        rw [typeAll_append]
        exact if_neg (Ne.symm hs.2)
      rw [hput, TextPage.put_row, TextPage.put_col, TextPage.put_cell, hcol', if_pos (by omega),
        if_pos (by omega)]
      refine ⟨hrow, by simp, fun r c => ?_⟩
      rw [TextPage.setCell, hrow, hcol', hcell]
      by_cases hr : r = p.row
      · simp only [hr, true_and, if_true]
        grind
      · simp [hr]

theorem holds_empty : Holds [] TextPage.empty := ⟨rfl, rfl, fun _ _ => rfl⟩

theorem Holds.line {lines : List (List Byte)} {p : Page} (h : Holds lines p) {s : List Byte}
    (hs : newline ∉ s) (hlen : s.length < 80) :
    Holds (lines ++ [s]) (p.typeAll (s ++ [newline])) := by
  obtain ⟨hrow, hcol, hcell⟩ := typeAll_line h.col hs hlen
  have hnext : p.typeAll (s ++ [newline]) = (p.typeAll s).newline := by
    rw [typeAll_append]
    rfl
  rw [hnext]
  refine ⟨?_, rfl, fun r c => ?_⟩
  · change (p.typeAll s).row + 1 = _
    rw [hrow, h.row, List.length_append, List.length_singleton]
  · change (p.typeAll s).cell r c = _
    rw [hcell, h.row, h.cell]
    by_cases hr : r = lines.length
    · simp [hr]
    · rw [if_neg hr]
      grind

theorem Holds.lines {old : List (List Byte)} {p : Page} (h : Holds old p)
    {lines : List (List Byte)} (hlines : ∀ s ∈ lines, newline ∉ s ∧ s.length < 80) :
    Holds (old ++ lines) (p.typeAll (lines.flatMap (· ++ [newline]))) := by
  induction lines generalizing old p with
  | nil => simpa [typeAll] using h
  | cons s lines ih =>
      obtain ⟨⟨hs, hlen⟩, hrest⟩ := List.forall_mem_cons.mp hlines
      have htail := ih (h.line hs hlen) hrest
      rw [List.append_assoc] at htail
      rw [List.flatMap_cons, typeAll_append]
      exact htail

end Page

theorem Shows.markLineStart {p : Page} {con : Console} (h : Shows p con) :
    Shows p con.markLineStart :=
  ⟨h.cell, h.cursor, h.le⟩

def screenHeader : List Byte := text "C64 screen memory ($0400-$07E7), decoded:"

def screenBar : List Byte := text "+----------------------------------------+"

def barred (ram : Word → Byte) (row : Nat) : List Byte := 0x7C :: (screenCells ram row ++ [0x7C])

def screenLines (ram : Word → Byte) : List (List Byte) :=
  [screenHeader, screenBar] ++ (List.range 25).map (barred ram) ++ [screenBar]

theorem screenText_eq (ram : Word → Byte) :
    screenText ram = (screenLines ram).flatMap (· ++ [newline]) := by
  have hheader : text "C64 screen memory ($0400-$07E7), decoded:\n" =
      screenHeader ++ [newline] := by decide
  have hbar : screenBorder = screenBar ++ [newline] := by decide
  have hline (row : Nat) : screenLine ram row = barred ram row ++ [newline] := by
    rw [screenLine, barred, show text "|\n" = [0x7C] ++ [newline] from rfl]
    simp
  simp only [screenText, screenLines, hheader, hbar, List.flatMap_append, List.flatMap_map,
    List.flatMap_cons, List.flatMap_nil, List.append_nil, List.append_assoc]
  simp only [← hline]

theorem decoded_glyph : ∀ sc : Byte, Shell.screenCodeToAscii sc ∉ [newline, 0x5C, 0x7C] := by
  decide +kernel

theorem length_screenCells (ram : Word → Byte) (row : Nat) : (screenCells ram row).length = 40 := by
  simp [screenCells]

theorem newline_not_in_barred (ram : Word → Byte) (row : Nat) : newline ∉ barred ram row := by
  have hcell : newline ∉ screenCells ram row := by
    intro h
    obtain ⟨col, -, hcol⟩ := List.mem_map.mp h
    have hnot := decoded_glyph (ram (screenAddr row col))
    rw [hcol] at hnot
    exact hnot List.mem_cons_self
  rw [barred, List.mem_cons, List.mem_append, List.mem_singleton]
  rintro (h | h | h)
  · exact absurd h (by decide)
  · exact hcell h
  · exact absurd h (by decide)

theorem screenLines_fit (ram : Word → Byte) :
    ∀ s ∈ screenLines ram, newline ∉ s ∧ s.length < 80 := by
  intro s hs
  simp only [screenLines, List.mem_append, List.mem_cons, List.not_mem_nil, or_false,
    List.mem_map] at hs
  rcases hs with ((rfl | rfl) | ⟨row, -, rfl⟩) | rfl
  · decide
  · decide
  · refine ⟨newline_not_in_barred ram row, ?_⟩
    simp [barred, length_screenCells]
  · decide

def promptText : List Byte := text "NULL:\\>"

def screenPage (ram : Word → Byte) : Page :=
  Page.typeAll TextPage.empty (screenText ram ++ promptText)

theorem screenPage_cell (ram : Word → Byte) :
    (screenPage ram).row = 28 ∧
      ∀ r c, (screenPage ram).cell r c =
        if r = 28 then promptText[c]? else ((screenLines ram)[r]?.getD [])[c]? := by
  have hlines := Page.holds_empty.lines (screenLines_fit ram)
  rw [← screenText_eq, List.nil_append] at hlines
  have hrow : (Page.typeAll TextPage.empty (screenText ram)).row = 28 := by
    rw [hlines.row]
    simp [screenLines]
  obtain ⟨hsame, -, hcell⟩ := Page.typeAll_line hlines.col (s := promptText) (by decide) (by decide)
  rw [screenPage, Page.typeAll_append, hsame, hrow]
  refine ⟨rfl, fun r c => ?_⟩
  rw [hcell, hrow, hlines.cell]

theorem getElem_screenLines (ram : Word → Byte) {row : Nat} (hrow : row < 25) :
    (screenLines ram)[row + 2]? = some (barred ram row) := by
  have hmap : ((List.range 25).map (barred ram) ++ [screenBar])[row]? = some (barred ram row) := by
    rw [List.getElem?_append_left (by simpa using hrow), List.getElem?_map,
      List.getElem?_range hrow]
    rfl
  rw [screenLines, List.append_assoc]
  exact hmap

theorem attrChar_inj {c d : Byte} (h : attrChar c = attrChar d) : c = d := by
  have hlow : ∀ b : Byte, (attrChar b).setWidth 8 = b := by decide +kernel
  rw [← hlow c, h, hlow]

section display

variable {ram : Word → Byte} {con : Console} (h : Shows (screenPage ram) con)

include h

theorem vga_screenPage {row col : Nat} (hrow : row < 25) (hcol : col < 80) :
    con.vga (vgaCell row col) = attrChar (((screenPage ram).cell (4 + row) col).getD 0x20) := by
  have htop : (screenPage ram).top vgaRows = 4 := by
    rw [TextPage.top, (screenPage_cell ram).1]
    rfl
  rw [h.cell row hrow col hcol, TextPage.window, htop]

theorem vga_prompt : con.vga (vgaCell 24 5) = attrChar 0x5C := by
  rw [vga_screenPage h (by decide) (by decide), (screenPage_cell ram).2]
  rfl

theorem vga_barred {row col : Nat} (hrow : row < 23) (hcol : col < 42) :
    con.vga (vgaCell row col) = attrChar ((barred ram (row + 2)).getD col 0x20) := by
  have hindex : 4 + row = row + 2 + 2 := by omega
  rw [vga_screenPage h (by omega) (by omega), (screenPage_cell ram).2, if_neg (by omega), hindex,
    getElem_screenLines ram (by omega)]
  rfl

theorem vga_cells {row col : Nat} (hrow : row < 23) (hcol : col < 40) :
    con.vga (vgaCell row (col + 1)) =
      attrChar (Shell.screenCodeToAscii (ram (screenAddr (row + 2) col))) := by
  rw [vga_barred h hrow (by omega), barred, List.getD_cons_succ,
    List.getD_append _ _ _ _ (by rwa [length_screenCells]), List.getD_eq_getElem?_getD,
    getElem_screenCells ram _ hcol]
  rfl

theorem vga_bar : con.vga (vgaCell 0 41) = attrChar 0x7C := by
  rw [vga_barred h (by decide) (by decide), barred, List.getD_cons_succ,
    List.getD_append_right _ _ _ _ (by rw [length_screenCells]), length_screenCells]
  rfl

end display

-- The 25 rows of the screen stand one under another somewhere on the display.
def ShowsScreen (ram : Word → Byte) (con : Console) : Prop :=
  ∃ top left, top + 25 ≤ vgaRows ∧ left + 40 ≤ vgaCols ∧ ∀ row < 25, ∀ col < 40,
    con.vga (vgaCell (top + row) (left + col)) =
      attrChar (Shell.screenCodeToAscii (ram (screenAddr row col)))

theorem not_showsScreen {ram : Word → Byte} {con : Console} (h : Shows (screenPage ram) con) :
    ¬ ShowsScreen ram con := by
  rintro ⟨top, left, htop, hleft, hall⟩
  obtain rfl : top = 0 := by
    simp only [vgaRows] at htop
    omega
  simp only [vgaCols] at hleft
  rcases Nat.lt_or_ge 5 left with hright | hprompt
  · have hcell := hall 0 (by omega) (41 - left) (by omega)
    rw [Nat.add_sub_cancel' (by omega), vga_bar h] at hcell
    have hnot := decoded_glyph (ram (screenAddr 0 (41 - left)))
    rw [← attrChar_inj hcell] at hnot
    exact hnot (by decide)
  · have hcell := hall 24 (by omega) (5 - left) (by omega)
    rw [Nat.zero_add, Nat.add_sub_cancel' hprompt, vga_prompt h] at hcell
    have hnot := decoded_glyph (ram (screenAddr 24 (5 - left)))
    rw [← attrChar_inj hcell] at hnot
    exact hnot (by decide)

namespace Kernel

variable {δ : Type} [Ports δ]

omit [Ports δ] in
theorem c64_shellPrompt (k : Kernel δ) :
    k.shellPrompt.c64 = (k.c64.print promptText).onConsole Console.markLineStart := by
  rw [shellPrompt, onConsole_eq, c64_onC64, c64_print, promptText]

theorem c64screen_page {k : Kernel δ} (hline : commandOf k.lineBuf = some .c64screen)
    (polls : List (Option Byte)) :
    ∃ k', k.shellInputChar newline polls = some k' ∧ k'.c64.mem.ram = k.c64.mem.ram ∧
      Shows (screenPage k.c64.mem.ram) k'.console := by
  have hexec : (k.putchar newline).shellExecute k.lineBuf polls =
      some ((k.putchar newline).onC64 cmdC64screen) := shellExecute_command polls _ hline
  have hrun : k.shellInputChar newline polls =
      some { (k.putchar newline).onC64 cmdC64screen with lineBuf := [] }.shellPrompt := by
    rw [shellInputChar, if_pos rfl, hexec]
  have hram : (k.c64.putchar newline).mem.ram = k.c64.mem.ram := rfl
  have hc64 : (shellPrompt { (k.putchar newline).onC64 cmdC64screen with lineBuf := [] }).c64 =
      (((k.c64.putchar newline).onConsole Console.clear).print
        (screenText k.c64.mem.ram ++ promptText)).onConsole Console.markLineStart := by
    rw [c64_shellPrompt]
    dsimp only
    rw [c64_onC64, cmdC64screen_eq, putchar_eq_print, c64_print, ← C64.putchar_eq_print, hram,
      C64.print_print]
  refine ⟨_, hrun, ?_, ?_⟩
  · rw [hc64, C64.ram_onConsole, C64.ram_print, C64.ram_onConsole, hram]
  · have hshows := (shows_clear (k.c64.putchar newline).mem.console).print
      (screenText k.c64.mem.ram ++ promptText)
    rw [console, hc64, C64.console_onConsole, C64.console_print, C64.console_onConsole]
    exact hshows.markLineStart

theorem c64screen_scrolls_off {k : Kernel δ} (hline : commandOf k.lineBuf = some .c64screen)
    (polls : List (Option Byte)) :
    ∃ k', k.shellInputChar newline polls = some k' ∧ k'.c64.mem.ram = k.c64.mem.ram ∧
      ¬ ShowsScreen k'.c64.mem.ram k'.console ∧
      ∀ row < 23, ∀ col < 40, k'.console.vga (vgaCell row (col + 1)) =
        attrChar (Shell.screenCodeToAscii (k'.c64.mem.ram (screenAddr (row + 2) col))) := by
  obtain ⟨k', hrun, hram, hshows⟩ := c64screen_page hline polls
  rw [← hram] at hshows
  exact ⟨k', hrun, hram, not_showsScreen hshows, fun row hrow col hcol => vga_cells hshows hrow hcol⟩

def screenTyped : Kernel IdealDrive := { holdingKernel [] with lineBuf := text "C64SCREEN" }

theorem command_screenTyped : commandOf screenTyped.lineBuf = some .c64screen := by decide

theorem c64screen_scrolls_off_typed : ∃ k', screenTyped.shellInputChar newline [] = some k' ∧
    ¬ ShowsScreen k'.c64.mem.ram k'.console := by
  obtain ⟨k', hrun, -, hnot, -⟩ := c64screen_scrolls_off command_screenTyped []
  exact ⟨k', hrun, hnot⟩

theorem c64screen_incomplete : ¬ ∀ (k k' : Kernel IdealDrive) (polls : List (Option Byte)),
    commandOf k.lineBuf = some .c64screen → k.shellInputChar newline polls = some k' →
    ShowsScreen k'.c64.mem.ram k'.console := by
  intro hclaim
  obtain ⟨k', hrun, hram, hshows⟩ := c64screen_page command_screenTyped []
  rw [← hram] at hshows
  exact not_showsScreen hshows (hclaim screenTyped k' [] command_screenTyped hrun)

end Kernel

end CDosX86
