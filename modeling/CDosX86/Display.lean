import CDosX86.ScreenPage
import Mathlib.Data.List.DropRight

namespace CDosX86

namespace Page

theorem typeAll_lines {p : Page} (hcol : p.col = 0) {lines : List (List Byte)}
    (hlines : ∀ s ∈ lines, newline ∉ s ∧ s.length < 80) :
    (p.typeAll (lines.flatMap (· ++ [newline]))).row = p.row + lines.length ∧
      (p.typeAll (lines.flatMap (· ++ [newline]))).col = 0 ∧
      ∀ i (hi : i < lines.length) c,
        (p.typeAll (lines.flatMap (· ++ [newline]))).cell (p.row + i) c = lines[i][c]? := by
  induction lines using List.reverseRecOn with
  | nil => exact ⟨rfl, hcol, fun i hi => absurd hi (Nat.not_lt_zero i)⟩
  | append_singleton lines s ih =>
      obtain ⟨hbefore, hlast⟩ := List.forall_mem_append.mp hlines
      obtain ⟨hs, hlen⟩ := hlast s List.mem_cons_self
      obtain ⟨hrow, hcol', hcell⟩ := ih hbefore
      rw [List.flatMap_append, List.flatMap_singleton, ← List.append_assoc, typeAll_append,
        typeAll_append]
      generalize p.typeAll (lines.flatMap (· ++ [newline])) = q at hrow hcol' hcell
      obtain ⟨hrow', -, hcell'⟩ := typeAll_line hcol' hs hlen
      refine ⟨?_, rfl, fun i hi c => ?_⟩
      · change (q.typeAll s).row + 1 = _
        rw [hrow', hrow, List.length_append, List.length_singleton, Nat.add_assoc]
      · change (q.typeAll s).cell (p.row + i) c = _
        rw [hcell', hrow]
        rw [List.length_append, List.length_singleton] at hi
        rcases Nat.lt_succ_iff_lt_or_eq.mp hi with hold | rfl
        · rw [if_neg (by omega), hcell i hold, List.getElem_append_left hold]
        · rw [if_pos rfl, List.getElem_append_right (Nat.le_refl _)]
          simp

end Page

def padded (s : List Byte) : List Byte := s ++ List.replicate (80 - s.length) space

def trimmed (s : List Byte) : List Byte := s.rdropWhile (· = space)

theorem trimmed_blanks {s : List Byte} (h : ∀ c ∈ s.getLast?, c ≠ space) (n : Nat) :
    trimmed (s ++ List.replicate n space) = s := by
  rw [trimmed]
  induction n with
  | zero =>
      rw [List.replicate_zero, List.append_nil]
      refine List.rdropWhile_eq_self_iff.mpr fun hne => ?_
      simpa using h _ (List.getLast?_eq_getLast_of_ne_nil hne)
  | succ n ih =>
      rw [List.replicate_succ', ← List.append_assoc, List.rdropWhile_concat_pos _ _ _ (by simp), ih]

def displayed (con : Console) (row : Nat) : List Byte :=
  (List.range 80).map fun col => (con.vga (vgaCell row col)).setWidth 8

theorem displayed_markLineStart (con : Console) (row : Nat) :
    displayed con.markLineStart row = displayed con row := rfl

theorem glyph_attrChar : ∀ c : Byte, (attrChar c).setWidth 8 = c := by decide +kernel

theorem Shows.displayed {p : Page} {con : Console} (h : Shows p con) {row : Nat} (hrow : row < 25)
    {s : List Byte} (hs : ∀ c, p.cell (p.top vgaRows + row) c = s[c]?) (hlen : s.length ≤ 80) :
    displayed con row = padded s := by
  apply List.ext_getElem
  · simp [CDosX86.displayed, padded]
    omega
  · intro c hc hc'
    have hcol : c < 80 := by simpa [CDosX86.displayed] using hc
    have hcell := h.cell row hrow c hcol
    rw [TextPage.window, hs] at hcell
    simp only [CDosX86.displayed, padded, List.getElem_map, List.getElem_range, hcell,
      glyph_attrChar]
    rcases Nat.lt_or_ge c s.length with hin | hout
    · rw [List.getElem_append_left hin, List.getElem?_eq_getElem hin]
      rfl
    · rw [List.getElem_append_right hout, List.getElem?_eq_none hout, List.getElem_replicate]
      rfl

-- After the lines the prompt is printed; none of the lines has left the screen by then.
theorem Shows.lines_displayed {p : Page} {con : Console} (h : Shows p con)
    {lines : List (List Byte)} (hfit : ∀ s ∈ lines, newline ∉ s ∧ s.length < 80)
    (hcount : lines.length < 25) :
    ∃ top, top + lines.length < 25 ∧
      (List.range lines.length).map (fun row => CDosX86.displayed
        (((con.putchar newline).print (lines.flatMap (· ++ [newline]))).print promptText)
        (top + row)) = lines.map padded ∧
      CDosX86.displayed
        (((con.putchar newline).print (lines.flatMap (· ++ [newline]))).print promptText)
        (top + lines.length) = padded promptText := by
  have hprompt : newline ∉ promptText ∧ promptText.length < 80 := by decide
  obtain ⟨hrow, hcol, hcell⟩ := Page.typeAll_lines (p := p.newline) rfl hfit
  have hshows := (h.putchar newline).print (lines.flatMap (· ++ [newline]))
  change Shows (Page.typeAll p.newline _) _ at hshows
  generalize Page.typeAll p.newline (lines.flatMap (· ++ [newline])) = q at hrow hcol hcell hshows
  have hlast := hshows.print promptText
  obtain ⟨hrow', -, hcell'⟩ := Page.typeAll_line hcol hprompt.1 hprompt.2
  have htop : (q.typeAll promptText).top vgaRows = p.newline.row + lines.length - 24 := by
    rw [TextPage.top, hrow', hrow]
    rfl
  have hat : ∀ row, (q.typeAll promptText).top vgaRows +
      (p.newline.row - (p.newline.row + lines.length - 24) + row) = p.newline.row + row := by
    omega
  refine ⟨p.newline.row - (p.newline.row + lines.length - 24), by omega, ?_, ?_⟩
  · apply List.ext_getElem
    · simp
    · intro row hrange hmap
      have hin : row < lines.length := by simpa using hrange
      obtain ⟨-, hlength⟩ := hfit _ (List.getElem_mem hin)
      rw [List.getElem_map, List.getElem_map, List.getElem_range]
      refine hlast.displayed (by omega) (fun c => ?_) (by omega)
      rw [hat, hcell', if_neg (by omega), hcell row hin]
  · refine hlast.displayed (by omega) (fun c => ?_) hprompt.2.le
    rw [hat, hcell', if_pos hrow.symm]

namespace Kernel

variable {δ : Type} [Ports δ]

theorem typed_lines {k k₁ : Kernel δ} {c : Command} {p : Page} (hshows : Shows p k.console)
    (hline : commandOf k.lineBuf = some c) {polls : List (Option Byte)}
    (hcommand : (k.putchar newline).runCommand c (tokens k.lineBuf) polls = some k₁)
    {lines : List (List Byte)}
    (hcon : k₁.console = (k.console.putchar newline).print (lines.flatMap (· ++ [newline])))
    (hfit : ∀ s ∈ lines, newline ∉ s ∧ s.length < 80) (hcount : lines.length < 25) :
    ∃ k' top, k.shellInputChar newline polls = some k' ∧ top + lines.length < 25 ∧
      (List.range lines.length).map (fun row => displayed k'.console (top + row)) =
        lines.map padded ∧
      displayed k'.console (top + lines.length) = padded promptText := by
  have hexec := shellExecute_command polls (k.putchar newline) hline
  rw [hcommand] at hexec
  have hrun : k.shellInputChar newline polls = some { k₁ with lineBuf := [] }.shellPrompt := by
    rw [shellInputChar, if_pos rfl, hexec]
  have hprompt : { k₁ with lineBuf := [] }.shellPrompt.console =
      (k₁.console.print promptText).markLineStart := by
    rw [console, c64_shellPrompt, C64.console_onConsole, C64.console_print]
    rfl
  obtain ⟨top, htop, hrows, hlast⟩ := hshows.lines_displayed hfit hcount
  refine ⟨_, top, hrun, htop, ?_, ?_⟩
  · rw [← hrows, ← hcon, hprompt]
    simp only [displayed_markLineStart]
  · rw [← hlast, ← hcon, hprompt, displayed_markLineStart]

end Kernel

end CDosX86
