import CDosX86.CursorBounds
import CDosX86.DiskSafety

namespace CDosX86

def backspaceKey : Byte := 0x08

def edit (line : List Byte) (c : Byte) : List Byte :=
  if c = newline then []
  else if c = backspaceKey then line.dropLast
  else if line.length < lineMax - 1 then line ++ [c]
  else line

structure ShowsLine (typed : List Byte) (con : Console) : Prop where
  cursor : con.cursorPos = con.lineStart + 2 * typed.length
  lt : con.cursorPos < 4000
  even : con.lineStart % 2 = 0
  cell : ∀ i, (h : i < typed.length) → con.vga (con.lineStart / 2 + i) = attrChar typed[i]

namespace ShowsLine

variable {line : List Byte} {con : Console}

theorem mark (h : con.InScreen) : ShowsLine [] con.markLineStart where
  cursor := rfl
  lt := h.lt
  even := h.even
  cell _ hi := absurd hi (Nat.not_lt_zero _)

theorem updateCursor (h : ShowsLine line con) : ShowsLine line con.updateCursor :=
  ⟨h.cursor, h.lt, h.even, h.cell⟩

theorem cell_append (h : ShowsLine line con) (c : Byte) {i : Nat} (hi : i < (line ++ [c]).length) :
    Function.update con.vga (con.cursorPos / 2) (attrChar c) (con.lineStart / 2 + i) =
      attrChar (line ++ [c])[i] := by
  have hcursor := h.cursor
  have heven := h.even
  have hend : con.cursorPos / 2 = con.lineStart / 2 + line.length := by omega
  rw [hend, Function.update_apply]
  rcases Nat.lt_or_ge i line.length with hin | hlast
  · rw [if_neg (by omega), h.cell i hin, List.getElem_append_left hin]
  · have heq : i = line.length := by
      rw [List.length_append, List.length_singleton] at hi
      omega
    subst heq
    simp

theorem putchar (h : ShowsLine line con) (hlen : line.length < 127) {c : Byte} (hc : c ≠ newline) :
    ShowsLine (line ++ [c]) (con.putchar c) := by
  have hcursor := h.cursor
  have heven := h.even
  have hlt := h.lt
  have hplace : con.place c =
      { con with
        vga := Function.update con.vga (con.cursorPos / 2) (attrChar c)
        cursorPos := con.cursorPos + 2 } := if_neg hc
  have hlength : (line ++ [c]).length = line.length + 1 := by simp
  rw [Console.putchar_eq, hplace]
  apply updateCursor
  rcases Nat.lt_or_ge (con.cursorPos + 2) 4000 with hroom | hfull
  · rw [Console.scrollIfNeeded_room hroom]
    refine ⟨?_, hroom, heven, fun i hi => h.cell_append c hi⟩
    simp only [hlength]
    omega
  · have hup : 160 ≤ con.lineStart := by omega
    refine ⟨?_, ?_, ?_, fun i hi => ?_⟩
    · rw [Console.cursorPos_scrollIfNeeded hfull, Console.lineStart_scrollIfNeeded hfull, if_pos hup]
      simp only [hlength]
      omega
    · rw [Console.cursorPos_scrollIfNeeded hfull]
      dsimp only
      omega
    · rw [Console.lineStart_scrollIfNeeded hfull, if_pos hup]
      dsimp only
      omega
    · have hcell := h.cell_append c hi
      rw [hlength] at hi
      rw [Console.lineStart_scrollIfNeeded hfull, if_pos hup,
        Console.vga_scrollIfNeeded hfull (by dsimp only; omega), if_pos (by dsimp only; omega),
        ← hcell]
      dsimp only
      congr 1
      omega

theorem backspace_eq (h : ShowsLine line con) (hne : line ≠ []) :
    con.backspace =
      Console.updateCursor
        { con with
          cursorPos := con.cursorPos - 2
          vga := Function.update con.vga (con.lineStart / 2 + (line.length - 1)) blank } := by
  have hcursor := h.cursor
  have heven := h.even
  have hpos := List.length_pos_iff.mpr hne
  have hcell : (con.cursorPos - 2) / 2 = con.lineStart / 2 + (line.length - 1) := by omega
  rw [Console.backspace, if_neg (by omega)]
  dsimp only
  rw [hcell]

theorem backspace (h : ShowsLine line con) (hne : line ≠ []) :
    ShowsLine line.dropLast con.backspace := by
  have hcursor := h.cursor
  have hlt := h.lt
  have hpos := List.length_pos_iff.mpr hne
  have hlength := line.length_dropLast
  rw [h.backspace_eq hne]
  apply updateCursor
  refine ⟨?_, ?_, h.even, fun i hi => ?_⟩
  · dsimp only
    omega
  · dsimp only
    omega
  · dsimp only
    rw [Function.update_of_ne (by omega), h.cell i (by omega), List.getElem_dropLast]

end ShowsLine

structure ErasesLast (line : List Byte) (before after : Console) : Prop where
  last : line ≠ [] → after.vga (before.lineStart / 2 + (line.length - 1)) = blank
  rest : ∀ i, i ≠ before.lineStart / 2 + (line.length - 1) → after.vga i = before.vga i
  nothing : line = [] → after = before

theorem ShowsLine.erasesLast {line : List Byte} {con : Console} (h : ShowsLine line con)
    (hne : line ≠ []) : ErasesLast line con con.backspace := by
  rw [h.backspace_eq hne]
  exact ⟨fun _ => Function.update_self .., fun i hi => Function.update_of_ne hi .., fun hnil =>
    absurd hnil hne⟩

namespace Kernel

variable {δ : Type}

def console (k : Kernel δ) : Console := k.c64.mem.console

structure Editing (line : List Byte) (k : Kernel δ) : Prop where
  buffer : k.lineBuf = line
  length : line.length ≤ 127
  shown : ShowsLine line k.console

theorem InScreen.shellPrompt {k : Kernel δ} (h : k.InScreen) :
    ShowsLine [] k.shellPrompt.console := by
  have hprinted : (k.print (text "NULL:\\>")).console.InScreen := h.print _
  exact .mark hprinted

theorem Editing.inScreen {line : List Byte} {k : Kernel δ} (h : Editing line k) : k.InScreen := by
  have hcursor := h.shown.cursor
  have hstart := h.shown.even
  have heven : k.console.cursorPos % 2 = 0 := by omega
  exact ⟨h.shown.lt, heven⟩

variable [Ports δ]

theorem Editing.newline {line : List Byte} {k k' : Kernel δ} {polls : List (Option Byte)}
    (h : Editing line k) (hrun : k.shellInputChar newline polls = some k') : Editing [] k' := by
  rw [shellInputChar, if_pos rfl] at hrun
  split at hrun
  · next k₁ hexec =>
    cases hrun
    have hout : k₁.InScreen := InScreen.shellExecute (h.inScreen.print [CDosX86.newline]) hexec
    exact ⟨rfl, Nat.zero_le _, InScreen.shellPrompt (k := { k₁ with lineBuf := [] }) hout⟩
  · cases hrun

theorem Editing.backspace {line : List Byte} {k k' : Kernel δ} {polls : List (Option Byte)}
    (h : Editing line k) (hrun : k.shellInputChar backspaceKey polls = some k') :
    Editing line.dropLast k' ∧ ErasesLast line k.console k'.console := by
  obtain ⟨rfl, hlength, hshown⟩ := h
  have hshort : k.lineBuf.dropLast.length ≤ 127 := by
    rw [List.length_dropLast]
    omega
  have hkey : backspaceKey = 0x08 := rfl
  rw [shellInputChar, if_neg (by decide), if_pos hkey] at hrun
  split at hrun
  · next hpos =>
    cases hrun
    have hne := List.length_pos_iff.mp hpos
    exact ⟨⟨rfl, hshort, hshown.backspace hne⟩, hshown.erasesLast hne⟩
  · next hpos =>
    cases hrun
    have hnil : k.lineBuf = [] := List.length_eq_zero_iff.mp (by omega)
    rw [hnil] at hshown hshort ⊢
    exact ⟨⟨hnil, hshort, hshown⟩, fun hne => absurd rfl hne, fun _ _ => rfl, fun _ => rfl⟩

theorem Editing.character {line : List Byte} {k k' : Kernel δ} {c : Byte}
    {polls : List (Option Byte)} (h : Editing line k) (hnewline : c ≠ CDosX86.newline)
    (hback : c ≠ backspaceKey) (hrun : k.shellInputChar c polls = some k') :
    Editing (if line.length < lineMax - 1 then line ++ [c] else line) k' := by
  obtain ⟨rfl, hlength, hshown⟩ := h
  have hkey : ¬ c = 0x08 := hback
  rw [shellInputChar, if_neg hnewline, if_neg hkey] at hrun
  split at hrun
  · next hroom =>
    cases hrun
    rw [if_pos hroom]
    have hlt : k.lineBuf.length < 127 := hroom
    refine ⟨rfl, ?_, hshown.putchar hlt hnewline⟩
    rw [List.length_append, List.length_singleton]
    exact hlt
  · next hfull =>
    cases hrun
    rw [if_neg hfull]
    exact ⟨rfl, hlength, hshown⟩

theorem Editing.input {line : List Byte} {k k' : Kernel δ} {c : Byte}
    {polls : List (Option Byte)} (h : Editing line k)
    (hrun : k.shellInputChar c polls = some k') : Editing (edit line c) k' := by
  unfold edit
  split_ifs with hnewline hback hroom
  · subst hnewline
    exact h.newline hrun
  · subst hback
    exact (h.backspace hrun).1
  · have hedit := h.character hnewline hback hrun
    rwa [if_pos hroom] at hedit
  · have hedit := h.character hnewline hback hrun
    rwa [if_neg hroom] at hedit

inductive ShellRun (k : Kernel δ) : List Byte → Kernel δ → Prop
  | start : ShellRun k [] k
  | input {cs : List Byte} {c : Byte} (polls : List (Option Byte)) {k₁ k₂ : Kernel δ} :
      ShellRun k cs k₁ →
      (c = CDosX86.newline → commandOf k₁.lineBuf ≠ some .poke) →
      k₁.shellInputChar c polls = some k₂ →
      ShellRun k (cs ++ [c]) k₂

theorem ShellRun.editing {k k' : Kernel δ} {cs : List Byte} (hk : Editing [] k)
    (h : ShellRun k cs k') : Editing (cs.foldl edit []) k' := by
  induction h with
  | start => exact hk
  | input _ _ _ hrun ih =>
      rw [List.foldl_append, List.foldl_cons, List.foldl_nil]
      exact ih.input hrun

omit [Ports δ] in
theorem editing_shellInit {k : Kernel δ} (h : k.InScreen) : Editing [] k.shellInit :=
  ⟨rfl, Nat.zero_le _, InScreen.shellPrompt (k := { k with lineBuf := [] }) h⟩

theorem line_editor_in_step (k k' : Kernel δ) (cs : List Byte)
    (h : ShellRun (k.onConsole Console.clear).shellInit cs k') :
    Editing (cs.foldl edit []) k' ∧
      ∀ polls k'', k'.shellInputChar backspaceKey polls = some k'' →
        ErasesLast (cs.foldl edit []) k'.console k''.console := by
  have hcleared : (k.onConsole Console.clear).InScreen := Console.InScreen.clear k.console
  have hedit := h.editing (editing_shellInit hcleared)
  exact ⟨hedit, fun _ _ hrun => (hedit.backspace hrun).2⟩

def started : Kernel IdealDrive :=
  ((holdingKernel []).onConsole Console.clear).shellInit

theorem line_editor_in_step_started :
    ∃ k', ShellRun started [0x41, 0x42, 0x08] k' ∧ Editing [0x41] k' := by
  have hfirst : ShellRun started [0x41] _ := .input [] .start (fun h => absurd h (by decide)) rfl
  have hsecond : ShellRun started [0x41, 0x42] _ :=
    .input [] hfirst (fun h => absurd h (by decide)) rfl
  have hthird : ShellRun started [0x41, 0x42, 0x08] _ :=
    .input [] hsecond (fun h => absurd h (by decide)) rfl
  exact ⟨_, hthird, (line_editor_in_step _ _ _ hthird).1⟩

end Kernel

end CDosX86
