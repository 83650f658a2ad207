import CDosX86.ConsoleCells
import CDosX86.KString
import CDosX86.TextPage

namespace CDosX86

abbrev Page := TextPage 80 Byte

namespace Page

def type (p : Page) (c : Byte) : Page := if c = newline then p.newline else p.put c

def typeAll (p : Page) (s : List Byte) : Page := s.foldl type p

end Page

structure ShowsFrom (top : Nat) (p : Page) (k : Console) : Prop where
  cell : ∀ row < 25, ∀ col < 80, k.vga (vgaCell row col) = attrChar (p.window top 0x20 row col)
  cursor : k.cursorPos = 2 * p.offset top
  le : top ≤ p.row

def Shows (p : Page) (k : Console) : Prop := ShowsFrom (p.top vgaRows) p k

theorem ShowsFrom.newline {top : Nat} {p : Page} {k : Console} (h : ShowsFrom top p k) :
    ShowsFrom top p.newline (k.place CDosX86.newline) where
  cell := h.cell
  cursor := by
    have hcol := p.col_lt
    have hoff : p.offset top = 80 * (p.row - top) + p.col := rfl
    change k.cursorPos + (160 - k.cursorPos % 160) = _
    rw [TextPage.offset_newline h.le, h.cursor, hoff]
    omega
  le := Nat.le_succ_of_le h.le

theorem ShowsFrom.put {top : Nat} {p : Page} {k : Console} (h : ShowsFrom top p k) {c : Byte}
    (hc : c ≠ CDosX86.newline) : ShowsFrom top (p.put c) (k.place c) where
  cell row hrow col hcol := by
    have hat : k.cursorPos / 2 = p.offset top := by rw [h.cursor, Nat.mul_div_cancel_left _ (by decide)]
    rw [Console.place, if_neg hc, hat]
    change Function.update k.vga (p.offset top) (attrChar c) (vgaCell row col) = _
    rw [Function.update_apply, TextPage.window_put h.le 0x20 c hcol, h.cell row hrow col hcol,
      apply_ite attrChar]
    rfl
  cursor := by
    rw [Console.place, if_neg hc, TextPage.offset_put h.le, Nat.mul_add, ← h.cursor]
  le := by
    have := h.le
    rw [TextPage.put_row]
    split <;> omega

theorem ShowsFrom.type {top : Nat} {p : Page} {k : Console} (h : ShowsFrom top p k) (c : Byte) :
    ShowsFrom top (p.type c) (k.place c) := by
  rw [Page.type]
  split
  · next hc =>
    subst hc
    exact h.newline
  · next hc => exact h.put hc

theorem ShowsFrom.scroll {top : Nat} {p : Page} {k : Console} (h : ShowsFrom top p k)
    (hfull : 4000 ≤ k.cursorPos) (hrow : p.row = top + 25) (hcol : p.col = 0) :
    ShowsFrom (top + 1) p k.scrollIfNeeded where
  cell row hr col hc := by
    rw [Console.vga_scrollIfNeeded hfull (vgaCell_lt hr hc), TextPage.window_succ]
    rcases Nat.lt_or_ge row 24 with hmoved | hbottom
    · have hcell := h.cell (row + 1) (by omega) col hc
      rw [if_pos (by simp only [vgaCell, vgaCols]; omega), ← hcell]
      congr 1
      simp only [vgaCell, vgaCols]
      omega
    · rw [if_neg (by simp only [vgaCell, vgaCols]; omega), TextPage.window_fresh _ (by omega)]
      rfl
  cursor := by
    rw [Console.cursorPos_scrollIfNeeded hfull, h.cursor]
    simp only [TextPage.offset]
    omega
  le := by omega

theorem Page.type_place (p : Page) (c : Byte) :
    (p.type c).row = p.row ∨ (p.type c).row = p.row + 1 ∧ (p.type c).col = 0 := by
  rw [type]
  split
  · exact Or.inr ⟨rfl, rfl⟩
  · rw [TextPage.put_row, TextPage.put_col]
    split
    · exact Or.inl rfl
    · exact Or.inr ⟨rfl, rfl⟩

theorem Shows.putchar {p : Page} {k : Console} (h : Shows p k) (c : Byte) :
    Shows (p.type c) (k.putchar c) := by
  have htyped : ShowsFrom (p.top vgaRows) (p.type c) (k.place c) := ShowsFrom.type h c
  have htop : ∀ q : Page, q.top vgaRows = q.row - 24 := fun _ => rfl
  have hcursor := htyped.cursor
  have hcol := (p.type c).col_lt
  simp only [TextPage.offset] at hcursor
  have hmoved : ShowsFrom ((p.type c).top vgaRows) (p.type c) (k.place c).scrollIfNeeded := by
    rcases p.type_place c with hsame | ⟨hnext, hstart⟩
    · rw [Console.scrollIfNeeded_room (by rw [hcursor]; simp only [htop]; omega)]
      rwa [htop, hsame, ← htop]
    · rcases Nat.lt_or_ge p.row 24 with hroom | hfull
      · rw [Console.scrollIfNeeded_room (by rw [hcursor]; simp only [htop]; omega)]
        have hzero : (p.type c).top vgaRows = p.top vgaRows := by
          simp only [htop]
          omega
        rwa [hzero]
      · have hdown : (p.type c).top vgaRows = p.top vgaRows + 1 := by
          simp only [htop]
          omega
        rw [hdown]
        refine htyped.scroll ?_ ?_ hstart
        · rw [hcursor]
          simp only [htop]
          omega
        · simp only [htop]
          omega
  exact ⟨hmoved.cell, hmoved.cursor, hmoved.le⟩

theorem Shows.print {p : Page} {k : Console} (h : Shows p k) (s : List Byte) :
    Shows (p.typeAll s) (k.print s) := by
  induction s generalizing p k with
  | nil => exact h
  | cons c s ih => exact ih (h.putchar c)

theorem shows_clear (k : Console) : Shows TextPage.empty k.clear where
  cell _ hrow _ hcol := Console.vga_clear k (vgaCell_lt hrow hcol)
  cursor := rfl
  le := Nat.le_refl 0

theorem Shows.cursor_lt {p : Page} {k : Console} (h : Shows p k) : k.cursorPos < 4000 := by
  have hcursor : k.cursorPos = 2 * (80 * (p.row - (p.row - 24)) + p.col) := h.cursor
  have hcol := p.col_lt
  omega

section stores

def replay (vga : Nat → Cell) (stores : List (Nat × Cell)) : Nat → Cell :=
  stores.foldl (fun vga w => Function.update vga w.1 w.2) vga

theorem replay_append (vga : Nat → Cell) (s t : List (Nat × Cell)) :
    replay vga (s ++ t) = replay (replay vga s) t :=
  List.foldl_append

theorem replay_range (vga : Nat → Cell) (base n : Nat) (g : Nat → Cell) (j : Nat) :
    replay vga ((List.range n).map fun i => (base + i, g i)) j =
      if base ≤ j ∧ j < base + n then g (j - base) else vga j := by
  induction n with
  | zero =>
      rw [if_neg (by omega)]
      rfl
  | succ n ih =>
      rw [List.range_succ, List.map_append, replay_append]
      simp only [List.map_singleton, replay, List.foldl_cons, List.foldl_nil,
        Function.update_apply]
      rw [← replay, ih]
      grind

def scrollStores (k : Console) : List (Nat × Cell) :=
  if k.cursorPos < vgaCols * vgaRows * 2 then []
  else
    (List.range (vgaCols * (vgaRows - 1))).map (fun i => (0 + i, k.vga (i + vgaCols))) ++
      (List.range vgaCols).map fun i => (vgaCols * (vgaRows - 1) + i, blank)

def putcharStores (c : Byte) (k : Console) : List (Nat × Cell) :=
  (if c = newline then [] else [(k.cursorPos / 2, attrChar c)]) ++ scrollStores (k.place c)

theorem vga_scroll_stores (k : Console) :
    k.scrollIfNeeded.vga = replay k.vga (scrollStores k) := by
  unfold Console.scrollIfNeeded scrollStores
  split
  · rfl
  · funext j
    rw [replay_append, replay_range, replay_range]
    change Loop.upto _ _ (Loop.upto _ _ k.vga) j = _
    rw [Loop.upto_fill, Loop.upto_shift]
    grind

theorem vga_putchar_stores (c : Byte) (k : Console) :
    (k.putchar c).vga = replay k.vga (putcharStores c k) := by
  have hplace : (k.place c).vga =
      replay k.vga (if c = newline then [] else [(k.cursorPos / 2, attrChar c)]) := by
    unfold Console.place
    split <;> rfl
  rw [putcharStores, replay_append, ← hplace, ← vga_scroll_stores]
  rfl

theorem putcharStores_lt {k : Console} (h : k.cursorPos < 4000) (c : Byte) :
    ∀ w ∈ putcharStores c k, w.1 < 2000 := by
  intro w hw
  rcases List.mem_append.mp hw with hchar | hscroll
  · split at hchar
    · cases hchar
    · rw [List.mem_singleton] at hchar
      rw [hchar]
      dsimp only
      omega
  · unfold scrollStores at hscroll
    split at hscroll
    · cases hscroll
    · simp only [List.mem_append, List.mem_map, List.mem_range, vgaCols, vgaRows] at hscroll
      rcases hscroll with ⟨i, hi, rfl⟩ | ⟨i, hi, rfl⟩
      · dsimp only
        omega
      · dsimp only
        omega

def printStores : List Byte → Console → List (Nat × Cell)
  | [], _ => []
  | c :: s, k => putcharStores c k ++ printStores s (k.putchar c)

theorem vga_print_stores (s : List Byte) (k : Console) :
    (k.print s).vga = replay k.vga (printStores s k) := by
  induction s generalizing k with
  | nil => rfl
  | cons c s ih => rw [Console.print_cons, ih, printStores, replay_append, vga_putchar_stores]

theorem printStores_lt {p : Page} {k : Console} (h : Shows p k) (s : List Byte) :
    ∀ w ∈ printStores s k, w.1 < 2000 := by
  induction s generalizing p k with
  | nil => simp [printStores]
  | cons c s ih =>
      intro w hw
      rcases List.mem_append.mp hw with hfirst | hrest
      · exact putcharStores_lt h.cursor_lt c w hfirst
      · exact ih (h.putchar c) w hrest

end stores

inductive Output where
  | putchar (c : Byte)
  | print (s : List Byte)

namespace Output

-- `print` stops at the first NUL of its argument.
def bytes : Output → List Byte
  | .putchar c => [c]
  | .print s => cString s

def run (k : Console) : Output → Console
  | .putchar c => k.putchar c
  | .print s => k.print (cString s)

theorem run_eq_print (o : Output) (k : Console) : o.run k = k.print o.bytes := by
  cases o <;> rfl

theorem runs_eq_print (os : List Output) (k : Console) :
    os.foldl (fun k o => o.run k) k = k.print (os.flatMap bytes) := by
  induction os generalizing k with
  | nil => rfl
  | cons o os ih =>
      rw [List.foldl_cons, ih, run_eq_print, List.flatMap_cons, Console.print_append]

end Output

theorem console_is_terminal (k : Console) (os : List Output) :
    Shows (Page.typeAll TextPage.empty (os.flatMap Output.bytes))
        (os.foldl (fun k o => o.run k) k.clear) ∧
      (os.foldl (fun k o => o.run k) k.clear).vga =
        replay k.clear.vga (printStores (os.flatMap Output.bytes) k.clear) ∧
      ∀ w ∈ printStores (os.flatMap Output.bytes) k.clear, w.1 < 2000 := by
  have hclear := shows_clear k
  rw [Output.runs_eq_print]
  exact ⟨hclear.print _, vga_print_stores _ _, printStores_lt hclear _⟩

end CDosX86
