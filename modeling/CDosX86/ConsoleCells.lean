import CDosX86.Console

namespace CDosX86

def vgaCell (row col : Nat) : Nat := vgaCols * row + col

theorem vgaCell_lt {row col : Nat} (hrow : row < 25) (hcol : col < 80) : vgaCell row col < 2000 := by
  simp only [vgaCell, vgaCols]
  omega

namespace Console

@[simp] theorem cursorPos_updateCursor (k : Console) :
    k.updateCursor.cursorPos = k.cursorPos := rfl

@[simp] theorem cursorPos_clear (k : Console) : k.clear.cursorPos = 0 := rfl

theorem vga_clear (k : Console) {i : Nat} (hi : i < 2000) : k.clear.vga i = blank := by
  change Loop.upto (fun i vga => Function.update vga i blank) 2000 k.vga i = blank
  have hfill := Loop.upto_fill 0 blank k.vga 2000 i
  simp only [Nat.zero_add] at hfill
  rw [hfill, if_pos ⟨Nat.zero_le i, hi⟩]

theorem scrollIfNeeded_room {k : Console} (h : k.cursorPos < 4000) : k.scrollIfNeeded = k :=
  if_pos h

theorem vga_scrollIfNeeded {k : Console} (h : 4000 ≤ k.cursorPos) {i : Nat} (hi : i < 2000) :
    k.scrollIfNeeded.vga i = if i < 1920 then k.vga (i + 80) else blank := by
  have hfull : ¬ k.cursorPos < vgaCols * vgaRows * 2 := Nat.not_lt.mpr h
  rw [scrollIfNeeded, if_neg hfull]
  change Loop.upto (fun i vga => Function.update vga (1920 + i) blank) 80
    (Loop.upto (fun i vga => Function.update vga i (vga (i + 80))) 1920 k.vga) i = _
  rw [Loop.upto_fill, Loop.upto_shift]
  grind

theorem cursorPos_scrollIfNeeded {k : Console} (h : 4000 ≤ k.cursorPos) :
    k.scrollIfNeeded.cursorPos = k.cursorPos - 160 := by
  have hfull : ¬ k.cursorPos < vgaCols * vgaRows * 2 := Nat.not_lt.mpr h
  rw [scrollIfNeeded, if_neg hfull]
  rfl

theorem lineStart_scrollIfNeeded {k : Console} (h : 4000 ≤ k.cursorPos) :
    k.scrollIfNeeded.lineStart =
      if 160 ≤ k.lineStart then k.lineStart - 160 else k.lineStart := by
  have hfull : ¬ k.cursorPos < vgaCols * vgaRows * 2 := Nat.not_lt.mpr h
  rw [scrollIfNeeded, if_neg hfull]
  rfl

def place (c : Byte) (k : Console) : Console :=
  if c = newline then
    { k with cursorPos := k.cursorPos + (vgaCols * 2 - k.cursorPos % (vgaCols * 2)) }
  else
    { k with
      vga := Function.update k.vga (k.cursorPos / 2) (attrChar c)
      cursorPos := k.cursorPos + 2 }

theorem putchar_eq (c : Byte) (k : Console) :
    k.putchar c = (k.place c).scrollIfNeeded.updateCursor := rfl

theorem print_cons (c : Byte) (s : List Byte) (k : Console) :
    k.print (c :: s) = (k.putchar c).print s := rfl

theorem print_append (s t : List Byte) (k : Console) :
    k.print (s ++ t) = (k.print s).print t :=
  List.foldl_append

end Console

end CDosX86
