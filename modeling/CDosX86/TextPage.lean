import Mathlib.Algebra.GroupWithZero.Nat
import Mathlib.Tactic.Common

structure TextPage (width : Nat) (α : Type) where
  cell : Nat → Nat → Option α
  row : Nat
  col : Nat
  col_lt : col < width
  fresh : ∀ r c, row < r ∨ row = r ∧ col ≤ c → cell r c = none

namespace TextPage

variable {width : Nat} {α : Type}

def setCell (x : α) (p : TextPage width α) (r c : Nat) : Option α :=
  if r = p.row ∧ c = p.col then some x else p.cell r c

theorem setCell_fresh (x : α) (p : TextPage width α) {r c : Nat}
    (h : p.row < r ∨ p.row = r ∧ p.col + 1 ≤ c) : p.setCell x r c = none := by
  rw [setCell, if_neg (by omega), p.fresh r c (by omega)]

def window (top : Nat) (blank : α) (p : TextPage width α) (r c : Nat) : α :=
  (p.cell (top + r) c).getD blank

-- The first row of the page that a screen of `height` rows still shows.
def top (height : Nat) (p : TextPage width α) : Nat := p.row - (height - 1)

def offset (top : Nat) (p : TextPage width α) : Nat := width * (p.row - top) + p.col

theorem window_fresh {top : Nat} {p : TextPage width α} (blank : α) {r c : Nat}
    (h : p.row < top + r ∨ p.row = top + r ∧ p.col ≤ c) : p.window top blank r c = blank := by
  rw [window, p.fresh _ c h]
  rfl

theorem window_succ (top : Nat) (blank : α) (p : TextPage width α) (r c : Nat) :
    p.window (top + 1) blank r c = p.window top blank (r + 1) c := by
  rw [window, window, Nat.add_assoc, Nat.add_comm 1]

variable [NeZero width]

def empty : TextPage width α where
  cell _ _ := none
  row := 0
  col := 0
  col_lt := Nat.pos_of_neZero width
  fresh _ _ _ := rfl

def newline (p : TextPage width α) : TextPage width α where
  cell := p.cell
  row := p.row + 1
  col := 0
  col_lt := Nat.pos_of_neZero width
  fresh r c hr := p.fresh r c (by omega)

def put (x : α) (p : TextPage width α) : TextPage width α :=
  if h : p.col + 1 < width then
    { cell := p.setCell x
      row := p.row
      col := p.col + 1
      col_lt := h
      fresh := fun _ _ hr => p.setCell_fresh x hr }
  else
    { cell := p.setCell x
      row := p.row + 1
      col := 0
      col_lt := Nat.pos_of_neZero width
      fresh := fun _ _ hr => p.setCell_fresh x (by omega) }

theorem put_cell (x : α) (p : TextPage width α) : (p.put x).cell = p.setCell x := by
  unfold put
  split <;> rfl

theorem put_row (x : α) (p : TextPage width α) :
    (p.put x).row = if p.col + 1 < width then p.row else p.row + 1 := by
  unfold put
  split <;> rfl

theorem put_col (x : α) (p : TextPage width α) :
    (p.put x).col = if p.col + 1 < width then p.col + 1 else 0 := by
  unfold put
  split <;> rfl

theorem offset_newline {top : Nat} {p : TextPage width α} (htop : top ≤ p.row) :
    p.newline.offset top = width * (p.row - top) + width := by
  have hrow : p.newline.row - top = p.row - top + 1 := by
    change p.row + 1 - top = _
    omega
  change width * (p.newline.row - top) + 0 = _
  rw [hrow, Nat.mul_succ, Nat.add_zero]

theorem offset_put {top : Nat} {p : TextPage width α} (htop : top ≤ p.row) (x : α) :
    (p.put x).offset top = p.offset top + 1 := by
  have hcol := p.col_lt
  simp only [offset, put_row, put_col]
  split
  · omega
  · next hlast =>
    have hrow : p.row + 1 - top = p.row - top + 1 := by omega
    rw [hrow, Nat.mul_succ]
    omega

theorem flat_inj {r c r' c' : Nat} (hc : c < width) (hc' : c' < width) :
    width * r + c = width * r' + c' ↔ r = r' ∧ c = c' := by
  have hpos := Nat.pos_of_neZero width
  constructor
  · intro h
    have hrow := congrArg (· / width) h
    simp only [Nat.mul_add_div hpos, Nat.div_eq_of_lt hc, Nat.div_eq_of_lt hc', Nat.add_zero] at hrow
    subst hrow
    exact ⟨rfl, Nat.add_left_cancel h⟩
  · rintro ⟨rfl, rfl⟩
    rfl

theorem window_put {top : Nat} {p : TextPage width α} (htop : top ≤ p.row) (blank x : α)
    {r c : Nat} (hc : c < width) :
    (p.put x).window top blank r c =
      if width * r + c = p.offset top then x else p.window top blank r c := by
  have hat : (top + r = p.row ∧ c = p.col) ↔ width * r + c = p.offset top := by
    rw [offset, flat_inj hc p.col_lt]
    omega
  simp only [window, put_cell, setCell, hat]
  split <;> rfl

end TextPage
