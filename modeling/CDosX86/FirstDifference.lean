import Mathlib.Data.List.Lex
import Mathlib.Order.BoundedOrder.Lattice

namespace FirstDifference

variable {α : Type} [LinearOrder α] [OrderBot α]

-- The symbols at which two texts first differ; ⊥ stands behind the end of a text.
def firstDiff : List α → List α → α × α
  | [], t => (⊥, t.headD ⊥)
  | x :: _, [] => (x, ⊥)
  | x :: s, y :: t => if x = y then firstDiff s t else (x, y)

theorem firstDiff_nil_right (s : List α) : firstDiff s [] = (s.headD ⊥, ⊥) := by
  cases s <;> rfl

theorem firstDiff_cons_self (x : α) (s t : List α) :
    firstDiff (x :: s) (x :: t) = firstDiff s t := if_pos rfl

theorem firstDiff_of_head {s t : List α} (h : s = [] ∨ s.headD ⊥ ≠ t.headD ⊥) :
    firstDiff s t = (s.headD ⊥, t.headD ⊥) := by
  cases s with
  | nil => rfl
  | cons x s =>
      cases t with
      | nil => rfl
      | cons y t =>
          have hxy : x ≠ y := h.resolve_left (List.cons_ne_nil x s)
          exact if_neg hxy

theorem firstDiff_swap (s t : List α) : firstDiff t s = (firstDiff s t).swap := by
  induction s generalizing t with
  | nil => rw [firstDiff_nil_right, firstDiff, Prod.swap_prod_mk]
  | cons x s ih =>
      cases t with
      | nil => rfl
      | cons y t =>
          rw [firstDiff, firstDiff]
          by_cases hxy : x = y
          · rw [if_pos hxy, if_pos hxy.symm, ih]
          · rw [if_neg hxy, if_neg (Ne.symm hxy), Prod.swap_prod_mk]

theorem firstDiff_lt_iff {s t : List α} (hs : ⊥ ∉ s) (ht : ⊥ ∉ t) :
    (firstDiff s t).1 < (firstDiff s t).2 ↔ s < t := by
  induction s generalizing t with
  | nil =>
      cases t with
      | nil => simp [firstDiff]
      | cons y t =>
          have hy : ⊥ < y := bot_lt_iff_ne_bot.mpr fun h => ht (by simp [h])
          exact iff_of_true hy List.Lex.nil
  | cons x s ih =>
      cases t with
      | nil => simp [firstDiff]
      | cons y t =>
          rw [List.cons_lt_cons_iff, firstDiff]
          by_cases hxy : x = y
          · rw [if_pos hxy, ih (fun h => hs (List.mem_cons_of_mem x h))
              (fun h => ht (List.mem_cons_of_mem y h))]
            simp [hxy]
          · rw [if_neg hxy]
            simp [hxy]

theorem firstDiff_eq_iff {s t : List α} (hs : ⊥ ∉ s) (ht : ⊥ ∉ t) :
    (firstDiff s t).1 = (firstDiff s t).2 ↔ s = t := by
  constructor
  · intro heq
    have hst : ¬ s < t := by
      rw [← firstDiff_lt_iff hs ht, heq]
      exact lt_irrefl _
    have hts : ¬ t < s := by
      rw [← firstDiff_lt_iff ht hs, firstDiff_swap s t, Prod.fst_swap, Prod.snd_swap, heq]
      exact lt_irrefl _
    exact le_antisymm (not_lt.mp hts) (not_lt.mp hst)
  · rintro rfl
    exact congrArg Prod.fst (firstDiff_swap s s)

theorem firstDiff_take {s : List α} {n : Nat} (h : s.length < n) (t : List α) :
    firstDiff s (t.take n) = firstDiff s t := by
  induction s generalizing n t with
  | nil =>
      obtain ⟨n, rfl⟩ : ∃ m, n = m + 1 := ⟨n - 1, by simp at h; omega⟩
      cases t <;> rfl
  | cons x s ih =>
      obtain ⟨n, rfl⟩ : ∃ m, n = m + 1 := ⟨n - 1, by simp at h; omega⟩
      cases t with
      | nil => rfl
      | cons y t =>
          rw [List.take_succ_cons, firstDiff, firstDiff, ih (by simpa using h)]

end FirstDifference
