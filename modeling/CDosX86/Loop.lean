import Mathlib.Logic.Function.Basic
import Mathlib.Tactic.Common

namespace Loop

variable {σ : Type}

def upto (body : Nat → σ → σ) : Nat → σ → σ
  | 0, s => s
  | n + 1, s => body n (upto body n s)

theorem upto_invariant {body : Nat → σ → σ} {I : Nat → σ → Prop} {s : σ}
    (hinit : I 0 s) {n : Nat} (hstep : ∀ i t, i < n → I i t → I (i + 1) (body i t)) :
    I n (upto body n s) := by
  induction n with
  | zero => exact hinit
  | succ n ih =>
      have hn := ih fun i t hi => hstep i t (by omega)
      exact hstep n _ (by omega) hn

theorem upto_congr {body body' : Nat → σ → σ} {n : Nat} (h : ∀ i < n, body i = body' i) (s : σ) :
    upto body n s = upto body' n s := by
  induction n with
  | zero => rfl
  | succ n ih => rw [upto, upto, h n (Nat.lt_succ_self n), ih fun i hi => h i (by omega)]

section functions

variable {α : Type}

theorem upto_table (base : Nat) (g f : Nat → α) (n j : Nat) :
    upto (fun i h => Function.update h (base + i) (g i)) n f j =
      if base ≤ j ∧ j < base + n then g (j - base) else f j := by
  induction n with
  | zero =>
      rw [if_neg (by omega)]
      rfl
  | succ n ih =>
      simp only [upto, Function.update_apply, ih]
      grind

theorem upto_fill (base : Nat) (v : α) (f : Nat → α) (n j : Nat) :
    upto (fun i g => Function.update g (base + i) v) n f j =
      if base ≤ j ∧ j < base + n then v else f j :=
  upto_table base (fun _ => v) f n j

theorem upto_shift (k : Nat) (f : Nat → α) (n j : Nat) :
    upto (fun i g => Function.update g i (g (i + k))) n f j =
      if j < n then f (j + k) else f j := by
  induction n generalizing j with
  | zero => rfl
  | succ n ih =>
      simp only [upto, Function.update_apply, ih]
      grind

end functions

end Loop
