import Mathlib.Data.Int.GCD
import Mathlib.Data.List.Rotate

namespace CyclicList

variable {α : Type}

def Repeats (period : Nat) (l : List α) : Prop :=
  ∀ i, i + period < l.length → l[i]? = l[i + period]?

theorem rotate_mul {l : List α} {k : Nat} (h : l.rotate k = l) (j : Nat) :
    l.rotate (k * j) = l := by
  induction j with
  | zero => rw [Nat.mul_zero, List.rotate_zero]
  | succ j ih => rw [Nat.mul_succ, ← List.rotate_rotate, ih, h]

theorem rotate_gcd {l : List α} {k : Nat} (h : l.rotate k = l)
    (hlt : Nat.gcd k l.length < l.length) : l.rotate (Nat.gcd k l.length) = l := by
  obtain ⟨j, -, hj⟩ := Nat.exists_mul_mod_eq_gcd hlt
  rw [← hj, List.rotate_mod]
  exact rotate_mul h j

theorem Repeats.getElem?_mod {l : List α} {p : Nat} (h : Repeats p l) {i : Nat}
    (hi : i < l.length) : l[i % p]? = l[i]? := by
  induction i using Nat.strong_induction_on with
  | _ i ih =>
      rcases Nat.lt_or_ge i p with hlt | hge
      · rw [Nat.mod_eq_of_lt hlt]
      · rcases Nat.eq_zero_or_pos p with rfl | hp
        · rw [Nat.mod_zero]
        · have hback : i - p + p = i := by omega
          have hstep := h (i - p) (by omega)
          rw [hback] at hstep
          rw [Nat.mod_eq_sub_mod hge, ih (i - p) (by omega) (by omega), hstep]

theorem rotate_eq_self_iff (l : List α) (k : Nat) :
    l.rotate k = l ↔ Repeats (Nat.gcd k l.length) l := by
  constructor
  · intro h i hi
    have hlt : Nat.gcd k l.length < l.length := by omega
    have hmoved := List.getElem?_rotate (n := Nat.gcd k l.length) (m := i) (l := l) (by omega)
    rw [rotate_gcd h hlt, Nat.mod_eq_of_lt hi] at hmoved
    exact hmoved
  · intro h
    apply List.ext_getElem?
    intro i
    rcases Nat.lt_or_ge i l.length with hi | hi
    · have hpos : 0 < l.length := by omega
      rw [List.getElem?_rotate hi, ← h.getElem?_mod (Nat.mod_lt _ hpos), ← h.getElem?_mod hi,
        Nat.mod_mod_of_dvd _ (Nat.gcd_dvd_right k l.length)]
      have hshift : (i + k) % Nat.gcd k l.length = i % Nat.gcd k l.length := by
        obtain ⟨c, hc⟩ := Nat.gcd_dvd_left k l.length
        nth_rewrite 1 [hc]
        exact Nat.add_mul_mod_self_left _ _ _
      rw [hshift]
    · rw [List.getElem?_eq_none (by rwa [List.length_rotate]), List.getElem?_eq_none hi]

end CyclicList
