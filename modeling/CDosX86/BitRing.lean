import Mathlib.Data.Nat.ModEq
import Mathlib.Logic.Function.Iterate

namespace BitRing

-- A number below `2 * base` as a ring of bits, the highest of which is worth `base`: the bit moves
-- to the lowest place and the others move up, or the other way round.
def turn (base r : Nat) : Nat := 2 * (r % base) + r / base

def unturn (base r : Nat) : Nat := r / 2 + base * (r % 2)

variable {base : Nat}

theorem exists_top_bit {r : Nat} (h : r < 2 * base) :
    ∃ x, ∃ c : Bool, x < base ∧ r = x + base * c.toNat := by
  by_cases htop : r < base
  · exact ⟨r, false, htop, by simp⟩
  · exact ⟨r - base, true, by omega, by simp; omega⟩

theorem turn_add {x : Nat} (hx : x < base) (c : Bool) :
    turn base (x + base * c.toNat) = 2 * x + c.toNat := by
  have hbase : 0 < base := by omega
  rw [turn, Nat.add_mul_mod_self_left, Nat.mod_eq_of_lt hx, Nat.add_mul_div_left _ _ hbase,
    Nat.div_eq_of_lt hx, Nat.zero_add]

theorem turn_lt {r : Nat} (h : r < 2 * base - 1) : turn base r < 2 * base - 1 := by
  obtain ⟨x, c, hx, rfl⟩ := exists_top_bit (show r < 2 * base by omega)
  rw [turn_add hx]
  cases c with
  | false => simp only [Bool.toNat_false] at h ⊢; omega
  | true => simp only [Bool.toNat_true] at h ⊢; omega

theorem turn_last (h : 0 < base) : turn base (2 * base - 1) = 2 * base - 1 := by
  have hlast : 2 * base - 1 = (base - 1) + base * true.toNat := by simp; omega
  rw [hlast, turn_add (by omega), Bool.toNat_true]
  omega

theorem turn_modEq {r : Nat} (h : r < 2 * base) : turn base r ≡ 2 * r [MOD 2 * base - 1] := by
  obtain ⟨x, c, hx, rfl⟩ := exists_top_bit h
  rw [turn_add hx]
  cases c with
  | false => simp [Nat.ModEq.refl]
  | true =>
      refine (Nat.modEq_iff_dvd' (by simp; omega)).mpr ⟨1, ?_⟩
      simp only [Bool.toNat_true]
      omega

theorem iterate_lt {r : Nat} (h : r < 2 * base - 1) (k : Nat) :
    (turn base)^[k] r < 2 * base - 1 := by
  induction k with
  | zero => exact h
  | succ k ih =>
      rw [Function.iterate_succ_apply']
      exact turn_lt ih

theorem iterate_modEq {r : Nat} (h : r < 2 * base - 1) (k : Nat) :
    (turn base)^[k] r ≡ 2 ^ k * r [MOD 2 * base - 1] := by
  induction k with
  | zero => simp [Nat.ModEq.refl]
  | succ k ih =>
      have hlt := iterate_lt h k
      rw [Function.iterate_succ_apply', Nat.pow_succ, Nat.mul_comm (2 ^ k), Nat.mul_assoc]
      exact (turn_modEq (by omega)).trans (ih.mul_left 2)

theorem turn_restores {k : Nat} (hk : 2 ^ k = 2 * base) {r : Nat} (h : r < 2 * base) :
    (turn base)^[k] r = r := by
  by_cases hlast : r = 2 * base - 1
  · rw [hlast]
    exact Function.iterate_fixed (turn_last (by omega)) k
  · have hr : r < 2 * base - 1 := by omega
    have hwhole : 2 ^ k * r ≡ r [MOD 2 * base - 1] := by
      refine Nat.ModEq.symm ((Nat.modEq_iff_dvd' (Nat.le_mul_of_pos_left r (Nat.two_pow_pos k))).mpr ?_)
      rw [hk, ← Nat.sub_one_mul]
      exact Dvd.intro _ rfl
    exact ((iterate_modEq hr k).trans hwhole).eq_of_lt_of_lt (iterate_lt hr k) hr

theorem unturn_lt {r : Nat} (h : r < 2 * base) : unturn base r < 2 * base := by
  rw [unturn]
  rcases Nat.mod_two_eq_zero_or_one r with hr | hr <;> rw [hr] <;> omega

theorem turn_unturn {r : Nat} (h : r < 2 * base) : turn base (unturn base r) = r := by
  have hbit : r % 2 = (decide (r % 2 = 1)).toNat := by
    rcases Nat.mod_two_eq_zero_or_one r with hr | hr <;> simp [hr]
  rw [unturn, hbit, turn_add (by omega), ← hbit]
  omega

theorem unturn_restores {k : Nat} (hk : 2 ^ k = 2 * base) {r : Nat} (h : r < 2 * base) :
    (unturn base)^[k] r = r := by
  have hback : ∀ n, (unturn base)^[n] r < 2 * base ∧ (turn base)^[n] ((unturn base)^[n] r) = r := by
    intro n
    induction n with
    | zero => exact ⟨h, rfl⟩
    | succ n ih =>
        rw [Function.iterate_succ_apply', Function.iterate_succ_apply, turn_unturn ih.1]
        exact ⟨unturn_lt ih.1, ih.2⟩
  rw [← turn_restores hk (hback k).1, (hback k).2]

end BitRing
