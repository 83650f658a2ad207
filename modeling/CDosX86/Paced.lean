import Mathlib.Algebra.Order.Group.Nat
import Mathlib.Data.List.Basic
import Mathlib.Tactic.Common
import Mathlib.Logic.Function.Basic

namespace Paced

-- An engine that is stepped until it halts, and ticked after every `period` steps.
structure Engine (σ : Type) where
  step : σ → σ
  tick : σ → σ
  halted : σ → Bool

inductive Beat where
  | step
  | tick
  deriving DecidableEq

variable {σ : Type}

namespace Engine

variable (E : Engine σ)

def beat (s : σ) : Beat → σ
  | .step => E.step s
  | .tick => E.tick s

def beats (s : σ) (bs : List Beat) : σ := bs.foldl E.beat s

-- The step after `t` others, and the tick that may be due then.
def pace (period t : Nat) (s : σ) : σ :=
  if (t + 1) % period = 0 then E.tick (E.step s) else E.step s

-- At most `n` more steps; also how many there have been.
def run (period : Nat) : Nat → Nat → σ → Nat × σ
  | 0, t, s => (t, s)
  | n + 1, t, s => if E.halted s then (t, s) else run period n (t + 1) (E.pace period t s)

-- The same with a counter of the steps since the last tick, and the steps counted from the end.
def countUp (period : Nat) : Nat → Nat → σ → Nat × σ
  | 0, _, s => (0, s)
  | n + 1, since, s =>
      if E.halted s then (0, s)
      else
        let r :=
          if since + 1 ≥ period then countUp period n 0 (E.tick (E.step s))
          else countUp period n (since + 1) (E.step s)
        (r.1 + 1, r.2)

def batch : Nat → σ → Nat × σ
  | 0, s => (0, s)
  | n + 1, s =>
      if E.halted s then (0, s)
      else
        let r := batch n (E.step s)
        (r.1 + 1, r.2)

-- A whole batch of steps before the counter is looked at.
def batched (period size since : Nat) (s : σ) : Nat × σ :=
  let r := E.batch size s
  if since + r.1 ≥ period then (0, E.tick r.2) else (since + r.1, r.2)

end Engine

def schedule (period : Nat) : Nat → Nat → List Beat
  | _, 0 => []
  | t, n + 1 =>
      (if (t + 1) % period = 0 then [.step, .tick] else [.step]) ++ schedule period (t + 1) n

theorem schedule_add (period t m n : Nat) :
    schedule period t (m + n) = schedule period t m ++ schedule period (t + m) n := by
  induction m generalizing t with
  | zero => simp [schedule]
  | succ m ih =>
      have hnext : t + 1 + m = t + (m + 1) := by omega
      rw [Nat.succ_add, schedule, schedule, ih, hnext, List.append_assoc]

theorem count_step_schedule (period t n : Nat) : (schedule period t n).count .step = n := by
  induction n generalizing t with
  | zero => rfl
  | succ n ih =>
      rw [schedule, List.count_append, ih]
      split
      · simp [Nat.add_comm]
      · simp [Nat.add_comm]

theorem count_tick_schedule (period t n : Nat) :
    (schedule period t n).count .tick = (t + n) / period - t / period := by
  induction n generalizing t with
  | zero => simp [schedule]
  | succ n ih =>
      have hmono : (t + 1) / period ≤ (t + 1 + n) / period :=
        Nat.div_le_div_right (Nat.le_add_right _ _)
      have hlast : t + 1 + n = t + (n + 1) := by omega
      have hdiv := Nat.succ_div (a := t) (b := period)
      rw [hlast] at hmono
      rw [schedule, List.count_append, ih, hlast]
      simp only [Nat.dvd_iff_mod_eq_zero] at hdiv
      split_ifs at hdiv ⊢
      · simp only [List.count_cons_of_ne, List.count_cons_self, List.count_nil, ne_eq, reduceCtorEq,
          not_false_eq_true]
        omega
      · simp only [List.count_cons_of_ne, List.count_nil, ne_eq, reduceCtorEq, not_false_eq_true]
        omega

namespace Engine

variable (E : Engine σ) (period : Nat)

theorem beats_append (s : σ) (bs bs' : List Beat) :
    E.beats s (bs ++ bs') = E.beats (E.beats s bs) bs' := List.foldl_append

theorem beats_pace (t : Nat) (s : σ) :
    E.beats s (if (t + 1) % period = 0 then [.step, .tick] else [.step]) = E.pace period t s := by
  rw [pace]
  split <;> rfl

theorem run_halted {n t : Nat} {s : σ} (h : E.halted s = true) : E.run period n t s = (t, s) := by
  cases n with
  | zero => rfl
  | succ n => rw [run, if_pos h]

-- The steps that were left over either did not come, or found the engine halted.
theorem run_ends (n t : Nat) (s : σ) :
    (E.run period n t s).1 ≤ t + n ∧
      (E.run period n t s).1 ≥ t ∧
      ((E.run period n t s).1 < t + n → E.halted (E.run period n t s).2 = true) := by
  induction n generalizing t s with
  | zero => simp [run]
  | succ n ih =>
      rw [run]
      split
      · next hhalted => simp [hhalted]
      · obtain ⟨hle, hge, hend⟩ := ih (t + 1) (E.pace period t s)
        exact ⟨by omega, by omega, fun hlt => hend (by omega)⟩

theorem run_add (m n t : Nat) (s : σ) :
    E.run period (m + n) t s = E.run period n (E.run period m t s).1 (E.run period m t s).2 := by
  induction m generalizing t s with
  | zero => rw [Nat.zero_add, run]
  | succ m ih =>
      rw [Nat.succ_add, run, run]
      split
      · next hhalted => rw [run_halted E period hhalted]
      · exact ih (t + 1) (E.pace period t s)

theorem run_eq_beats (n t : Nat) (s : σ) :
    (E.run period n t s).2 =
      E.beats s (schedule period t ((E.run period n t s).1 - t)) := by
  induction n generalizing t s with
  | zero => simp [run, schedule, beats]
  | succ n ih =>
      rw [run]
      split
      · simp [schedule, beats]
      · have hge := (E.run_ends period n (t + 1) (E.pace period t s)).2.1
        have hsteps : (E.run period n (t + 1) (E.pace period t s)).1 - t =
            (E.run period n (t + 1) (E.pace period t s)).1 - (t + 1) + 1 := by omega
        rw [hsteps, schedule, beats_append, beats_pace]
        exact ih (t + 1) (E.pace period t s)

variable {period}

omit E in
theorem succ_mod_of_due {t : Nat} (hp : 0 < period) (h : t % period + 1 ≥ period) :
    (t + 1) % period = 0 := by
  have hlt := Nat.mod_lt t hp
  have hlast : t % period + 1 = period := by omega
  rw [← Nat.mod_add_mod, hlast, Nat.mod_self]

omit E in
theorem succ_mod_of_early {t : Nat} (h : t % period + 1 < period) :
    (t + 1) % period = t % period + 1 := by
  rw [← Nat.mod_add_mod, Nat.mod_eq_of_lt h]

theorem countUp_eq_run (hp : 0 < period) (n t : Nat) (s : σ) :
    E.countUp period n (t % period) s =
      ((E.run period n t s).1 - t, (E.run period n t s).2) := by
  induction n generalizing t s with
  | zero => simp [countUp, run]
  | succ n ih =>
      have hge := (E.run_ends period n (t + 1) (E.pace period t s)).2.1
      have hnext := ih (t + 1) (E.pace period t s)
      rw [countUp, run]
      split
      · simp
      · rcases Nat.lt_or_ge (t % period + 1) period with hearly | hdue
        · have hmod := succ_mod_of_early hearly
          rw [pace, hmod, if_neg (Nat.succ_ne_zero _)] at hnext hge ⊢
          rw [if_neg (Nat.not_le.mpr hearly), hnext]
          exact Prod.ext (by dsimp only; omega) rfl
        · have hmod := succ_mod_of_due hp hdue
          rw [pace, if_pos hmod] at hnext hge ⊢
          rw [if_pos hdue, ← hmod, hnext]
          exact Prod.ext (by dsimp only; omega) rfl

-- A batch on its own, in which no tick falls due.
theorem batch_eq_run {n t : Nat} {s : σ} (h : t % period + n < period) :
    E.run period n t s = (t + (E.batch n s).1, (E.batch n s).2) := by
  induction n generalizing t s with
  | zero => rfl
  | succ n ih =>
      have hmod := succ_mod_of_early (by omega : t % period + 1 < period)
      rw [run, batch]
      split
      · rfl
      · rw [pace, hmod, if_neg (Nat.succ_ne_zero _), ih (by omega)]
        exact Prod.ext (by dsimp only; omega) rfl

theorem batch_succ (n : Nat) (s : σ) :
    E.batch (n + 1) s =
      if E.halted (E.batch n s).2 then E.batch n s
      else ((E.batch n s).1 + 1, E.step (E.batch n s).2) := by
  induction n generalizing s with
  | zero => simp [batch]
  | succ n ih =>
      rw [batch]
      cases hhalted : E.halted s with
      | true => simp [batch, hhalted]
      | false =>
          rw [ih (E.step s), batch]
          simp only [hhalted, Bool.false_eq_true, if_false]
          split <;> rfl

theorem run_succ (n t : Nat) (s : σ) :
    E.run period (n + 1) t s =
      if E.halted (E.run period n t s).2 then E.run period n t s
      else
        ((E.run period n t s).1 + 1,
          E.pace period (E.run period n t s).1 (E.run period n t s).2) := by
  rw [run_add]
  rfl

-- When whole batches fill the period, looking at the counter after each of them is enough.
theorem batched_eq_run {size t : Nat} (hsize : size ∣ period) (ht : size ∣ t) (hp : 0 < period)
    (s : σ) :
    E.batched period size (t % period) s =
      ((E.run period size t s).1 % period, (E.run period size t s).2) := by
  have hpos : 0 < size := Nat.pos_of_dvd_of_pos hsize hp
  have hlt := Nat.mod_lt t hp
  have hroom : t % period + size ≤ period := by
    have hleft := Nat.le_of_dvd (by omega) (Nat.dvd_sub hsize ((Nat.dvd_mod_iff hsize).mpr ht))
    omega
  obtain ⟨n, rfl⟩ := Nat.exists_eq_succ_of_ne_zero hpos.ne'
  have hbatch := E.batch_eq_run (s := s) (by omega : t % period + n < period)
  have hends := E.run_ends period n t s
  rw [batched, run_succ, batch_succ, hbatch]
  rw [hbatch] at hends
  obtain ⟨hle, -, hend⟩ := hends
  generalize E.batch n s = r at hle hend ⊢
  obtain ⟨m, s'⟩ := r
  dsimp only at hle hend ⊢
  have hmod : (t + m) % period = t % period + m := by
    rw [← Nat.mod_add_mod, Nat.mod_eq_of_lt (by omega)]
  cases hhalted : E.halted s' with
  | true =>
      simp only [if_true]
      rw [if_neg (by omega), hmod]
  | false =>
      have hall : m = n := by
        by_contra hne
        rw [hend (by omega)] at hhalted
        cases hhalted
      subst hall
      simp only [Bool.false_eq_true, if_false]
      rcases Nat.lt_or_ge (t % period + m + 1) period with hearly | hdue
      · have hnext := succ_mod_of_early (by omega : (t + m) % period + 1 < period)
        rw [if_neg (by omega), pace, hnext, if_neg (Nat.succ_ne_zero _), hmod, Nat.add_assoc]
      · have hnext := succ_mod_of_due (t := t + m) hp (by omega)
        rw [if_pos (by omega), pace, hnext, if_pos rfl]

end Engine

end Paced
