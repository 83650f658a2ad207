import Mathlib.Data.List.Induction
import Mathlib.Data.List.Infix
import Mathlib.Logic.Function.Basic

namespace SharedFlag

inductive Event (κ : Type) where
  | make (k : κ)
  | brk (k : κ)
  deriving DecidableEq, Repr

variable {κ : Type} [DecidableEq κ] (shared : κ → Bool)

def hold (down : κ → Bool) : Event κ → κ → Bool
  | .make k => Function.update down k true
  | .brk k => Function.update down k false

-- A flag for several keys, set by the make of any of them and cleared by the break of any.
def step (flag : Bool) : Event κ → Bool
  | .make k => shared k || flag
  | .brk k => !shared k && flag

def AnyDown (down : κ → Bool) : Prop := ∃ k, shared k = true ∧ down k = true

def Tracks (down : κ → Bool) (flag : Bool) : Prop := flag = true ↔ AnyDown shared down

def Clashes (down : κ → Bool) : Event κ → Prop
  | .make _ => False
  | .brk k => shared k = true ∧ ∃ k', k' ≠ k ∧ shared k' = true ∧ down k' = true

variable {shared} {down : κ → Bool} {flag : Bool}

theorem anyDown_update {k : κ} (hk : shared k = false) (b : Bool) :
    AnyDown shared (Function.update down k b) ↔ AnyDown shared down := by
  refine exists_congr fun k' => and_congr_right fun hk' => ?_
  have hne : k' ≠ k := by
    rintro rfl
    exact absurd (hk.symm.trans hk') (by decide)
  rw [Function.update_of_ne hne]

theorem anyDown_break (k : κ) :
    AnyDown shared (Function.update down k false) ↔
      ∃ k', k' ≠ k ∧ shared k' = true ∧ down k' = true := by
  refine exists_congr fun k' => ?_
  by_cases hne : k' = k
  · subst hne
    simp
  · simp [hne]

theorem tracks_step_iff (h : Tracks shared down flag) (e : Event κ) :
    Tracks shared (hold down e) (step shared flag e) ↔ ¬ Clashes shared down e := by
  cases e with
  | make k =>
      refine iff_of_true ?_ id
      cases hk : shared k with
      | true =>
          refine iff_of_true (by simp [step, hk]) ⟨k, hk, ?_⟩
          simp [hold]
      | false =>
          rw [Tracks, hold, anyDown_update hk]
          simpa [step, hk, Tracks] using h
  | brk k =>
      cases hk : shared k with
      | true =>
          rw [Tracks, hold, anyDown_break]
          simp [step, hk, Clashes]
      | false =>
          refine iff_of_true ?_ (by simp [Clashes, hk])
          rw [Tracks, hold, anyDown_update hk]
          simpa [step, hk, Tracks] using h

-- At every moment of a run, not only at its end.
theorem run_tracks_iff (h : Tracks shared down flag) (es : List (Event κ)) :
    (∀ pre, pre <+: es → Tracks shared (pre.foldl hold down) (pre.foldl (step shared) flag)) ↔
      ∀ pre e, pre ++ [e] <+: es → ¬ Clashes shared (pre.foldl hold down) e := by
  induction es using List.reverseRecOn with
  | nil =>
      refine iff_of_true ?_ ?_
      · intro pre hpre
        rw [List.prefix_nil.mp hpre]
        exact h
      · intro pre e hpre
        simp at hpre
  | append_singleton es e ih =>
      have hlast (hes : Tracks shared (es.foldl hold down) (es.foldl (step shared) flag)) :
          Tracks shared ((es ++ [e]).foldl hold down) ((es ++ [e]).foldl (step shared) flag) ↔
            ¬ Clashes shared (es.foldl hold down) e := by
        rw [List.foldl_append, List.foldl_append]
        exact tracks_step_iff hes e
      constructor
      · intro hall pre x hpre
        have hinit := fun pre hp => hall pre (List.IsPrefix.trans hp (List.prefix_append es [e]))
        rcases List.prefix_concat_iff.mp hpre with heq | hbefore
        · obtain ⟨rfl, hx⟩ := List.append_inj' heq rfl
          cases hx
          exact (hlast (hinit pre (List.prefix_refl pre))).mp (hall _ (List.prefix_refl _))
        · exact ih.mp hinit pre x hbefore
      · intro hnone pre hpre
        have hinit := ih.mpr fun pre x hp =>
          hnone pre x (List.IsPrefix.trans hp (List.prefix_append es [e]))
        rcases List.prefix_concat_iff.mp hpre with rfl | hbefore
        · exact (hlast (hinit es (List.prefix_refl es))).mpr (hnone es e (List.prefix_refl _))
        · exact hinit pre hbefore

end SharedFlag
