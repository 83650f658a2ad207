import Mathlib.Tactic.Common

namespace LabelledRuns

variable {σ τ α β : Type} {act : σ → α → σ} {s t u : σ}

def run (act : σ → α → σ) (s : σ) (as : List α) : σ := as.foldl act s

def Reaches (act : σ → α → σ) (s t : σ) : Prop := ∃ as, run act s as = t

-- What `f` sees of every step of a run, in order.
def collect (act : σ → α → σ) (f : σ → α → List β) : σ → List α → List β
  | _, [] => []
  | s, a :: as => f s a ++ collect act f (act s a) as

theorem run_append (s : σ) (as bs : List α) : run act s (as ++ bs) = run act (run act s as) bs :=
  List.foldl_append

theorem Reaches.refl (s : σ) : Reaches act s s := ⟨[], rfl⟩

theorem Reaches.trans (h : Reaches act s t) (h' : Reaches act t u) : Reaches act s u := by
  obtain ⟨as, rfl⟩ := h
  obtain ⟨bs, rfl⟩ := h'
  exact ⟨as ++ bs, run_append s as bs⟩

theorem Reaches.step (h : Reaches act s t) (a : α) : Reaches act s (act t a) :=
  h.trans ⟨[a], rfl⟩

theorem run_keeps {I : σ → Prop} (hact : ∀ s a, I s → I (act s a)) (as : List α) (h : I s) :
    I (run act s as) := by
  induction as generalizing s with
  | nil => exact h
  | cons a as ih => exact ih (hact s a h)

theorem collect_keeps {f : σ → α → List β} {J : List β → σ → Prop}
    (hact : ∀ log s a, J log s → J (log ++ f s a) (act s a)) (as : List α) {log : List β}
    (h : J log s) : J (log ++ collect act f s as) (run act s as) := by
  induction as generalizing log s with
  | nil => rwa [collect, List.append_nil]
  | cons a as ih =>
      rw [collect, ← List.append_assoc]
      exact ih (hact log s a h)

-- Once a step of the right kind has been made, `I` holds from then on.
theorem run_since {I : σ → Prop} {starts : α → Prop} (hstart : ∀ s a, starts a → I (act s a))
    (hact : ∀ s a, I s → I (act s a)) {as : List α} (h : ∃ a ∈ as, starts a) :
    I (run act s as) := by
  induction as generalizing s with
  | nil =>
      obtain ⟨a, ha, -⟩ := h
      cases ha
  | cons a as ih =>
      obtain ⟨b, hb, hbs⟩ := h
      cases hb with
      | head => exact run_keeps hact as (hstart s a hbs)
      | tail _ hb => exact ih ⟨b, hb, hbs⟩

end LabelledRuns
