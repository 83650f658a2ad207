import Mathlib.Tactic.Common

namespace StateMonad

variable {σ τ α β : Type}

@[simp] theorem bind_apply (m : StateM σ α) (f : α → StateM σ β) (s : σ) :
    (m >>= f) s = f (m s).1 (m s).2 := rfl

@[simp] theorem pure_apply (a : α) (s : σ) : (pure a : StateM σ α) s = (a, s) := rfl

@[simp] theorem map_apply (f : α → β) (m : StateM σ α) (s : σ) :
    (f <$> m) s = (f (m s).1, (m s).2) := rfl

@[simp] theorem modify_apply (f : σ → σ) (s : σ) :
    (modify f : StateM σ PUnit) s = (⟨⟩, f s) := rfl

@[simp] theorem get_apply (s : σ) : (get : StateM σ σ) s = (s, s) := rfl

@[simp] theorem ite_apply (c : Prop) [Decidable c] (m n : StateM σ α) (s : σ) :
    (if c then m else n) s = if c then m s else n s := by
  split <;> rfl

def Simulates (f : σ → τ) (m : StateM σ α) (n : StateM τ α) : Prop :=
  ∀ s, (m s).1 = (n (f s)).1 ∧ f (m s).2 = (n (f s)).2

variable {f : σ → τ}

theorem sim_pure (a : α) : Simulates f (pure a) (pure a) :=
  fun _ => ⟨rfl, rfl⟩

theorem sim_bind {m : StateM σ α} {n : StateM τ α} {g : α → StateM σ β} {h : α → StateM τ β}
    (hm : Simulates f m n) (hg : ∀ a, Simulates f (g a) (h a)) :
    Simulates f (m >>= g) (n >>= h) := by
  intro s
  obtain ⟨hval, hstate⟩ := hm s
  have hrest := hg (m s).1 (m s).2
  rw [hval, hstate] at hrest
  simpa only [bind_apply, hval] using hrest

theorem sim_mapM {γ δ : Type} {m : γ → StateM σ α} {n : δ → StateM τ α} {g : γ → δ}
    (h : ∀ c, Simulates f (m c) (n (g c))) (cs : List γ) :
    Simulates f (cs.mapM m) ((cs.map g).mapM n) := by
  induction cs with
  | nil => exact sim_pure []
  | cons c cs ih =>
      rw [List.map_cons, List.mapM_cons, List.mapM_cons]
      exact sim_bind (h c) fun a => sim_bind ih fun as => sim_pure (a :: as)

theorem mapM_getElem? {γ : Type} {m : γ → StateM σ α} {cs : List γ} {i : Nat} {c : γ}
    (h : cs[i]? = some c) (s : σ) :
    (cs.mapM m s).1[i]? = some (m c ((cs.take i).mapM m s).2).1 := by
  induction cs generalizing i s with
  | nil => cases h
  | cons c₀ cs ih =>
      rw [List.mapM_cons]
      cases i with
      | zero =>
          cases h
          rfl
      | succ i =>
          rw [List.take_succ_cons, List.mapM_cons]
          exact ih h (m c₀ s).2

def Keeps (I : σ → Prop) (m : StateM σ α) : Prop :=
  ∀ s, I s → I (m s).2

variable {I : σ → Prop}

theorem keeps_pure (a : α) : Keeps I (pure a) := fun _ h => h

theorem keeps_get : Keeps I (get : StateM σ σ) := fun _ h => h

theorem keeps_bind {m : StateM σ α} {g : α → StateM σ β} (hm : Keeps I m)
    (hg : ∀ a, Keeps I (g a)) : Keeps I (m >>= g) :=
  fun s h => hg _ _ (hm s h)

end StateMonad
