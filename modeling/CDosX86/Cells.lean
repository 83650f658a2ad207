import Mathlib.Data.List.Induction
import Mathlib.Logic.Function.Basic
import Mathlib.Tactic.Common

namespace Cells

variable {κ κ' ν : Type} [DecidableEq κ] [DecidableEq κ']

-- What cells that hold `s` hold after the stores `ws`.
def contents (s : κ → ν) (ws : List (κ × ν)) : κ → ν :=
  ws.foldl (fun s w => Function.update s w.1 w.2) s

def storedAt (k : κ) (ws : List (κ × ν)) : List ν := (ws.filter (·.1 = k)).map (·.2)

theorem contents_append (s : κ → ν) (ws ws' : List (κ × ν)) :
    contents s (ws ++ ws') = contents (contents s ws) ws' := List.foldl_append

theorem storedAt_append (k : κ) (ws ws' : List (κ × ν)) :
    storedAt k (ws ++ ws') = storedAt k ws ++ storedAt k ws' := by
  rw [storedAt, List.filter_append, List.map_append]
  rfl

theorem storedAt_self (k : κ) (v : ν) : storedAt k [(k, v)] = [v] := by
  simp [storedAt]

theorem storedAt_of_ne {k k' : κ} (h : k' ≠ k) (v : ν) : storedAt k [(k', v)] = [] := by
  simp [storedAt, h]

theorem storedAt_filter (k : κ) (ws : List (κ × ν)) :
    storedAt k (ws.filter (·.1 = k)) = storedAt k ws := by
  rw [storedAt, List.filter_filter]
  simp only [Bool.and_self]
  rfl

theorem contents_apply (s : κ → ν) (ws : List (κ × ν)) (k : κ) :
    contents s ws k = (storedAt k ws).getLast?.getD (s k) := by
  induction ws using List.reverseRecOn with
  | nil => rfl
  | append_singleton ws w ih =>
      obtain ⟨k', v⟩ := w
      rw [contents_append, storedAt_append]
      change Function.update (contents s ws) k' v k = _
      by_cases hk : k' = k
      · subst hk
        rw [Function.update_self, storedAt_self, List.getLast?_concat, Option.getD_some]
      · rw [Function.update_of_ne (Ne.symm hk), storedAt_of_ne hk, List.append_nil, ih]

theorem storedAt_map {f : κ → κ'} (hf : Function.Injective f) (k : κ) (ws : List (κ × ν)) :
    storedAt (f k) (ws.map (Prod.map f id)) = storedAt k ws := by
  induction ws with
  | nil => rfl
  | cons w ws ih =>
      obtain ⟨k', v⟩ := w
      simp only [storedAt, List.map_cons, List.filter_cons, Prod.map, hf.eq_iff] at ih ⊢
      split
      · simp only [List.map_cons, ih, id]
      · exact ih

end Cells
