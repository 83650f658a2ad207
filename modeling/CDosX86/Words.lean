import Mathlib.Tactic.Common

namespace Words

variable {α : Type} (sep : α → Bool)

-- The maximal runs of symbols that are no separators.
def words (s : List α) : List (List α) := (s.splitOnP sep).filter fun w => !w.isEmpty

variable {sep} {c : α} {s w : List α}

theorem words_nil : words sep [] = [] := by
  rw [words, List.splitOnP_nil]
  rfl

theorem words_cons_sep (hc : sep c = true) (s : List α) : words sep (c :: s) = words sep s := by
  have hsplit := List.splitOnP_append_cons [] s hc
  rw [List.nil_append, List.splitOnP_nil] at hsplit
  rw [words, hsplit]
  rfl

theorem words_append_left {spaces : List α} (h : ∀ c ∈ spaces, sep c = true) (s : List α) :
    words sep (spaces ++ s) = words sep s := by
  induction spaces with
  | nil => rfl
  | cons c spaces ih =>
      rw [List.cons_append, words_cons_sep (h c List.mem_cons_self),
        ih fun c hc => h c (List.mem_cons_of_mem _ hc)]

theorem words_singleton (hw : ∀ c ∈ w, sep c = false) (hne : w ≠ []) : words sep w = [w] := by
  rw [words, List.splitOnP_eq_singleton hw]
  simp [hne]

theorem words_word_sep (hw : ∀ c ∈ w, sep c = false) (hne : w ≠ []) (hc : sep c = true)
    (s : List α) : words sep (w ++ c :: s) = w :: words sep s := by
  rw [words, List.splitOnP_append_cons_of_forall_mem hw c hc, List.filter_cons_of_pos (by simpa)]
  rfl

theorem words_word_append (hw : ∀ c ∈ w, sep c = false) (hne : w ≠ [])
    (hs : ∀ c ∈ s.head?, sep c = true) : words sep (w ++ s) = w :: words sep s := by
  cases s with
  | nil => rw [List.append_nil, words_singleton hw hne, words_nil]
  | cons c s =>
      have hc : sep c = true := hs c rfl
      rw [words_word_sep hw hne hc, words_cons_sep hc]

-- How a text is made of runs of separators and words.
inductive Spaced (sep : α → Bool) : List α → Prop
  | blank {spaces : List α} : (∀ c ∈ spaces, sep c = true) → Spaced sep spaces
  | last {spaces w : List α} : (∀ c ∈ spaces, sep c = true) → (∀ c ∈ w, sep c = false) →
      w ≠ [] → Spaced sep (spaces ++ w)
  | more {spaces w rest : List α} {c : α} : (∀ c ∈ spaces, sep c = true) →
      (∀ c ∈ w, sep c = false) → w ≠ [] → sep c = true → Spaced sep rest →
        Spaced sep (spaces ++ (w ++ c :: rest))

theorem Spaced.cons_sep (hc : sep c = true) (h : Spaced sep s) : Spaced sep (c :: s) := by
  cases h with
  | blank hspaces => exact .blank (List.forall_mem_cons.mpr ⟨hc, hspaces⟩)
  | last hspaces hw hne => exact .last (List.forall_mem_cons.mpr ⟨hc, hspaces⟩) hw hne
  | more hspaces hw hne hd hrest =>
      exact .more (List.forall_mem_cons.mpr ⟨hc, hspaces⟩) hw hne hd hrest

theorem Spaced.cons_word (hc : sep c = false) (h : Spaced sep s) : Spaced sep (c :: s) := by
  have hnone : ∀ d ∈ ([] : List α), sep d = true := by simp
  have hone : ∀ d ∈ [c], sep d = false := by simpa using hc
  -- A separator in front ends the word that `c` makes; otherwise `c` joins the first word.
  cases h with
  | blank hspaces =>
      cases s with
      | nil => exact .last hnone hone (List.cons_ne_nil c [])
      | cons d s =>
          obtain ⟨hd, hspaces⟩ := List.forall_mem_cons.mp hspaces
          exact .more hnone hone (List.cons_ne_nil c []) hd (.blank hspaces)
  | @last spaces w hspaces hw hne =>
      cases spaces with
      | nil => exact .last hnone (List.forall_mem_cons.mpr ⟨hc, hw⟩) (List.cons_ne_nil c w)
      | cons d spaces =>
          obtain ⟨hd, hspaces⟩ := List.forall_mem_cons.mp hspaces
          exact .more hnone hone (List.cons_ne_nil c []) hd (.last hspaces hw hne)
  | @more spaces w rest e hspaces hw hne he hrest =>
      cases spaces with
      | nil => exact .more hnone (List.forall_mem_cons.mpr ⟨hc, hw⟩) (List.cons_ne_nil c w) he hrest
      | cons d spaces =>
          obtain ⟨hd, hspaces⟩ := List.forall_mem_cons.mp hspaces
          exact .more hnone hone (List.cons_ne_nil c []) hd (.more hspaces hw hne he hrest)

theorem spaced (sep : α → Bool) (s : List α) : Spaced sep s := by
  induction s with
  | nil => exact .blank (by simp)
  | cons c s ih =>
      cases hc : sep c with
      | true => exact ih.cons_sep hc
      | false => exact ih.cons_word hc

end Words
