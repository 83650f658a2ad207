import Mathlib.Data.List.Forall2
import Mathlib.Data.Nat.Digits.Defs

namespace Numeral

variable {α σ τ : Type} {digit : α → Option Nat}

-- Symbols read from the left, each a digit that changes an accumulator.
def scan (digit : α → Option Nat) (shift : σ → Nat → σ) (acc : σ) : List α → Option σ
  | [] => some acc
  | c :: s =>
      match digit c with
      | some d => scan digit shift (shift acc d) s
      | none => none

def horner (base acc d : Nat) : Nat := acc * base + d

-- `s` is a numeral of `v`: the most significant digit comes first.
def Denotes (digit : α → Option Nat) (base : Nat) (s : List α) (v : Nat) : Prop :=
  ∃ ds, List.Forall₂ (fun c d => digit c = some d) s ds ∧ v = Nat.ofDigits base ds.reverse

theorem scan_map {f : σ → τ} {shift : σ → Nat → σ} {shift' : τ → Nat → τ}
    (h : ∀ acc c d, digit c = some d → f (shift acc d) = shift' (f acc) d) (acc : σ)
    (s : List α) : scan digit shift' (f acc) s = (scan digit shift acc s).map f := by
  induction s generalizing acc with
  | nil => rfl
  | cons c s ih =>
      rw [scan, scan]
      cases hc : digit c with
      | none => rfl
      | some d =>
          dsimp only
          rw [← h acc c d hc, ih]

variable {base : Nat} {s : List α} {v w : Nat}

theorem scan_horner_iff (acc : Nat) :
    scan digit (horner base) acc s = some v ↔
      ∃ ds, List.Forall₂ (fun c d => digit c = some d) s ds ∧
        v = acc * base ^ ds.length + Nat.ofDigits base ds.reverse := by
  induction s generalizing acc with
  | nil => simp [scan, eq_comm]
  | cons c s ih =>
      have hvalue : ∀ (d : Nat) (ds : List Nat),
          horner base acc d * base ^ ds.length + Nat.ofDigits base ds.reverse =
            acc * base ^ (d :: ds).length + Nat.ofDigits base (d :: ds).reverse := by
        intro d ds
        rw [horner, List.reverse_cons, Nat.ofDigits_append, Nat.ofDigits_singleton,
          List.length_reverse, List.length_cons, pow_succ]
        ring
      rw [scan]
      constructor
      · intro h
        cases hc : digit c with
        | none =>
            rw [hc] at h
            cases h
        | some d =>
            rw [hc] at h
            obtain ⟨ds, hds, rfl⟩ := (ih _).mp h
            exact ⟨d :: ds, .cons hc hds, hvalue d ds⟩
      · rintro ⟨_, hds, rfl⟩
        cases hds with
        | @cons _ d _ ds hc hds =>
            rw [hc]
            exact (ih _).mpr ⟨ds, hds, (hvalue d ds).symm⟩

theorem scan_eq_some_iff : scan digit (horner base) 0 s = some v ↔ Denotes digit base s v := by
  rw [scan_horner_iff]
  simp only [Nat.zero_mul, Nat.zero_add]
  rfl

theorem Denotes.unique (hv : Denotes digit base s v) (hw : Denotes digit base s w) : v = w :=
  Option.some_inj.mp ((scan_eq_some_iff.mpr hv).symm.trans (scan_eq_some_iff.mpr hw))

theorem Denotes.digit_of_mem (h : Denotes digit base s v) {c : α} (hc : c ∈ s) :
    ∃ d, digit c = some d := by
  obtain ⟨ds, hds, -⟩ := h
  obtain ⟨i, hi, rfl⟩ := List.getElem_of_mem hc
  exact ⟨_, hds.get hi (hds.length_eq ▸ hi)⟩

theorem denotes_nil : Denotes digit base [] 0 := ⟨[], .nil, rfl⟩

theorem Denotes.append_digit (h : Denotes digit base s v) {c : α} {d : Nat}
    (hc : digit c = some d) : Denotes digit base (s ++ [c]) (v * base + d) := by
  obtain ⟨ds, hds, rfl⟩ := h
  refine ⟨ds ++ [d], List.rel_append hds (.cons hc .nil), ?_⟩
  rw [List.reverse_append, List.reverse_singleton, List.singleton_append, Nat.ofDigits_cons,
    Nat.add_comm, Nat.mul_comm]

end Numeral
