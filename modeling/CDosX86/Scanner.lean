import CDosX86.Numeral

-- Reads a value from the front of a text and leaves what follows it.
abbrev Scanner (α β : Type) : Type := StateT (List α) Option β

namespace Scanner

variable {α β γ ι : Type}

def Reads (p : Scanner α β) (s : List α) (x : β) : Prop :=
  ∀ rest, p.run (s ++ rest) = some (x, rest)

def take (n : Nat) : Scanner α (List α) := fun s =>
  if n ≤ s.length then some (s.take n, s.drop n) else none

def rest : Scanner α (List α) := fun s => some (s, [])

def numeral (digit : α → Option Nat) (base : Nat) (p : Scanner α (List α)) : Scanner α Nat := do
  let s ← p
  StateT.lift (Numeral.scan digit (Numeral.horner base) 0 s)

def whole (p : Scanner α β) (s : List α) : Option β :=
  match p.run s with
  | some (x, []) => some x
  | _ => none

def readAll (p : Scanner α β) : Nat → List α → Option (List β)
  | _, [] => some []
  | 0, _ :: _ => none
  | n + 1, c :: s =>
      match p.run (c :: s) with
      | some (x, rest) => (readAll p n rest).map (x :: ·)
      | none => none

-- The whole text as one value after another.
def many (p : Scanner α β) : Scanner α (List β) := fun s =>
  (readAll p s.length s).map fun xs => (xs, [])

section literal

variable [DecidableEq α]

def literal (s : List α) : Scanner α Unit := fun t =>
  if s <+: t then some ((), t.drop s.length) else none

-- Everything before the first `sep`, which is dropped.
def field (sep : α) : Scanner α (List α) := fun s =>
  if sep ∈ s then some (s.takeWhile (· ≠ sep), (s.dropWhile (· ≠ sep)).tail) else none

theorem reads_literal (s : List α) : Reads (literal s) s () := by
  intro rest
  change (if s <+: s ++ rest then some ((), (s ++ rest).drop s.length) else none) = _
  rw [if_pos (List.prefix_append s rest), List.drop_left]

theorem reads_field {sep : α} {s : List α} (hs : sep ∉ s) : Reads (field sep) (s ++ [sep]) s := by
  intro rest
  have hkept : ∀ c ∈ s, decide (c ≠ sep) = true := fun c hc =>
    decide_eq_true fun heq => hs (heq ▸ hc)
  change (if sep ∈ s ++ [sep] ++ rest then _ else none) = _
  rw [if_pos (by simp), List.append_assoc, List.takeWhile_append_of_pos hkept,
    List.dropWhile_append_of_pos hkept]
  simp

end literal

theorem reads_take {s : List α} {n : Nat} (hn : s.length = n) : Reads (take n) s s := by
  intro rest
  subst hn
  change (if s.length ≤ (s ++ rest).length then _ else none) = _
  rw [if_pos (by simp), List.take_left, List.drop_left]

theorem run_rest (s : List α) : rest.run s = some (s, []) := rfl

theorem reads_pure (x : β) : Reads (pure x : Scanner α β) [] x := fun _ => rfl

section reads

variable {p : Scanner α β} {s t : List α} {x : β}

theorem Reads.bind {f : β → Scanner α γ} {y : γ} (hp : Reads p s x) (hf : Reads (f x) t y) :
    Reads (p >>= f) (s ++ t) y := by
  intro rest
  rw [StateT.run_bind, List.append_assoc, hp]
  exact hf rest

theorem Reads.ret (f : β → γ) (hp : Reads p s x) :
    Reads (p >>= fun a => pure (f a)) s (f x) := by
  have h := hp.bind (reads_pure (f x) (α := α)) (f := fun a => pure (f a))
  rwa [List.append_nil] at h

theorem Reads.check {f : β → Option γ} {y : γ} (hp : Reads p s x) (hf : f x = some y) :
    Reads (p >>= fun a => StateT.lift (f a)) s y := by
  intro rest
  rw [StateT.run_bind, hp]
  simp [hf]

theorem Reads.numeral {p : Scanner α (List α)} {digit : α → Option Nat} {base v : Nat}
    {ds : List α} (hp : Reads p s ds) (hv : Numeral.Denotes digit base ds v) :
    Reads (numeral digit base p) s v :=
  hp.check (Numeral.scan_eq_some_iff.mpr hv)

theorem Reads.whole_bind {f : β → Scanner α γ} {y : γ} (hp : Reads p s x)
    (hf : Scanner.whole (f x) t = some y) : Scanner.whole (p >>= f) (s ++ t) = some y := by
  rw [← hf, Scanner.whole, StateT.run_bind, hp]
  rfl

end reads

theorem run_many (p : Scanner α β) (s : List α) :
    (many p).run s = (readAll p s.length s).map fun xs => (xs, []) := rfl

theorem readAll_flatMap {p : Scanner α β} {text : ι → List α} {value : ι → β} {is : List ι}
    (h : ∀ i ∈ is, text i ≠ [] ∧ Reads p (text i) (value i)) {n : Nat}
    (hn : (is.flatMap text).length ≤ n) :
    readAll p n (is.flatMap text) = some (is.map value) := by
  induction is generalizing n with
  | nil => cases n <;> rfl
  | cons i is ih =>
      obtain ⟨⟨hne, hreads⟩, hrest⟩ := List.forall_mem_cons.mp h
      obtain ⟨c, s, hcons⟩ := List.exists_cons_of_ne_nil hne
      rw [List.flatMap_cons, hcons, List.cons_append] at hn ⊢
      obtain ⟨m, rfl⟩ := Nat.exists_eq_add_one_of_ne_zero (n := n) (by simp at hn; omega)
      have hrun := hreads (is.flatMap text)
      rw [hcons, List.cons_append] at hrun
      rw [readAll, hrun]
      dsimp only
      rw [ih hrest (by simp at hn ⊢; omega)]
      rfl

theorem whole_many {p : Scanner α β} {text : ι → List α} {value : ι → β} {is : List ι}
    (h : ∀ i ∈ is, text i ≠ [] ∧ Reads p (text i) (value i)) :
    whole (many p) (is.flatMap text) = some (is.map value) := by
  rw [whole, run_many, readAll_flatMap h (Nat.le_refl _)]
  rfl

theorem whole_many_ret {p : Scanner α β} {text : ι → List α} {value : ι → β} {is : List ι}
    (f : List β → γ) (h : ∀ i ∈ is, text i ≠ [] ∧ Reads p (text i) (value i)) :
    whole (many p >>= fun xs => pure (f xs)) (is.flatMap text) = some (f (is.map value)) := by
  rw [whole, StateT.run_bind, run_many, readAll_flatMap h (Nat.le_refl _)]
  rfl

theorem mapM_some {f : ι → Option β} {value : ι → β} {is : List ι}
    (h : ∀ i ∈ is, f i = some (value i)) : is.mapM f = some (is.map value) := by
  induction is with
  | nil => rfl
  | cons i is ih =>
      obtain ⟨hi, hrest⟩ := List.forall_mem_cons.mp h
      rw [List.mapM_cons, hi, ih hrest]
      rfl

end Scanner
