import CDosX86.ShellParse
import CDosX86.Words
import Mathlib.Data.List.Forall2

namespace CDosX86

open Words

def isSpace (c : Byte) : Bool := c = space

-- `none` is a read behind the end of `mem`, or a loop that does not stop.
def skipWhile (p : Byte → Bool) (mem : List Byte) : Nat → Nat → Option Nat
  | 0, _ => none
  | fuel + 1, i => do
      if p (← mem[i]?) then skipWhile p mem fuel (i + 1) else return i

-- `tokenize` on the bytes it reads and writes; `room` is what is left of its four tokens.
def tokenizeLoop : Nat → Nat → List Byte → Option (List Nat × List Byte)
  | 0, p, mem => do
      let _ ← mem[p]?
      return ([], mem)
  | room + 1, p, mem => do
      if (← mem[p]?) = 0 then return ([], mem)
      let start ← skipWhile isSpace mem mem.length p
      if (← mem[start]?) = 0 then return ([], mem)
      let stop ← skipWhile inWord mem mem.length start
      let (p, mem) := if (← mem[stop]?) ≠ 0 then (stop + 1, mem.set stop 0) else (stop, mem)
      let (starts, mem) ← tokenizeLoop room p mem
      return (start :: starts, mem)

def tokenizeMem (mem : List Byte) : Option (List Nat × List Byte) := tokenizeLoop 4 0 mem

theorem skipWhile_stops {p : Byte → Bool} {pre run rest : List Byte} {c : Byte} {fuel i : Nat}
    (hrun : ∀ x ∈ run, p x = true) (hc : p c = false) (hi : i = pre.length)
    (hfuel : run.length < fuel) :
    skipWhile p (pre ++ (run ++ c :: rest)) fuel i = some (i + run.length) := by
  induction run generalizing pre fuel i with
  | nil =>
      obtain ⟨fuel, rfl⟩ : ∃ n, fuel = n + 1 := ⟨fuel - 1, by simp at hfuel; omega⟩
      simp [skipWhile, hi, hc]
  | cons x run ih =>
      obtain ⟨fuel, rfl⟩ : ∃ n, fuel = n + 1 := ⟨fuel - 1, by simp at hfuel; omega⟩
      obtain ⟨hx, hrun⟩ := List.forall_mem_cons.mp hrun
      have hnext : skipWhile p (pre ++ [x] ++ (run ++ c :: rest)) fuel (i + 1) =
          some (i + 1 + run.length) :=
        ih hrun (by simp [hi]) (by simpa using hfuel)
      rw [List.append_assoc, List.singleton_append] at hnext
      rw [skipWhile, List.cons_append, hi]
      simp only [List.getElem?_append_right le_rfl, Nat.sub_self, List.getElem?_cons_zero,
        Option.bind_eq_bind, Option.bind_some, hx, if_true]
      rw [← hi, hnext, List.length_cons, Nat.add_right_comm, Nat.add_assoc]

section shapes

variable {spaces w rest : List Byte} {c : Byte}

theorem takeWhile_spaces (h : ∀ x ∈ spaces, isSpace x = true)
    (hrest : ∀ x ∈ rest.head?, isSpace x = false) :
    (spaces ++ rest).takeWhile (· = space) = spaces := by
  change (spaces ++ rest).takeWhile isSpace = spaces
  rw [List.takeWhile_append_of_pos h]
  cases rest with
  | nil => simp
  | cons x rest =>
      have hx : isSpace x = false := hrest x rfl
      rw [List.takeWhile_cons_of_neg (by simp [hx]), List.append_nil]

theorem tokenizeFrom_blank (h : ∀ x ∈ spaces, isSpace x = true) (n p : Nat) :
    tokenizeFrom n p spaces = ([], spaces) := by
  cases n with
  | zero => rfl
  | succ n =>
      have htake : (spaces ++ []).takeWhile (· = space) = spaces := takeWhile_spaces h (by simp)
      rw [List.append_nil] at htake
      rw [tokenizeFrom]
      simp [htake]

theorem inWord_of_mem (hw : ∀ x ∈ w, isSpace x = false) (hzero : 0 ∉ w) :
    ∀ x ∈ w, inWord x = true := by
  intro x hx
  have hne : x ≠ 0 := fun h => hzero (h ▸ hx)
  exact decide_eq_true ⟨hne, of_decide_eq_false (hw x hx)⟩

theorem takeWhile_word (hw : ∀ x ∈ w, isSpace x = false) (hzero : 0 ∉ w)
    (hrest : ∀ x ∈ rest.head?, inWord x = false) : (w ++ rest).takeWhile inWord = w := by
  rw [List.takeWhile_append_of_pos (inWord_of_mem hw hzero)]
  cases rest with
  | nil => simp
  | cons x rest =>
      have hx : inWord x = false := hrest x rfl
      rw [List.takeWhile_cons_of_neg (by simp [hx]), List.append_nil]

theorem head?_word (hw : ∀ x ∈ w, isSpace x = false) (hne : w ≠ []) :
    ∀ x ∈ (w ++ rest).head?, isSpace x = false := by
  cases w with
  | nil => exact absurd rfl hne
  | cons y w =>
      intro x hx
      obtain rfl : y = x := Option.some_inj.mp hx
      exact hw y List.mem_cons_self

theorem tokenizeFrom_last (hspaces : ∀ x ∈ spaces, isSpace x = true)
    (hw : ∀ x ∈ w, isSpace x = false) (hne : w ≠ []) (hzero : 0 ∉ w) (n p : Nat) :
    tokenizeFrom (n + 1) p (spaces ++ w) = ([p + spaces.length], spaces ++ w) := by
  have hhead : ∀ x ∈ (w ++ []).head?, isSpace x = false := head?_word hw hne
  have htake : (w ++ []).takeWhile inWord = w := takeWhile_word hw hzero (by simp)
  rw [List.append_nil] at hhead htake
  rw [tokenizeFrom, takeWhile_spaces hspaces hhead, List.drop_left, htake]
  simp [hne]

theorem tokenizeFrom_more (hspaces : ∀ x ∈ spaces, isSpace x = true)
    (hw : ∀ x ∈ w, isSpace x = false) (hne : w ≠ []) (hzero : 0 ∉ w) (n p : Nat) :
    tokenizeFrom (n + 1) p (spaces ++ (w ++ space :: rest)) =
      let r := tokenizeFrom n (p + spaces.length + w.length + 1) rest
      ((p + spaces.length) :: r.1, spaces ++ (w ++ 0 :: r.2)) := by
  have hstop : ∀ x ∈ (space :: rest).head?, inWord x = false := by
    intro x hx
    obtain rfl : space = x := Option.some_inj.mp hx
    decide
  rw [tokenizeFrom, takeWhile_spaces hspaces (head?_word hw hne), List.drop_left,
    takeWhile_word hw hzero hstop]
  have hafter : (spaces ++ (w ++ space :: rest)).drop (spaces.length + w.length) =
      space :: rest := by
    rw [← List.append_assoc, ← List.length_append, List.drop_left]
  dsimp only
  rw [if_neg hne, hafter]
  exact if_neg (show space ≠ 0 by decide)

theorem read_at {pre : List Byte} {i : Nat} (hi : i = pre.length) :
    (pre ++ c :: rest)[i]? = some c := by
  rw [hi, List.getElem?_append_right le_rfl, Nat.sub_self]
  rfl

theorem tokenizeLoop_end {mem : List Byte} {p : Nat} (h : mem[p]? = some 0) (room : Nat) :
    tokenizeLoop room p mem = some ([], mem) := by
  cases room with
  | zero => simp [tokenizeLoop, h]
  | succ room => simp [tokenizeLoop, h]

theorem tokenizeLoop_blank (hspaces : ∀ x ∈ spaces, isSpace x = true) (room : Nat)
    (pre : List Byte) :
    tokenizeLoop room pre.length (pre ++ (spaces ++ 0 :: rest)) =
      some ([], pre ++ (spaces ++ 0 :: rest)) := by
  have hlast : (pre ++ (spaces ++ 0 :: rest))[pre.length + spaces.length]? = some 0 := by
    rw [← List.append_assoc]
    exact read_at (List.length_append).symm
  have hskip : skipWhile isSpace (pre ++ (spaces ++ 0 :: rest))
      (pre ++ (spaces ++ 0 :: rest)).length pre.length = some (pre.length + spaces.length) :=
    skipWhile_stops hspaces (show isSpace 0 = false by decide) rfl (by simp; omega)
  cases spaces with
  | nil => exact tokenizeLoop_end hlast room
  | cons x spaces =>
      have hfirst : (pre ++ (x :: spaces ++ 0 :: rest))[pre.length]? = some x := read_at rfl
      have hx : x ≠ 0 := by
        rintro rfl
        exact absurd (hspaces 0 List.mem_cons_self) (by decide)
      cases room with
      | zero => simp only [tokenizeLoop, hfirst]; rfl
      | succ room =>
          simp only [tokenizeLoop, hfirst, Option.bind_eq_bind, Option.bind_some, hx, if_false,
            hskip, hlast, if_true]
          rfl

theorem tokenizeLoop_word (hspaces : ∀ x ∈ spaces, isSpace x = true)
    (hw : ∀ x ∈ w, isSpace x = false) (hne : w ≠ []) (hzero : 0 ∉ spaces ++ w)
    (hc : inWord c = false) (room : Nat) {pre mem : List Byte}
    (hmem : mem = pre ++ (spaces ++ (w ++ c :: rest))) :
    tokenizeLoop (room + 1) pre.length mem =
      let stop := pre.length + spaces.length + w.length
      let (p, mem) := if c ≠ 0 then (stop + 1, mem.set stop 0) else (stop, mem)
      (tokenizeLoop room p mem).map fun r => ((pre.length + spaces.length) :: r.1, r.2) := by
  obtain ⟨y, w', rfl⟩ := List.exists_cons_of_ne_nil hne
  obtain ⟨x, text, htext⟩ := List.exists_cons_of_ne_nil
    (show spaces ++ y :: w' ≠ [] by simp)
  have hfirst : mem[pre.length]? = some x := by
    rw [hmem, ← List.append_assoc spaces, htext]
    exact read_at rfl
  have hx : x ≠ 0 := fun h => hzero (by rw [htext, h]; exact List.mem_cons_self)
  have hy : y ≠ 0 := fun h =>
    hzero (by rw [h]; exact List.mem_append_right _ List.mem_cons_self)
  have hskip : skipWhile isSpace mem mem.length pre.length = some (pre.length + spaces.length) := by
    rw [hmem]
    exact skipWhile_stops hspaces (hw y List.mem_cons_self) rfl (by simp; omega)
  have hstart : mem[pre.length + spaces.length]? = some y := by
    rw [hmem, ← List.append_assoc]
    exact read_at (List.length_append).symm
  have hword : skipWhile inWord mem mem.length (pre.length + spaces.length) =
      some (pre.length + spaces.length + (y :: w').length) := by
    have hin := inWord_of_mem hw fun h => hzero (List.mem_append_right _ h)
    rw [hmem, ← List.append_assoc]
    exact skipWhile_stops hin hc (List.length_append).symm (by simp; omega)
  have hstop : mem[pre.length + spaces.length + (y :: w').length]? = some c := by
    rw [hmem, ← List.append_assoc, ← List.append_assoc]
    exact read_at (by simp only [List.length_append])
  simp only [tokenizeLoop, hfirst, Option.bind_eq_bind, Option.bind_some, hx, if_false, hskip,
    hstart, hy, hword, hstop]
  split <;> cases tokenizeLoop room _ _ <;> rfl

end shapes

theorem eq_space {c : Byte} (h : isSpace c = true) : c = space := of_decide_eq_true h

theorem read_first (pre s rest : List Byte) :
    ∃ c, (pre ++ (s ++ 0 :: rest))[pre.length]? = some c := by
  cases s with
  | nil => exact ⟨0, read_at rfl⟩
  | cons c s => exact ⟨c, read_at rfl⟩

theorem tokenizeLoop_zero (pre s rest : List Byte) :
    tokenizeLoop 0 pre.length (pre ++ (s ++ 0 :: rest)) = some ([], pre ++ (s ++ 0 :: rest)) := by
  obtain ⟨c, hc⟩ := read_first pre s rest
  simp only [tokenizeLoop, hc]
  rfl

theorem length_after (pre spaces w : List Byte) :
    pre.length + spaces.length + w.length + 1 = (pre ++ spaces ++ w ++ [0]).length := by
  simp only [List.length_append]
  rfl

section loop

variable {spaces w : List Byte}

theorem tokenizeLoop_last (hspaces : ∀ x ∈ spaces, isSpace x = true)
    (hw : ∀ x ∈ w, isSpace x = false) (hne : w ≠ []) (hzero : 0 ∉ spaces ++ w) (room : Nat)
    (pre rest : List Byte) :
    tokenizeLoop (room + 1) pre.length (pre ++ (spaces ++ w ++ 0 :: rest)) =
      some ([pre.length + spaces.length], pre ++ (spaces ++ w ++ 0 :: rest)) := by
  have hmem : pre ++ (spaces ++ w ++ 0 :: rest) = pre ++ (spaces ++ (w ++ 0 :: rest)) := by
    rw [List.append_assoc spaces]
  have hend : (pre ++ (spaces ++ w ++ 0 :: rest))[pre.length + spaces.length + w.length]? =
      some 0 := by
    rw [hmem, ← List.append_assoc, ← List.append_assoc]
    exact read_at (by simp only [List.length_append])
  rw [tokenizeLoop_word hspaces hw hne hzero (by decide) room hmem]
  dsimp only
  rw [if_neg (not_not.mpr rfl)]
  dsimp only
  rw [tokenizeLoop_end hend]
  rfl

theorem tokenizeLoop_more (hspaces : ∀ x ∈ spaces, isSpace x = true)
    (hw : ∀ x ∈ w, isSpace x = false) (hne : w ≠ []) (hzero : 0 ∉ spaces ++ w) (room : Nat)
    (pre after rest : List Byte) :
    tokenizeLoop (room + 1) pre.length (pre ++ (spaces ++ (w ++ space :: after) ++ 0 :: rest)) =
      (tokenizeLoop room (pre ++ spaces ++ w ++ [0]).length
        (pre ++ spaces ++ w ++ [0] ++ (after ++ 0 :: rest))).map
          fun r => ((pre.length + spaces.length) :: r.1, r.2) := by
  have hmem : pre ++ (spaces ++ (w ++ space :: after) ++ 0 :: rest) =
      pre ++ (spaces ++ (w ++ space :: (after ++ 0 :: rest))) := by simp
  have hstop : pre.length + spaces.length + w.length = (pre ++ spaces ++ w).length := by
    simp only [List.length_append]
  have hset : (pre ++ (spaces ++ (w ++ space :: after) ++ 0 :: rest)).set
      (pre.length + spaces.length + w.length) 0 =
        pre ++ spaces ++ w ++ [0] ++ (after ++ 0 :: rest) := by
    rw [hmem, hstop, ← List.append_assoc, ← List.append_assoc, List.set_append_right _ _ le_rfl,
      Nat.sub_self]
    simp
  rw [tokenizeLoop_word hspaces hw hne hzero (by decide) room hmem]
  dsimp only
  rw [if_pos (by decide)]
  dsimp only
  rw [hset, length_after]

end loop

theorem tokenizeLoop_eq {s : List Byte} (hs : 0 ∉ s) (room : Nat) (pre rest : List Byte) :
    tokenizeLoop room pre.length (pre ++ (s ++ 0 :: rest)) =
      let r := tokenizeFrom room pre.length s
      some (r.1, pre ++ (r.2 ++ 0 :: rest)) := by
  induction spaced isSpace s generalizing room pre with
  | blank hspaces => rw [tokenizeLoop_blank hspaces, tokenizeFrom_blank hspaces]
  | @last spaces w hspaces hw hne =>
      cases room with
      | zero => exact tokenizeLoop_zero pre (spaces ++ w) rest
      | succ room =>
          have hzero : 0 ∉ w := fun h => hs (List.mem_append_right _ h)
          rw [tokenizeLoop_last hspaces hw hne hs, tokenizeFrom_last hspaces hw hne hzero]
  | @more spaces w after c hspaces hw hne hc hafter ih =>
      obtain rfl := eq_space hc
      have hzero : 0 ∉ spaces ++ w ∧ 0 ∉ after := by
        simp only [List.mem_append, List.mem_cons, not_or] at hs ⊢
        exact ⟨⟨hs.1, hs.2.1⟩, hs.2.2.2⟩
      cases room with
      | zero => exact tokenizeLoop_zero pre (spaces ++ (w ++ space :: after)) rest
      | succ room =>
          rw [tokenizeLoop_more hspaces hw hne hzero.1, ih hzero.2,
            tokenizeFrom_more hspaces hw hne fun h => hzero.1 (List.mem_append_right _ h),
            length_after]
          simp

theorem tokenizeMem_eq {s : List Byte} (hs : 0 ∉ s) (rest : List Byte) :
    tokenizeMem (s ++ 0 :: rest) = some ((tokenize s).1, (tokenize s).2 ++ 0 :: rest) :=
  tokenizeLoop_eq hs 4 [] rest

def Blanked (c c' : Byte) : Prop := c' = c ∨ c = space ∧ c' = 0

-- `starts` and `line` are what at most `n` tokens of `s`, which stands at `p`, leave.
structure Tokenized (s : List Byte) (n p : Nat) (starts : List Nat) (line : List Byte) : Prop where
  within : ∀ start ∈ starts, p ≤ start ∧ start ≤ p + s.length
  tokens : starts.map (fun start => cString (line.drop (start - p))) = (words isSpace s).take n
  blanked : List.Forall₂ Blanked s line

theorem blanked_refl (s : List Byte) : List.Forall₂ Blanked s s :=
  List.forall₂_same.mpr fun _ _ => Or.inl rfl

theorem Tokenized.none (s : List Byte) (p : Nat) : Tokenized s 0 p [] s :=
  ⟨by simp, by simp, blanked_refl s⟩

section tokenized

variable {spaces w after : List Byte} {n p : Nat}

theorem Tokenized.blank (hspaces : ∀ x ∈ spaces, isSpace x = true) (n p : Nat) :
    Tokenized spaces n p [] spaces := by
  have hnone := words_append_left hspaces []
  rw [List.append_nil, words_nil] at hnone
  exact ⟨by simp, by simp [hnone], blanked_refl spaces⟩

theorem Tokenized.last (hspaces : ∀ x ∈ spaces, isSpace x = true)
    (hw : ∀ x ∈ w, isSpace x = false) (hne : w ≠ []) (hzero : 0 ∉ w) (n p : Nat) :
    Tokenized (spaces ++ w) (n + 1) p [p + spaces.length] (spaces ++ w) := by
  have hword := words_append_left hspaces w
  rw [words_singleton hw hne] at hword
  refine ⟨by simp, ?_, blanked_refl _⟩
  simp [hword, (cString_eq_self_iff w).mpr hzero]

theorem drop_after {start : Nat} (hstart : p + spaces.length + w.length + 1 ≤ start)
    (line : List Byte) :
    (spaces ++ (w ++ 0 :: line)).drop (start - p) =
      line.drop (start - (p + spaces.length + w.length + 1)) := by
  have hindex : start - p = (spaces ++ w ++ [0]).length +
      (start - (p + spaces.length + w.length + 1)) := by
    simp only [List.length_append, List.length_singleton]
    omega
  have hline : spaces ++ (w ++ 0 :: line) = spaces ++ w ++ [0] ++ line := by simp
  rw [hindex, hline, List.drop_length_add_append]

theorem Tokenized.more {starts : List Nat} {line : List Byte}
    (hspaces : ∀ x ∈ spaces, isSpace x = true) (hw : ∀ x ∈ w, isSpace x = false) (hne : w ≠ [])
    (hzero : 0 ∉ w)
    (h : Tokenized after n (p + spaces.length + w.length + 1) starts line) :
    Tokenized (spaces ++ (w ++ space :: after)) (n + 1) p ((p + spaces.length) :: starts)
      (spaces ++ (w ++ 0 :: line)) := by
  obtain ⟨hwithin, htokens, hblanked⟩ := h
  have hwords := words_append_left hspaces (w ++ space :: after)
  rw [words_word_sep hw hne (show isSpace space = true by decide)] at hwords
  refine ⟨?_, ?_, ?_⟩
  · intro start hstart
    simp only [List.length_append, List.length_cons]
    rcases List.mem_cons.mp hstart with rfl | hstart
    · omega
    · have := hwithin start hstart
      omega
  · have hfirst : cString ((spaces ++ (w ++ 0 :: line)).drop (p + spaces.length - p)) = w := by
      rw [Nat.add_sub_cancel_left, List.drop_left, cString_terminated hzero]
    have hlater : starts.map (fun start => cString ((spaces ++ (w ++ 0 :: line)).drop (start - p))) =
        (words isSpace after).take n := by
      rw [← htokens]
      apply List.map_congr_left
      intro start hstart
      rw [drop_after (hwithin start hstart).1]
    rw [List.map_cons, hfirst, hlater, hwords, List.take_succ_cons]
  · exact List.rel_append (blanked_refl spaces)
      (List.rel_append (blanked_refl w) (.cons (Or.inr ⟨rfl, rfl⟩) hblanked))

end tokenized

theorem tokenized_tokenizeFrom {s : List Byte} (hs : 0 ∉ s) (n p : Nat) :
    Tokenized s n p (tokenizeFrom n p s).1 (tokenizeFrom n p s).2 := by
  induction spaced isSpace s generalizing n p with
  | @blank spaces hspaces =>
      rw [tokenizeFrom_blank hspaces]
      exact .blank hspaces n p
  | @last spaces w hspaces hw hne =>
      have hzero : 0 ∉ w := fun h => hs (List.mem_append_right _ h)
      cases n with
      | zero => exact .none _ p
      | succ n =>
          rw [tokenizeFrom_last hspaces hw hne hzero]
          exact .last hspaces hw hne hzero n p
  | @more spaces w after c hspaces hw hne hc hafter ih =>
      obtain rfl := eq_space hc
      have hzero : 0 ∉ w ∧ 0 ∉ after := by
        simp only [List.mem_append, List.mem_cons, not_or] at hs ⊢
        exact ⟨hs.2.1, hs.2.2.2⟩
      cases n with
      | zero => exact .none _ p
      | succ n =>
          rw [tokenizeFrom_more hspaces hw hne hzero.1]
          exact .more hspaces hw hne hzero.1 (ih hzero.2 n (p + spaces.length + w.length + 1))

theorem tokens_eq_words {s : List Byte} (hs : 0 ∉ s) : tokens s = (words isSpace s).take 4 :=
  (tokenized_tokenizeFrom hs 4 0).tokens

theorem cString_drop_terminated {l : List Byte} {i : Nat} (hi : i ≤ l.length) (rest : List Byte) :
    cString ((l ++ 0 :: rest).drop i) = cString (l.drop i) := by
  rw [List.drop_append_of_le_length hi]
  by_cases hzero : 0 ∈ l.drop i
  · exact cString_append_of_mem hzero _
  · rw [cString_terminated hzero, (cString_eq_self_iff _).mpr hzero]

theorem tokenize_exact {s : List Byte} (hs : 0 ∉ s) : ∃ starts line,
    (∀ rest, tokenizeMem (s ++ 0 :: rest) = some (starts, line ++ 0 :: rest)) ∧
      starts.length = min 4 (words isSpace s).length ∧
      (∀ rest, starts.map (fun start => cString ((line ++ 0 :: rest).drop start)) =
        (words isSpace s).take 4) ∧
      List.Forall₂ Blanked s line := by
  obtain ⟨hwithin, htokens, hblanked⟩ := tokenized_tokenizeFrom hs 4 0
  refine ⟨_, _, tokenizeMem_eq hs, ?_, fun rest => ?_, hblanked⟩
  · have hlen := congrArg List.length htokens
    rwa [List.length_map, List.length_take] at hlen
  · rw [← htokens]
    apply List.map_congr_left
    intro start hstart
    have hle := (hwithin start hstart).2
    rw [Nat.zero_add, hblanked.length_eq] at hle
    exact cString_drop_terminated hle rest

theorem tokenize_exact_poke : ∃ starts line,
    (∀ rest, tokenizeMem (text " POKE  53280 0 1 2" ++ 0 :: rest) =
      some (starts, line ++ 0 :: rest)) ∧
      starts.length = min 4 (words isSpace (text " POKE  53280 0 1 2")).length ∧
      (∀ rest, starts.map (fun start => cString ((line ++ 0 :: rest).drop start)) =
        (words isSpace (text " POKE  53280 0 1 2")).take 4) ∧
      List.Forall₂ Blanked (text " POKE  53280 0 1 2") line :=
  tokenize_exact (by decide)

end CDosX86
