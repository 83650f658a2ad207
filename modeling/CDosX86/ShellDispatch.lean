import CDosX86.ShellExecute
import CDosX86.Tokenize
import Mathlib.Data.List.Find

namespace CDosX86

open Words

-- What a line makes `shell_execute` run, with the arguments that it hands over.
inductive Invocation where
  | c64type (line : List Byte)
  | command (c : Command) (args : List (List Byte))
  deriving DecidableEq

def invocation (line : List Byte) : Option Invocation :=
  if kStrncasecmp line c64typePrefix 8 = 0 then some (.c64type (line.drop 8))
  else
    match tokens line with
    | [] => none
    | name :: args => (lookup name).map fun c => .command c args

-- `line'` is `line` behind `n` more spaces, the letters of its first word in any case.
inductive Respelled (n : Nat) : List Byte → List Byte → Prop
  | mk {spaces w w' rest : List Byte} : (∀ c ∈ spaces, isSpace c = true) →
      (∀ c ∈ w, isSpace c = false) → SameName w w' → (∀ c ∈ rest.head?, isSpace c = true) →
        Respelled n (spaces ++ (w ++ rest)) (List.replicate n space ++ (spaces ++ (w' ++ rest)))

-- A line with C64TYPE and a space at its very start.
def IsC64Type (line : List Byte) : Prop := SameName (line.take 8) c64typePrefix

instance (line : List Byte) : Decidable (IsC64Type line) := inferInstanceAs (Decidable (_ = _))

theorem lower_eq_space_iff : ∀ c : Byte, lower c = lower space ↔ c = space := by
  decide +kernel

theorem c64type_iff (line : List Byte) :
    kStrncasecmp line c64typePrefix 8 = 0 ↔ IsC64Type line :=
  kStrncasecmp_prefix_iff (by decide) line

namespace Kernel

variable {δ : Type} [Ports δ]

-- No command looks at the first token.
def invoke (i : Invocation) (polls : List (Option Byte)) (k : Kernel δ) : Option (Kernel δ) :=
  match i with
  | .c64type line => some (k.onC64 (cmdC64type line))
  | .command c args => k.runCommand c ([] :: args) polls

theorem runCommand_name (c : Command) (name name' : List Byte) (args : List (List Byte))
    (polls : List (Option Byte)) (k : Kernel δ) :
    k.runCommand c (name :: args) polls = k.runCommand c (name' :: args) polls := by
  -- POKE, DUMP and C64MEM look for two arguments, the other commands for one at most.
  cases c <;> first | rfl | rcases args with _ | ⟨_, _ | _⟩ <;> rfl

theorem shellExecute_invocation {line : List Byte} {i : Invocation} (h : invocation line = some i)
    (polls : List (Option Byte)) (k : Kernel δ) : k.shellExecute line polls = k.invoke i polls := by
  rw [invocation] at h
  split at h
  · next htype =>
    cases h
    rw [shellExecute]
    exact if_pos htype
  · next htype =>
    cases htokens : tokens line with
    | nil =>
        rw [htokens] at h
        cases h
    | cons name args =>
        rw [htokens] at h
        dsimp only at h
        cases hlookup : lookup name with
        | none =>
            rw [hlookup] at h
            cases h
        | some c =>
            rw [hlookup] at h
            cases h
            have hcommand : commandOf line = some c := by
              rw [commandOf, if_neg htype, htokens]
              exact hlookup
            rw [shellExecute_command polls k hcommand, htokens]
            exact runCommand_name c name [] args polls k

end Kernel

theorem lookup_congr {a b : List Byte} (h : SameName a b) (ha : 0 ∉ a) : lookup a = lookup b := by
  have hb := h.zero_notMem ha
  have hnames : ∀ c ∈ commandTable, 0 ∉ c.1 := by decide
  have hsame : ∀ c ∈ commandTable,
      decide (kStrcasecmp a c.1 = 0) = decide (kStrcasecmp b c.1 = 0) := by
    intro c hc
    rw [decide_eq_decide, kStrcasecmp_eq_zero_iff ha (hnames c hc),
      kStrcasecmp_eq_zero_iff hb (hnames c hc), SameName, SameName, h]
  rw [lookup, lookup, List.find?_congr hsame]

theorem lookup_c64type {a : List Byte} (h : SameName a (text "C64TYPE")) : lookup a = none := by
  have hzero : 0 ∉ text "C64TYPE" := by decide
  rw [← lookup_congr h.symm hzero]
  decide

theorem isSpace_congr {a b : List Byte} (h : SameName a b) (ha : ∀ c ∈ a, isSpace c = false) :
    ∀ c ∈ b, isSpace c = false := by
  intro c hc
  have hmem : lower c ∈ b.map lower := List.mem_map_of_mem hc
  rw [← h] at hmem
  obtain ⟨d, hd, hlower⟩ := List.mem_map.mp hmem
  refine decide_eq_false fun hspace => ?_
  rw [hspace, lower_eq_space_iff] at hlower
  exact absurd hlower (of_decide_eq_false (ha d hd))

theorem isC64Type_iff (line : List Byte) :
    IsC64Type line ↔ ∃ w rest, line = w ++ space :: rest ∧ SameName w (text "C64TYPE") := by
  constructor
  · intro h
    obtain ⟨w, last, htake, hw, hlast⟩ := List.map_eq_append_iff.mp
      (show (line.take 8).map lower = (text "C64TYPE").map lower ++ [lower space] from h)
    obtain ⟨c, rfl, hc⟩ := List.map_eq_singleton_iff.mp hlast
    obtain rfl := (lower_eq_space_iff c).mp hc
    refine ⟨w, line.drop 8, ?_, hw⟩
    have hline := (List.take_append_drop 8 line).symm
    rwa [htake, List.append_assoc] at hline
  · rintro ⟨w, rest, rfl, hw⟩
    have hlen : w.length = 7 := hw.length_eq
    have htake : (w ++ space :: rest).take 8 = w ++ [space] := by
      rw [List.take_append, hlen, List.take_of_length_le (by omega)]
      rfl
    rw [IsC64Type, htake, SameName, List.map_append, hw]
    rfl

section

variable {spaces w w' rest : List Byte}

theorem tokens_spaced (hspaces : ∀ c ∈ spaces, isSpace c = true)
    (hw : ∀ c ∈ w, isSpace c = false) (hrest : ∀ c ∈ rest.head?, isSpace c = true)
    (hzero : 0 ∉ spaces ++ (w ++ rest)) :
    tokens (spaces ++ (w ++ rest)) =
      if w = [] then (words isSpace rest).take 4 else w :: (words isSpace rest).take 3 := by
  rw [tokens_eq_words hzero, words_append_left hspaces]
  split
  · next hnil => rw [hnil, List.nil_append]
  · next hne => rw [words_word_append hw hne hrest, List.take_succ_cons]

theorem invocation_of_not_c64type {line : List Byte} (h : ¬ IsC64Type line) :
    invocation line = match tokens line with
      | [] => none
      | name :: args => (lookup name).map fun c => .command c args := by
  rw [invocation, if_neg (mt (c64type_iff line).mp h)]

theorem not_isC64Type_space (line : List Byte) : ¬ IsC64Type (space :: line) := by
  intro h
  have hhead : lower space = lower 0x43 := (List.cons_eq_cons.mp h).1
  exact absurd hhead (by decide)

theorem isC64Type_congr {a b : List Byte} (h : SameName a b) : IsC64Type a ↔ IsC64Type b := by
  have hmap : a.map lower = b.map lower := h
  rw [IsC64Type, IsC64Type, SameName, SameName, List.map_take, List.map_take, hmap]

theorem Respelled.not_isC64Type {n : Nat} {line line' : List Byte}
    (h : Respelled (n + 1) line line') : ¬ IsC64Type line' := by
  obtain ⟨-, -, -, -⟩ := h
  exact not_isC64Type_space _

theorem Respelled.sameName {line line' : List Byte} (h : Respelled 0 line line') :
    SameName line line' := by
  obtain @⟨spaces, w, w', rest, -, -, hname, -⟩ := h
  have hmap : w.map lower = w'.map lower := hname
  simp only [SameName, List.map_append, hmap, List.replicate_zero, List.nil_append]

theorem Respelled.zero_notMem {n : Nat} {line line' : List Byte} (h : Respelled n line line')
    (hzero : 0 ∉ line) : 0 ∉ line' := by
  obtain @⟨spaces, w, w', rest, -, -, hname, -⟩ := h
  simp only [List.mem_append, not_or] at hzero
  obtain ⟨hspaces, hw, hrest⟩ := hzero
  have hbefore : 0 ∉ List.replicate n space := fun h =>
    absurd (List.eq_of_mem_replicate h) (by decide)
  exact List.not_mem_append hbefore
    (List.not_mem_append hspaces (List.not_mem_append (hname.zero_notMem hw) hrest))

theorem tokens_respelled (n : Nat) (hspaces : ∀ c ∈ spaces, isSpace c = true)
    (hw : ∀ c ∈ w', isSpace c = false) (hrest : ∀ c ∈ rest.head?, isSpace c = true)
    (hzero : 0 ∉ List.replicate n space ++ (spaces ++ (w' ++ rest))) :
    tokens (List.replicate n space ++ (spaces ++ (w' ++ rest))) =
      if w' = [] then (words isSpace rest).take 4 else w' :: (words isSpace rest).take 3 := by
  have hbefore : ∀ c ∈ List.replicate n space ++ spaces, isSpace c = true := by
    intro c hc
    rcases List.mem_append.mp hc with hc | hc
    · exact decide_eq_true (List.eq_of_mem_replicate hc)
    · exact hspaces c hc
  rw [← List.append_assoc] at hzero ⊢
  exact tokens_spaced hbefore hw hrest hzero

theorem invocation_respelled {n : Nat} {line line' : List Byte} (hzero : 0 ∉ line)
    (h : Respelled n line line') (hline : ¬ IsC64Type line) (hline' : ¬ IsC64Type line') :
    invocation line' = invocation line := by
  have hzero' := h.zero_notMem hzero
  obtain @⟨spaces, w, w', rest, hspaces, hw, hname, hrest⟩ := h
  rw [invocation_of_not_c64type hline, invocation_of_not_c64type hline',
    tokens_spaced hspaces hw hrest hzero,
    tokens_respelled n hspaces (isSpace_congr hname hw) hrest hzero']
  by_cases hne : w = []
  · have hne' : w' = [] := by
      rw [hne] at hname
      exact List.map_eq_nil_iff.mp hname.symm
    rw [if_pos hne, if_pos hne']
  · have hne' : w' ≠ [] := by
      rintro rfl
      exact hne (List.map_eq_nil_iff.mp hname)
    have hzw : 0 ∉ w := fun h => hzero (List.mem_append_right _ (List.mem_append_left _ h))
    rw [if_neg hne, if_neg hne']
    dsimp only
    rw [lookup_congr hname hzw]

theorem IsC64Type.first_word (hspaces : ∀ c ∈ spaces, isSpace c = true)
    (hw : ∀ c ∈ w, isSpace c = false) (hrest : ∀ c ∈ rest.head?, isSpace c = true)
    (h : IsC64Type (spaces ++ (w ++ rest))) : spaces = [] ∧ SameName w (text "C64TYPE") := by
  have hnil : spaces = [] := by
    cases spaces with
    | nil => rfl
    | cons c spaces =>
        obtain rfl := eq_space (hspaces c List.mem_cons_self)
        exact absurd h (not_isC64Type_space _)
  subst hnil
  have hne : w ≠ [] := by
    rintro rfl
    cases rest with
    | nil => exact absurd h (by decide)
    | cons c rest =>
        obtain rfl := eq_space (hrest c rfl)
        exact absurd h (not_isC64Type_space _)
  obtain ⟨w₁, rest₁, hline, hname⟩ := (isC64Type_iff _).mp h
  have hw₁ : ∀ c ∈ w₁, isSpace c = false := isSpace_congr hname.symm (by decide)
  have hne₁ : w₁ ≠ [] := List.ne_nil_of_length_pos (by rw [hname.length_eq]; decide)
  have hwords := congrArg (words isSpace) hline
  rw [List.nil_append, words_word_append hw hne hrest,
    words_word_sep hw₁ hne₁ (show isSpace space = true by decide)] at hwords
  exact ⟨rfl, (List.cons_eq_cons.mp hwords).1 ▸ hname⟩

theorem invocation_c64type {line line' : List Byte} (h : Respelled 0 line line')
    (hline : IsC64Type line) : invocation line' = invocation line := by
  have hline' : IsC64Type line' := (isC64Type_congr h.sameName).mp hline
  rw [invocation, invocation, if_pos ((c64type_iff line).mpr hline),
    if_pos ((c64type_iff line').mpr hline')]
  obtain @⟨spaces, w, w', rest, hspaces, hw, hname, hrest⟩ := h
  obtain ⟨rfl, hword⟩ := hline.first_word hspaces hw hrest
  have hlen : w.length = 7 := hword.length_eq
  have hlen' : w'.length = 7 := hname.length_eq ▸ hlen
  have hdrop : w.drop 8 = [] := List.drop_of_length_le (by omega)
  have hdrop' : w'.drop 8 = [] := List.drop_of_length_le (by omega)
  simp only [List.replicate_zero, List.nil_append, List.drop_append, hlen, hlen',
    hdrop, hdrop']

theorem invocation_displaced {n : Nat} {line line' : List Byte} (hzero : 0 ∉ line)
    (h : Respelled (n + 1) line line') (hline : IsC64Type line) : invocation line' = none := by
  have hzero' := h.zero_notMem hzero
  have hline' := h.not_isC64Type
  obtain @⟨spaces, w, w', rest, hspaces, hw, hname, hrest⟩ := h
  obtain ⟨-, hword⟩ := hline.first_word hspaces hw hrest
  have hword' : SameName w' (text "C64TYPE") := hname.symm.trans hword
  have hne' : w' ≠ [] := List.ne_nil_of_length_pos (by rw [hword'.length_eq]; decide)
  rw [invocation_of_not_c64type hline',
    tokens_respelled (n + 1) hspaces (isSpace_congr hname hw) hrest hzero', if_neg hne']
  dsimp only
  rw [lookup_c64type hword', Option.map_none]

end

theorem command_recognition_iff {line line' : List Byte} {n : Nat} (hzero : 0 ∉ line)
    (h : Respelled n line line') :
    (invocation line' = invocation line ∧
      ∀ (δ : Type) [Ports δ] (polls : List (Option Byte)) (k : Kernel δ),
        (invocation line).isSome → k.shellExecute line' polls = k.shellExecute line polls) ↔
      ¬ (0 < n ∧ IsC64Type line) := by
  constructor
  · rintro ⟨hsame, -⟩ ⟨hn, hline⟩
    obtain ⟨m, rfl⟩ : ∃ m, n = m + 1 := ⟨n - 1, by omega⟩
    rw [invocation_displaced hzero h hline, invocation,
      if_pos ((c64type_iff line).mpr hline)] at hsame
    cases hsame
  · intro hcond
    have hsame : invocation line' = invocation line := by
      by_cases hline : IsC64Type line
      · obtain rfl : n = 0 := by
          by_contra hn
          exact hcond ⟨Nat.pos_of_ne_zero hn, hline⟩
        exact invocation_c64type h hline
      · refine invocation_respelled hzero h hline fun hline' => ?_
        cases n with
        | zero => exact hline ((isC64Type_congr h.sameName).mpr hline')
        | succ n => exact h.not_isC64Type hline'
    refine ⟨hsame, fun δ _ polls k hsome => ?_⟩
    obtain ⟨i, hi⟩ := Option.isSome_iff_exists.mp hsome
    rw [k.shellExecute_invocation hi, k.shellExecute_invocation (hsame.trans hi)]

theorem command_recognition_poke :
    (invocation (text "  pOkE 53280 0") = invocation (text "POKE 53280 0") ∧
      ∀ (δ : Type) [Ports δ] (polls : List (Option Byte)) (k : Kernel δ),
        (invocation (text "POKE 53280 0")).isSome →
          k.shellExecute (text "  pOkE 53280 0") polls =
            k.shellExecute (text "POKE 53280 0") polls) ↔
      ¬ (0 < 2 ∧ IsC64Type (text "POKE 53280 0")) :=
  command_recognition_iff (by decide)
    (@Respelled.mk 2 [] (text "POKE") (text "pOkE") (text " 53280 0")
      (by decide) (by decide) (by decide) (by decide))

theorem command_recognition_c64type :
    Respelled 1 (text "C64TYPE RUN") (text " C64TYPE RUN") ∧
      invocation (text "C64TYPE RUN") = some (.c64type (text "RUN")) ∧
      invocation (text " C64TYPE RUN") = none ∧
      ∀ (δ : Type) [Ports δ] (polls : List (Option Byte)) (k : Kernel δ),
        k.shellExecute (text " C64TYPE RUN") polls =
          some (((k.print (text "Unknown command: ")).print (text "C64TYPE")).putchar newline) := by
  refine ⟨?_, by decide, by decide, ?_⟩
  · exact @Respelled.mk 1 [] (text "C64TYPE") (text "C64TYPE") (text " RUN")
      (by decide) (by decide) rfl (by decide)
  · intro δ _ polls k
    have htokens : tokens (text " C64TYPE RUN") = [text "C64TYPE", text "RUN"] := by decide
    have hlookup : lookup (text "C64TYPE") = none := by decide
    rw [Kernel.shellExecute, if_neg (by decide), htokens]
    dsimp only
    rw [hlookup]

end CDosX86
