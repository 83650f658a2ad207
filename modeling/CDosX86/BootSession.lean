import CDosX86.C64Boot

namespace CDosX86

def escScancode : Byte := 0x01

namespace Keyboard

theorem ascii_eq_escape (scancode : Byte) (kb : Keyboard) :
    kb.ascii scancode = escape ↔ scancode = escScancode := by
  have hplain : ∀ c : Byte, scancodeAscii.getD c.toNat 0 = escape ↔ c = escScancode := by
    decide +kernel
  have hshift : ∀ c : Byte, scancodeAsciiShift.getD c.toNat 0 = escape ↔ c = escScancode := by
    decide +kernel
  unfold ascii
  split
  · exact hshift scancode
  · exact hplain scancode

theorem pollChar_f12 (waiting : Option Byte) (kb : Keyboard) :
    (kb.pollChar waiting).2.f12Pressed = (kb.f12Pressed || waiting = some f12Scancode) := by
  cases waiting with
  | none => simp [pollChar]
  | some scancode =>
      by_cases hf12 : scancode = f12Scancode
      · rw [hf12]
        simp [pollChar, f12Scancode, lshiftPress, rshiftPress]
      · rw [pollChar]
        split_ifs <;> simp [hf12]

theorem pollChar_eq_escape (waiting : Option Byte) (kb : Keyboard) :
    (kb.pollChar waiting).1 = escape ↔ waiting = some escScancode := by
  cases waiting with
  | none => simp [pollChar, escape]
  | some scancode =>
      rw [Option.some_inj]
      by_cases hesc : scancode = escScancode
      · rw [hesc]
        have hchar := (ascii_eq_escape escScancode kb).mpr rfl
        simp [pollChar, escScancode, lshiftPress, rshiftPress, f12Scancode] at hchar ⊢
        exact hchar
      · have hchar := mt (ascii_eq_escape scancode kb).mp hesc
        have hzero : (0 : Byte) ≠ escape := by decide
        refine iff_of_false ?_ hesc
        rw [pollChar]
        split_ifs
        · exact hzero
        · exact hzero
        · exact hzero
        · exact hzero
        · exact hzero
        · exact hchar

end Keyboard

theorem exitRequested_bootBatch (n : Nat) (k : C64) :
    (bootBatch n k).2.exitRequested = k.exitRequested := by
  induction n generalizing k with
  | zero => rfl
  | succ n ih =>
      rw [bootBatch]
      split
      · rfl
      · exact ih k.step

theorem bootRun_flags (s : BootState) :
    (bootRun s).keyboard = s.keyboard ∧ (bootRun s).c64.exitRequested = s.c64.exitRequested := by
  have hbatch := exitRequested_bootBatch batchSteps s.c64
  rw [bootRun]
  dsimp only
  split
  · exact ⟨rfl, hbatch⟩
  · exact ⟨rfl, hbatch⟩

theorem bootPoll_flags (waiting : Option Byte) (s : BootState) :
    (bootPoll waiting s).2.keyboard.f12Pressed =
        (s.keyboard.f12Pressed || waiting = some f12Scancode) ∧
      (bootPoll waiting s).2.c64.exitRequested =
        (s.c64.exitRequested || waiting = some escScancode) := by
  refine ⟨s.keyboard.pollChar_f12 waiting, ?_⟩
  have hesc := s.keyboard.pollChar_eq_escape waiting
  rw [bootPoll]
  dsimp only
  split
  · rw [C64.exitRequested_injectKey]
    simp only [hesc]
  · next hzero =>
    have hne : ¬ waiting = some escScancode := by
      rw [← hesc, not_not.mp hzero]
      decide
    simp [hne]

structure Checked (f12 esc : Bool) (r : Option BootExit × BootState) : Prop where
  exit : r.1 = if f12 then some .f12 else if esc then some .exitRequested else none
  f12Pressed : r.2.keyboard.f12Pressed = false
  exitRequested : f12 = false → r.2.c64.exitRequested = false

theorem bootCheck_checked (s : BootState) :
    Checked s.keyboard.f12Pressed s.c64.exitRequested (bootCheck s) := by
  rw [bootCheck, Keyboard.f12WasPressed]
  cases hf12 : s.keyboard.f12Pressed with
  | true => exact ⟨rfl, rfl, fun h => absurd h (by decide)⟩
  | false =>
      cases hesc : s.c64.exitRequested with
      | true => simpa [C64.exitWasRequested, hesc] using ⟨rfl, hf12, fun _ => rfl⟩
      | false => simpa [C64.exitWasRequested, hesc] using ⟨rfl, hf12, fun _ => hesc⟩

theorem bootRound_checked (waiting : Option Byte) (s : BootState) :
    Checked (s.keyboard.f12Pressed || waiting = some f12Scancode)
      (s.c64.exitRequested || waiting = some escScancode) (bootRound waiting s) := by
  obtain ⟨hkeyboard, hexit⟩ := bootRun_flags s
  obtain ⟨hf12, hesc⟩ := bootPoll_flags waiting (bootRun s)
  rw [hkeyboard] at hf12
  rw [hexit] at hesc
  rw [← hf12, ← hesc]
  exact bootCheck_checked _

theorem bootRound_f12 (s : BootState) : ∃ b, bootRound (some f12Scancode) s = (some .f12, b) := by
  have hexit := (bootRound_checked (some f12Scancode) s).exit
  rw [decide_eq_true rfl, Bool.or_true, if_pos rfl] at hexit
  exact ⟨_, Prod.ext hexit rfl⟩

theorem round_goes_on {waiting : Option Byte} {s s' : BootState}
    (h : bootRound waiting s = (none, s')) :
    s'.keyboard.f12Pressed = false ∧ s'.c64.exitRequested = false := by
  obtain ⟨hexit, hf12, hesc⟩ := bootRound_checked waiting s
  rw [h] at hexit hf12 hesc
  refine ⟨hf12, hesc ?_⟩
  by_contra hpressed
  rw [Bool.not_eq_false] at hpressed
  rw [if_pos hpressed] at hexit
  cases hexit

-- The characters that the polls of a session give, one a round.
def polled : List (Option Byte) → Keyboard → List Byte
  | [], _ => []
  | waiting :: polls, kb => (kb.pollChar waiting).1 :: polled polls (kb.pollChar waiting).2

theorem escape_mem_polled (polls : List (Option Byte)) (kb : Keyboard) :
    escape ∈ polled polls kb ↔ some escScancode ∈ polls := by
  induction polls generalizing kb with
  | nil => simp [polled]
  | cons waiting polls ih =>
      rw [polled, List.mem_cons, List.mem_cons, ih, eq_comm (a := escape),
        eq_comm (a := some escScancode), kb.pollChar_eq_escape]

def Own (seen : List (Option Byte)) (start : Keyboard) (last : BootState) : BootExit → Prop
  | .f12 => some f12Scancode ∈ seen
  | .exitRequested => escape ∈ polled seen start
  | .halted => last.c64.cpu.halted = true

def EndsForOwnReason (polls : List (Option Byte)) (s : BootState) : Prop :=
  ∀ e rest s', bootLoop polls s = some (e, rest, s') →
    ∃ seen, polls = seen ++ rest ∧ Own seen s.keyboard s' e

def NoStaleKey (polls : List (Option Byte)) (f12Pressed exitRequested : Bool) : Prop :=
  ∀ waiting rest, polls = waiting :: rest →
    (f12Pressed = true → waiting = some f12Scancode) ∧
      (exitRequested = true → waiting = some f12Scancode ∨ waiting = some escScancode)

theorem Own.later {seen : List (Option Byte)} {start start' : Keyboard} {last : BootState}
    {e : BootExit} (h : Own seen start last e) (waiting : Option Byte) :
    Own (waiting :: seen) start' last e := by
  cases e with
  | f12 => exact List.mem_cons_of_mem _ h
  | exitRequested =>
      rw [Own, escape_mem_polled] at h ⊢
      exact List.mem_cons_of_mem _ h
  | halted => exact h

theorem own_round {waiting : Option Byte} {s : BootState}
    (hf12 : s.keyboard.f12Pressed = true → waiting = some f12Scancode)
    (hesc : s.c64.exitRequested = true →
      waiting = some f12Scancode ∨ waiting = some escScancode) {e : BootExit}
    (h : (bootRound waiting s).1 = some e) (start : Keyboard) (last : BootState) :
    Own [waiting] start last e := by
  have hchecked := (bootRound_checked waiting s).exit
  rw [h] at hchecked
  by_cases hpressed : (s.keyboard.f12Pressed || waiting = some f12Scancode) = true
  · rw [if_pos hpressed, Option.some_inj] at hchecked
    rw [hchecked, Own, List.mem_singleton]
    simp only [Bool.or_eq_true, decide_eq_true_eq] at hpressed
    rcases hpressed with hstale | hnow
    · exact (hf12 hstale).symm
    · exact hnow.symm
  · rw [if_neg hpressed] at hchecked
    split at hchecked
    · next hrequested =>
      rw [Option.some_inj] at hchecked
      rw [hchecked, Own, escape_mem_polled, List.mem_singleton]
      simp only [Bool.or_eq_true, decide_eq_true_eq, not_or] at hrequested hpressed
      rcases hrequested with hstale | hnow
      · exact ((hesc hstale).resolve_left hpressed.2).symm
      · exact hnow.symm
    · cases hchecked

theorem endsForOwnReason_nil (s : BootState) : EndsForOwnReason [] s := by
  intro e rest s' hloop
  cases bootLoop_iff.mp hloop with
  | halted hhalted => exact ⟨[], rfl, hhalted⟩

theorem endsForOwnReason_cons {waiting : Option Byte} {polls : List (Option Byte)} {s : BootState}
    (hround : ∀ e, (bootRound waiting s).1 = some e → ∀ last, Own [waiting] s.keyboard last e)
    (hrest : ∀ s₁, bootRound waiting s = (none, s₁) → EndsForOwnReason polls s₁) :
    EndsForOwnReason (waiting :: polls) s := by
  intro e rest s' hloop
  cases bootLoop_iff.mp hloop with
  | halted hhalted => exact ⟨[], rfl, hhalted⟩
  | exit _ hends => exact ⟨[waiting], rfl, hround e (by rw [hends]) s'⟩
  | @round _ _ _ _ s₁ _ _ _ hgoes hlater =>
      obtain ⟨seen, rfl, hown⟩ := hrest s₁ hgoes e rest s' (bootLoop_iff.mpr hlater)
      exact ⟨waiting :: seen, rfl, hown.later waiting⟩

theorem clean_session {polls : List (Option Byte)} {s : BootState}
    (hf12 : s.keyboard.f12Pressed = false) (hesc : s.c64.exitRequested = false) :
    EndsForOwnReason polls s := by
  induction polls generalizing s with
  | nil => exact endsForOwnReason_nil s
  | cons waiting polls ih =>
      refine endsForOwnReason_cons (fun e he last => own_round ?_ ?_ he s.keyboard last) ?_
      · simp [hf12]
      · simp [hesc]
      · intro s₁ hround
        obtain ⟨hf12', hesc'⟩ := round_goes_on hround
        exact ih hf12' hesc'

theorem EndsForOwnReason.first_round {waiting : Option Byte} {rest : List (Option Byte)}
    {s : BootState} (h : EndsForOwnReason (waiting :: rest) s) (hrunning : s.c64.cpu.halted = false)
    {e : BootExit} (he : (bootRound waiting s).1 = some e) :
    ∃ last, Own [waiting] s.keyboard last e := by
  have hround : bootRound waiting s = (some e, (bootRound waiting s).2) := Prod.ext he rfl
  obtain ⟨seen, hseen, hown⟩ := h e rest _ (bootLoop_iff.mpr (.exit hrunning hround))
  have hone : seen = [waiting] := List.append_cancel_right hseen.symm
  rw [hone] at hown
  exact ⟨_, hown⟩

theorem EndsForOwnReason.noStaleKey {polls : List (Option Byte)} {s : BootState}
    (h : EndsForOwnReason polls s) (hrunning : s.c64.cpu.halted = false) :
    NoStaleKey polls s.keyboard.f12Pressed s.c64.exitRequested := by
  rintro waiting rest rfl
  have hround := (bootRound_checked waiting s).exit
  have hf12 : s.keyboard.f12Pressed = true → waiting = some f12Scancode := by
    intro hstale
    rw [hstale, Bool.true_or, if_pos rfl] at hround
    obtain ⟨last, hown⟩ := h.first_round hrunning hround
    exact (List.mem_singleton.mp hown).symm
  refine ⟨hf12, fun hstale => ?_⟩
  by_cases hpressed : (s.keyboard.f12Pressed || waiting = some f12Scancode) = true
  · left
    simp only [Bool.or_eq_true, decide_eq_true_eq] at hpressed
    exact hpressed.elim hf12 id
  · right
    rw [if_neg hpressed, hstale, Bool.true_or, if_pos rfl] at hround
    obtain ⟨last, hown⟩ := h.first_round hrunning hround
    rw [Own, escape_mem_polled] at hown
    exact (List.mem_singleton.mp hown).symm

theorem NoStaleKey.endsForOwnReason {polls : List (Option Byte)} {s : BootState}
    (h : NoStaleKey polls s.keyboard.f12Pressed s.c64.exitRequested) : EndsForOwnReason polls s := by
  cases polls with
  | nil => exact endsForOwnReason_nil s
  | cons waiting polls =>
      obtain ⟨hf12, hesc⟩ := h waiting polls rfl
      refine endsForOwnReason_cons (fun e he last => own_round hf12 hesc he s.keyboard last) ?_
      intro s₁ hround
      obtain ⟨hf12', hesc'⟩ := round_goes_on hround
      exact clean_session hf12' hesc'

theorem endsForOwnReason_iff {s : BootState} (hrunning : s.c64.cpu.halted = false)
    (polls : List (Option Byte)) :
    EndsForOwnReason polls s ↔ NoStaleKey polls s.keyboard.f12Pressed s.c64.exitRequested :=
  ⟨fun h => h.noStaleKey hrunning, fun h => h.endsForOwnReason⟩

end CDosX86
