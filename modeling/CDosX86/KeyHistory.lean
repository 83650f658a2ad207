import CDosX86.BootSession
import CDosX86.RomDisk
import CDosX86.Typing

namespace CDosX86

theorem Keyboard.handlerChar_f12 {scancode : Byte} {kb : Keyboard}
    (h : (kb.handlerChar scancode).1 ≠ 0) :
    (kb.handlerChar scancode).2.f12Pressed = kb.f12Pressed := by
  rw [handlerChar] at h ⊢
  split_ifs at h ⊢
  · exact absurd rfl h
  · exact absurd rfl h
  · exact absurd rfl h
  · exact absurd rfl h
  · exact absurd rfl h
  · rfl

namespace Kernel

variable {δ : Type} [Ports δ]

theorem c64Init_running {k : Kernel δ} (h : k.c64Init.1 = 0) :
    k.c64Init.2.c64.cpu.halted = false := by
  rw [c64Init] at h ⊢
  dsimp only at h ⊢
  split_ifs at h ⊢
  · cases h
  · cases h
  · cases h
  · simp only [c64_onC64]
    rfl

theorem bootStart_flags (k : Kernel δ) :
    k.bootStart.2.keyboard = k.keyboard ∧
      k.bootStart.2.c64.exitRequested = k.c64.exitRequested := by
  obtain ⟨hkeyboard, -, hexit⟩ := k.c64Init_undisturbed
  rw [bootStart]
  dsimp only
  split
  · simpa using ⟨hkeyboard, hexit⟩
  · simpa using ⟨hkeyboard, hexit⟩

theorem bootStart_running {k : Kernel δ} (h : k.bootStart.1 = 0) :
    k.bootStart.2.c64.cpu.halted = false := by
  rw [bootStart] at h ⊢
  dsimp only at h ⊢
  split_ifs at h ⊢ with hinit
  · cases h
  · rw [c64_onPic, onConsole_eq, c64_onC64, C64.cpu_onConsole]
    exact c64Init_running (not_not.mp hinit)

-- The loop of `cmd_c64boot` as a delivered scancode starts it, when it does.
def sessionAt (scancode : Byte) (k : Kernel δ) : Option BootState :=
  let (c, kb) := k.keyboard.handlerChar scancode
  if c = newline ∧ kb.c64ModeActive = false ∧ commandOf k.lineBuf = some .c64boot then
    let (r, k) := ({ k with keyboard := kb }.putchar newline).bootStart
    if r = 0 then some k.bootState else none
  else none

theorem sessionAt_flags {scancode : Byte} {k : Kernel δ} {s : BootState}
    (h : k.sessionAt scancode = some s) :
    s.keyboard.f12Pressed = k.keyboard.f12Pressed ∧
      s.c64.exitRequested = k.c64.exitRequested ∧ s.c64.cpu.halted = false := by
  rw [sessionAt] at h
  dsimp only at h
  split_ifs at h with hkey hstart
  have hchar : (k.keyboard.handlerChar scancode).1 ≠ 0 := by
    rw [hkey.1]
    decide
  have hf12 := Keyboard.handlerChar_f12 hchar
  obtain ⟨hkeyboard, hexit⟩ := bootStart_flags
    (putchar newline { k with keyboard := (k.keyboard.handlerChar scancode).2 })
  rw [← Option.some_inj.mp h]
  refine ⟨?_, ?_, bootStart_running hstart⟩
  · rw [bootState, hkeyboard, putchar_eq, keyboard_onC64]
    exact hf12
  · rw [bootState, hexit]
    simp

structure Session (δ : Type) where
  before : Kernel δ
  polls : List (Option Byte)
  start : BootState

def sessionsOf (event : Event) (k : Kernel δ) : List (Session δ) :=
  ((k.sessionAt event.1).map fun s => { before := k, polls := event.2, start := s }).toList

def sessions : List Event → Kernel δ → List (Session δ)
  | [], _ => []
  | event :: events, k =>
      match k.keyboardHandler event.1 event.2 with
      | some k' => sessionsOf event k ++ sessions events k'
      | none => sessionsOf event k

theorem mem_sessions {history : List Event} {k : Kernel δ} {σ : Session δ}
    (h : σ ∈ sessions history k) : ∃ scancode, σ.before.sessionAt scancode = some σ.start := by
  have hone : ∀ (event : Event) (k : Kernel δ), σ ∈ sessionsOf event k →
      ∃ scancode, σ.before.sessionAt scancode = some σ.start := by
    intro event k hmem
    rw [sessionsOf, Option.mem_toList, Option.map_eq_some_iff] at hmem
    obtain ⟨s, hs, rfl⟩ := hmem
    exact ⟨event.1, hs⟩
  induction history generalizing k with
  | nil => cases h
  | cons event history ih =>
      rw [sessions] at h
      split at h
      · next k' hrun =>
        rcases List.mem_append.mp h with hnow | hlater
        · exact hone event k hnow
        · exact ih hlater
      · exact hone event k h

theorem sessions_append {events : List Event} {k k' : Kernel δ} (hrun : k.runKeys events = some k')
    (later : List Event) {σ : Session δ} (hσ : σ ∈ sessions later k') :
    σ ∈ sessions (events ++ later) k := by
  induction events generalizing k with
  | nil =>
      rw [runKeys, Option.some_inj] at hrun
      rwa [hrun]
  | cons event events ih =>
      obtain ⟨k₁, hone, hrun⟩ := runKeys_cons hrun
      rw [List.cons_append, sessions, hone]
      exact List.mem_append_right _ (ih hrun)

theorem Typed.session {k₀ k : Kernel δ} {line : List Byte} (h : Typed k₀ k line)
    (hcommand : commandOf line = some .c64boot)
    (hinit : ∀ k : Kernel δ, k.dev = k₀.dev → k.c64Init.1 = 0) {scancode : Byte}
    (hkey : Types scancode newline) : ∃ s, k.sessionAt scancode = some s := by
  have hmode : (k.keyboard.record scancode).c64ModeActive = false := h.toShell
  have hok := hinit (putchar newline { k with keyboard := k.keyboard.record scancode })
    (by simpa using h.dev)
  have hstart : (putchar newline { k with keyboard := k.keyboard.record scancode }).bootStart.1 =
      0 := by
    rw [bootStart]
    dsimp only
    rw [if_neg (not_not.mpr hok)]
  rw [sessionAt, hkey.handlerChar h.unshifted]
  dsimp only
  rw [if_pos ⟨rfl, hmode, by rw [h.lineBuf]; exact hcommand⟩, if_pos hstart]
  exact ⟨_, rfl⟩

theorem Typed.f12 {k : Kernel δ} (h : Typed k k []) (polls : List (Option Byte)) :
    ∃ k', k.keyboardHandler f12Scancode polls = some k' ∧ Typed k' k' [] ∧
      k'.keyboard.f12Pressed = true ∧ k'.dev = k.dev := by
  have hrun : k.keyboardHandler f12Scancode polls = some
      { k with keyboard := { k.keyboard.record f12Scancode with f12Pressed := true } } := rfl
  exact ⟨_, hrun, ⟨h.lineBuf, h.unshifted, h.toShell, rfl, rfl, rfl⟩, rfl, rfl⟩

def c64bootKeys : List (Byte × Byte) :=
  [(0x2E, 0x63), (0x07, 0x36), (0x05, 0x34), (0x30, 0x62), (0x18, 0x6F), (0x18, 0x6F),
    (0x14, 0x74)]

theorem stale_f12 {h : Hardware δ}
    (hinit : ∀ k : Kernel δ, k.dev = (booted h).dev → k.c64Init.1 = 0) :
    ∃ history, ∃ σ ∈ sessions history (booted h),
      σ.polls = [none] ∧ σ.before.keyboard.f12Pressed = true := by
  obtain ⟨k, hf12, hk, hpressed, hdev⟩ := (typed_booted h).f12 []
  obtain ⟨k', hrun, hk'⟩ := hk.keys c64bootKeys (by decide) (by decide)
  obtain ⟨s, hs⟩ := hk'.session (by decide) (hdev ▸ hinit) (show Types 0x1C newline by decide)
  have hall : (booted h).runKeys
      ((f12Scancode, []) :: c64bootKeys.map fun p => (p.1, [])) = some k' := by
    rw [runKeys, hf12]
    exact hrun
  have hlast : (⟨k', [none], s⟩ : Session δ) ∈ sessions [(0x1C, [none])] k' := by
    have hhere : (⟨k', [none], s⟩ : Session δ) ∈ sessionsOf (0x1C, [none]) k' := by
      rw [sessionsOf, hs]
      exact List.mem_singleton_self _
    rw [sessions]
    split
    · exact List.mem_append_left _ hhere
    · exact hhere
  exact ⟨_, _, sessions_append hall _ hlast, rfl, hk'.f12Pressed.trans hpressed⟩

theorem sessions_end_for_own_reason_iff (history : List Event) (k : Kernel δ) :
    (∀ σ ∈ sessions history k, EndsForOwnReason σ.polls σ.start) ↔
      ∀ σ ∈ sessions history k,
        NoStaleKey σ.polls σ.before.keyboard.f12Pressed σ.before.c64.exitRequested := by
  refine forall₂_congr fun σ hσ => ?_
  obtain ⟨scancode, hs⟩ := mem_sessions hσ
  obtain ⟨hf12, hexit, hrunning⟩ := sessionAt_flags hs
  rw [endsForOwnReason_iff hrunning, hf12, hexit]

theorem session_ends_by_old_key : ¬ ∀ (h : Hardware IdealDrive) (history : List Event),
    ∀ σ ∈ sessions history (booted h), EndsForOwnReason σ.polls σ.start := by
  intro hclaim
  obtain ⟨img, hbuilt⟩ := built_romFiles
  have hinit : ∀ k : Kernel IdealDrive, k.dev = CDosX86.ataInit (IdealDrive.holding img) →
      k.c64Init.1 = 0 := by
    intro k hk
    refine c64Init_romFiles (IdealDrive.drive_reads ((img.length + 511) / 512)) hbuilt ?_ ?_
    · rw [hk]
      exact ⟨rfl, rfl⟩
    · rw [hk]
      exact IdealDrive.holding_holds img
  obtain ⟨history, σ, hσ, hpolls, hstale⟩ :=
    stale_f12 (h := Hardware.plain (IdealDrive.holding img)) (by rwa [dev_booted])
  have hkeys := (endsForOwnReason_iff (sessionAt_flags (mem_sessions hσ).choose_spec).2.2 _).mp
    (hclaim _ history σ hσ)
  rw [hpolls, (sessionAt_flags (mem_sessions hσ).choose_spec).1] at hkeys
  exact absurd ((hkeys none [] rfl).1 hstale) (by decide)

end Kernel

end CDosX86
