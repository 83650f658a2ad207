import CDosX86.PromptInvariant

namespace CDosX86

open Kernel

-- A key that reads the tables, whatever the shift keys are doing.
def characterKey (scancode : Byte) : Bool :=
  scancode ≠ f12Scancode ∧ scancode &&& 0x80 = 0 ∧
    ¬ (scancode = lshiftPress ∨ scancode = rshiftPress) ∧ ¬ scancode ≥ 128

theorem handlerChar_characterKey {scancode : Byte} (h : characterKey scancode = true)
    (kb : Keyboard) :
    kb.handlerChar scancode = ((kb.record scancode).ascii scancode, kb.record scancode) := by
  obtain ⟨hf12, hmake, hshift, hlow⟩ := of_decide_eq_true h
  rw [Keyboard.handlerChar, if_neg hf12, if_neg (not_not.mpr hmake), if_neg hshift, if_neg hlow]

def keysFor (table : List Byte) : Bool :=
  table.length ≤ 256 ∧
    ∀ i < table.length, table.getD i 0 ≠ 0 → characterKey (BitVec.ofNat 8 i) = true

theorem unshifted_keys : keysFor scancodeAscii = true := by decide +kernel

theorem shifted_keys : keysFor scancodeAsciiShift = true := by decide +kernel

theorem key_for {table : List Byte} (h : keysFor table = true) {c : Byte} (hin : c ∈ table)
    (hzero : c ≠ 0) :
    ∃ scancode, characterKey scancode = true ∧ table.getD scancode.toNat 0 = c := by
  obtain ⟨hlength, hkeys⟩ := of_decide_eq_true h
  obtain ⟨i, hi, rfl⟩ := List.getElem_of_mem hin
  have hentry : table.getD i 0 = table[i] := List.getD_eq_getElem table 0 hi
  have hscancode : (BitVec.ofNat 8 i).toNat = i := by
    rw [BitVec.toNat_ofNat]
    exact Nat.mod_eq_of_lt (by omega)
  refine ⟨BitVec.ofNat 8 i, hkeys i hi (by rwa [hentry]), ?_⟩
  rw [hscancode, hentry]

variable {δ : Type} [Ports δ] {h : Hardware δ} {allowed : Command → Prop} {k : Kernel δ}

theorem Serial.silentKey (hk : Serial h allowed .hlt k) {scancode : Byte} {kb : Keyboard}
    (hchar : k.keyboard.handlerChar scancode = (0, kb)) :
    Serial h allowed .hlt { k with keyboard := kb } := by
  refine hk.key scancode [] rfl ?_ ?_
  · simp [entersCommand_none hchar (by decide)]
  · rw [keyboardHandler, hchar]
    exact if_neg (not_not.mpr rfl)

theorem Serial.characterKey (hk : Serial h allowed .hlt k) {scancode c : Byte} {kb : Keyboard}
    (hchar : k.keyboard.handlerChar scancode = (c, kb)) (hc : typeable c = true)
    (hmode : kb.c64ModeActive = false) (hroom : k.lineBuf.length < lineMax - 1) :
    ∃ k', Serial h allowed .hlt k' ∧ k'.lineBuf = k.lineBuf ++ [c] ∧ k'.keyboard = kb ∧
      k'.c64 = k.c64.putchar c := by
  obtain ⟨-, hzero, hnewline, hback⟩ := of_decide_eq_true hc
  have hkey : c ≠ 0x08 := hback
  have hrun : k.keyboardHandler scancode [] =
      some (putchar c { k with keyboard := kb, lineBuf := k.lineBuf ++ [c] }) := by
    rw [keyboardHandler, hchar]
    dsimp only
    rw [if_pos hzero, hmode, if_neg Bool.false_ne_true, shellInputChar, if_neg hnewline,
      if_neg hkey, if_pos hroom]
  have hquiet : ∀ c k₁, k.entersCommand scancode = some (c, k₁) → allowed c := by
    simp [entersCommand_none hchar hnewline]
  exact ⟨_, hk.key scancode [] rfl hquiet hrun, by simp, by simp, rfl⟩

-- A kernel at the prompt with both shift keys up.
structure Unshifted (h : Hardware δ) (allowed : Command → Prop) (k : Kernel δ) : Prop where
  serial : Serial h allowed .hlt k
  shift : k.keyboard.shiftPressed = false
  mode : k.keyboard.c64ModeActive = false

theorem unshifted_booted (h : Hardware δ) (allowed : Command → Prop) :
    Unshifted h allowed (booted h) := by
  refine ⟨serial_booted h allowed, ?_, ?_⟩
  · rw [keyboard_booted]
    rfl
  · rw [keyboard_booted]
    rfl

theorem handlerChar_lshiftPress (kb : Keyboard) : kb.handlerChar lshiftPress =
    (0, { kb.record lshiftPress with shiftPressed := true }) := by
  rw [Keyboard.handlerChar, if_neg (by decide), if_neg (by decide), if_pos (Or.inl rfl)]

theorem handlerChar_lshiftRelease (kb : Keyboard) : kb.handlerChar lshiftRelease =
    (0, { kb.record lshiftRelease with shiftPressed := false }) := by
  rw [Keyboard.handlerChar, if_neg (by decide), if_pos (by decide), if_pos (Or.inl rfl)]

theorem Unshifted.types (hk : Unshifted h allowed k) {c : Byte} (hc : typeable c = true)
    (hroom : k.lineBuf.length < lineMax - 1) :
    ∃ k', Unshifted h allowed k' ∧ k'.lineBuf = k.lineBuf ++ [c] ∧
      k'.c64 = k.c64.putchar c := by
  obtain ⟨hserial, hshift, hmode⟩ := hk
  obtain ⟨hin, hzero, -⟩ := of_decide_eq_true hc
  rcases hin with hin | hin
  · obtain ⟨scancode, hkey, htable⟩ := key_for unshifted_keys hin hzero
    have hchar := handlerChar_characterKey hkey k.keyboard
    have hascii : (k.keyboard.record scancode).ascii scancode = c := by
      rw [Keyboard.ascii, Keyboard.record, hshift, if_neg Bool.false_ne_true, htable]
    rw [hascii] at hchar
    obtain ⟨k', hserial', hline, hkb, hcon⟩ := hserial.characterKey hchar hc hmode hroom
    refine ⟨k', ⟨hserial', ?_, ?_⟩, hline, hcon⟩
    · rw [hkb]
      exact hshift
    · rw [hkb]
      exact hmode
  · obtain ⟨scancode, hkey, htable⟩ := key_for shifted_keys hin hzero
    have hpressed := hserial.silentKey (handlerChar_lshiftPress k.keyboard)
    have hchar := handlerChar_characterKey hkey
      { k.keyboard.record lshiftPress with shiftPressed := true }
    have hascii : (Keyboard.record scancode
        { k.keyboard.record lshiftPress with shiftPressed := true }).ascii scancode = c := by
      rw [Keyboard.ascii, Keyboard.record, if_pos rfl, htable]
    rw [hascii] at hchar
    obtain ⟨k', hserial', hline, hkb, hcon⟩ := hpressed.characterKey hchar hc hmode hroom
    have hreleased := hserial'.silentKey (handlerChar_lshiftRelease k'.keyboard)
    refine ⟨_, ⟨hreleased, rfl, ?_⟩, hline, hcon⟩
    rw [hkb]
    exact hmode

theorem Unshifted.typesLine (hk : Unshifted h allowed k) (line : List Byte)
    (hline : ∀ c ∈ line, typeable c = true) (hroom : k.lineBuf.length + line.length ≤ 127) :
    ∃ k', Unshifted h allowed k' ∧ k'.lineBuf = k.lineBuf ++ line ∧
      k'.c64 = k.c64.print line := by
  induction line generalizing k with
  | nil => exact ⟨k, hk, (List.append_nil _).symm, rfl⟩
  | cons c line ih =>
      rw [List.length_cons] at hroom
      obtain ⟨k₁, hk₁, hfirst, hcon⟩ :=
        hk.types (hline c List.mem_cons_self) (by rw [lineMax]; omega)
      have hroom₁ : k₁.lineBuf.length + line.length ≤ 127 := by
        rw [hfirst, List.length_append, List.length_singleton]
        omega
      obtain ⟨k', hk', hrest, hecho⟩ :=
        ih hk₁ (fun b hb => hline b (List.mem_cons_of_mem c hb)) hroom₁
      refine ⟨k', hk', ?_, ?_⟩
      · rw [hrest, hfirst, List.append_assoc, List.singleton_append]
      · rw [hecho, hcon]
        rfl

theorem Unshifted.command (hk : Unshifted h allowed k) {c : Command}
    (hline : commandOf k.lineBuf = some c) (hc : allowed c) (polls : List (Option Byte))
    {k' : Kernel δ} (hrun : (entered k).runCommand c (tokens k.lineBuf) polls = some k') :
    Serial h allowed .hlt k'.lineDone := by
  obtain ⟨hserial, hshift, hmode⟩ := hk
  have henter := entersCommand_enterKey hshift hmode hline
  refine hserial.key enterKey polls rfl (fun c' k₁ h' => ?_) ?_
  · rw [henter] at h'
    obtain ⟨rfl, -⟩ := Prod.mk.inj (Option.some_inj.mp h')
    exact hc
  · rw [keyboardHandler_enters henter, hrun]
    rfl

theorem prompt_lines_iff (h : Hardware δ) (line : List Byte) :
    (∃ k, Serial h notPoke .hlt k ∧ k.lineBuf = line) ↔
      line.length ≤ 127 ∧ ∀ c ∈ line, typeable c = true := by
  constructor
  · rintro ⟨k, hk, rfl⟩
    have hconsistent := hk.consistent
    exact ⟨hconsistent.length, hconsistent.typed⟩
  · rintro ⟨hlength, htyped⟩
    have hempty : (booted h).lineBuf = [] := (typed_booted h).lineBuf
    have hroom : (booted h).lineBuf.length + line.length ≤ 127 := by
      rw [hempty, List.length_nil, Nat.zero_add]
      exact hlength
    obtain ⟨k, hk, hline, -⟩ := (unshifted_booted h notPoke).typesLine line htyped hroom
    rw [hempty, List.nil_append] at hline
    exact ⟨k, hk.serial, hline⟩

end CDosX86
