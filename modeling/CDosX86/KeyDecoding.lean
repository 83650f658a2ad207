import CDosX86.ShiftKeys
import CDosX86.StateMonad

namespace CDosX86

open SharedFlag StateMonad

-- All that the next character depends on, and the flag that F12 sets.
structure Decoder where
  shift : Bool
  f12 : Bool
  deriving DecidableEq, Repr

namespace Decoder

def ascii (scancode : Byte) (s : Decoder) : Byte :=
  (if s.shift then scancodeAsciiShift else scancodeAscii).getD scancode.toNat 0

-- The character that a key event gives; 0 stands for none.
def decode : Event Byte → StateM Decoder Byte
  | .make key => fun s =>
      if shiftKey key then (0, { s with shift := true })
      else if key = f12Scancode then (0, { s with f12 := true })
      else (s.ascii key, s)
  | .brk key => fun s => (0, if shiftKey key then { s with shift := false } else s)

def decodeAll (es : List (Event Byte)) : StateM Decoder (List Byte) := do
  return (← es.mapM decode).filter (· ≠ 0)

end Decoder

namespace Keyboard

def decoder (kb : Keyboard) : Decoder where
  shift := kb.shiftPressed
  f12 := kb.f12Pressed

theorem decoder_ascii (scancode : Byte) (kb : Keyboard) :
    kb.ascii scancode = kb.decoder.ascii scancode := by
  rw [ascii, Decoder.ascii]
  change _ = (if kb.shiftPressed then _ else _ : List Byte).getD scancode.toNat 0
  split <;> rfl

end Keyboard

theorem make_lt : ∀ scancode : Byte, scancode &&& 0x80 = 0 → ¬ scancode ≥ 128 := by
  decide +kernel

theorem shiftRelease_iff : ∀ scancode : Byte, scancode &&& 0x80 ≠ 0 →
    ((scancode = lshiftRelease ∨ scancode = rshiftRelease) ↔
      shiftKey (scancode &&& 0x7F) = true) := by
  decide +kernel

theorem shiftPress_iff (scancode : Byte) :
    (scancode = lshiftPress ∨ scancode = rshiftPress) ↔ shiftKey scancode = true := by
  simp [shiftKey]

theorem decode_break {scancode : Byte} (h : scancode &&& 0x80 ≠ 0) (s : Decoder) :
    Decoder.decode (keyEvent scancode) s =
      (0, if scancode = lshiftRelease ∨ scancode = rshiftRelease then { s with shift := false }
        else s) := by
  rw [keyEvent, if_neg h, Decoder.decode]
  simp only [shiftRelease_iff scancode h]

theorem decode_make {scancode : Byte} (h : scancode &&& 0x80 = 0) (s : Decoder) :
    Decoder.decode (keyEvent scancode) s =
      if scancode = lshiftPress ∨ scancode = rshiftPress then (0, { s with shift := true })
      else if scancode = f12Scancode then (0, { s with f12 := true })
      else (s.ascii scancode, s) := by
  rw [keyEvent, if_pos h, Decoder.decode]
  simp only [shiftPress_iff scancode]

theorem sim_handlerChar (scancode : Byte) :
    Simulates Keyboard.decoder (Keyboard.handlerChar scancode)
      (Decoder.decode (keyEvent scancode)) := by
  intro kb
  rw [Keyboard.handlerChar]
  by_cases hmake : scancode &&& 0x80 = 0
  · rw [decode_make hmake, if_neg (not_not.mpr hmake), if_neg (make_lt scancode hmake)]
    by_cases hf12 : scancode = f12Scancode
    · -- The handler tests F12 before the shift keys, the polling function after them.
      have hshift : ¬ (f12Scancode = lshiftPress ∨ f12Scancode = rshiftPress) := by decide
      rw [if_pos hf12, if_pos hf12, hf12, if_neg hshift]
      exact ⟨rfl, rfl⟩
    · rw [if_neg hf12, if_neg hf12]
      split
      · exact ⟨rfl, rfl⟩
      · exact ⟨Keyboard.decoder_ascii scancode (kb.record scancode), rfl⟩
  · have hf12 : scancode ≠ f12Scancode := fun h => hmake (h ▸ by decide)
    rw [decode_break hmake, if_neg hf12, if_pos hmake]
    split
    · exact ⟨rfl, rfl⟩
    · exact ⟨rfl, rfl⟩

theorem sim_pollChar (scancode : Byte) :
    Simulates Keyboard.decoder (Keyboard.pollChar (some scancode))
      (Decoder.decode (keyEvent scancode)) := by
  intro kb
  rw [Keyboard.pollChar]
  by_cases hmake : scancode &&& 0x80 = 0
  · rw [decode_make hmake, if_neg (not_not.mpr hmake), if_neg (make_lt scancode hmake)]
    split_ifs
    · exact ⟨rfl, rfl⟩
    · exact ⟨rfl, rfl⟩
    · exact ⟨Keyboard.decoder_ascii scancode kb, rfl⟩
  · rw [decode_break hmake, if_pos hmake]
    split
    · exact ⟨rfl, rfl⟩
    · exact ⟨rfl, rfl⟩

theorem sim_consume (d : Delivery) :
    Simulates Keyboard.decoder (Keyboard.consume d) (Decoder.decode (keyEvent d.2)) := by
  obtain ⟨c, scancode⟩ := d
  cases c with
  | handler => exact sim_handlerChar scancode
  | poll => exact sim_pollChar scancode

def characters (ds : List Delivery) : StateM Keyboard (List Byte) := do
  return (← ds.mapM Keyboard.consume).filter (· ≠ 0)

theorem sim_characters (ds : List Delivery) :
    Simulates Keyboard.decoder (characters ds) (Decoder.decodeAll (keyEvents ds)) :=
  sim_bind (sim_mapM sim_consume ds) fun cs => sim_pure (cs.filter (· ≠ 0))

theorem paths_decode_alike (kb : Keyboard) (ds : List Delivery) :
    let mixed := characters ds kb
    let handled := characters (ds.map fun d => (.handler, d.2)) kb
    mixed.1 = handled.1 ∧ mixed.2.shiftPressed = handled.2.shiftPressed ∧
      mixed.2.f12Pressed = handled.2.f12Pressed := by
  have hevents : keyEvents (ds.map fun d => (.handler, d.2)) = keyEvents ds := by
    simp [keyEvents]
  obtain ⟨hmixed, hstate⟩ := sim_characters ds kb
  obtain ⟨hhandled, hstate'⟩ := sim_characters (ds.map fun d => (.handler, d.2)) kb
  rw [hevents] at hhandled hstate'
  have hdecoder := hstate.trans hstate'.symm
  exact ⟨hmixed.trans hhandled.symm, congrArg Decoder.shift hdecoder,
    congrArg Decoder.f12 hdecoder⟩

end CDosX86
