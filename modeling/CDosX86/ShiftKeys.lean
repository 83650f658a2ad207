import CDosX86.Keyboard
import CDosX86.SharedFlag

namespace CDosX86

open SharedFlag

inductive Consumer where
  | handler
  | poll
  deriving DecidableEq, Repr

abbrev Delivery := Consumer × Byte

def shiftKey (key : Byte) : Bool := key = lshiftPress ∨ key = rshiftPress

def keyEvent (scancode : Byte) : Event Byte :=
  if scancode &&& 0x80 = 0 then .make scancode else .brk (scancode &&& 0x7F)

namespace Keyboard

def consume (d : Delivery) (kb : Keyboard) : Byte × Keyboard :=
  match d.1 with
  | .handler => kb.handlerChar d.2
  | .poll => kb.pollChar (some d.2)

def consumeAll (ds : List Delivery) (kb : Keyboard) : Keyboard :=
  ds.foldl (fun kb d => (kb.consume d).2) kb

def shiftAfter (scancode : Byte) (shift : Bool) : Bool :=
  if scancode = lshiftRelease ∨ scancode = rshiftRelease then false
  else if scancode = lshiftPress ∨ scancode = rshiftPress then true
  else shift

theorem shiftAfter_eq : ∀ (scancode : Byte) (shift : Bool),
    shiftAfter scancode shift = SharedFlag.step shiftKey shift (keyEvent scancode) := by
  decide +kernel

theorem shift_consume (d : Delivery) (kb : Keyboard) :
    (kb.consume d).2.shiftPressed =
      SharedFlag.step shiftKey kb.shiftPressed (keyEvent d.2) := by
  obtain ⟨c, scancode⟩ := d
  rw [← shiftAfter_eq, shiftAfter]
  split
  · next h => rcases h with rfl | rfl <;> cases c <;> rfl
  · next hrelease =>
    split
    · next h => rcases h with rfl | rfl <;> cases c <;> rfl
    · next hpress =>
      cases c with
      | handler =>
          simp only [consume, handlerChar, hrelease, hpress, if_false]
          split_ifs <;> rfl
      | poll =>
          simp only [consume, pollChar, hrelease, hpress, if_false]
          split_ifs <;> rfl

end Keyboard

def keyEvents (ds : List Delivery) : List (Event Byte) := ds.map fun d => keyEvent d.2

theorem Keyboard.shift_consumeAll (ds : List Delivery) (kb : Keyboard) :
    (kb.consumeAll ds).shiftPressed =
      (keyEvents ds).foldl (SharedFlag.step shiftKey) kb.shiftPressed := by
  induction ds generalizing kb with
  | nil => rfl
  | cons d ds ih =>
      have htail := ih (kb.consume d).2
      rw [shift_consume] at htail
      exact htail

-- The keys that are down after deliveries that start with none down.
def keysDown (ds : List Delivery) : Byte → Bool := (keyEvents ds).foldl hold fun _ => false

def ShiftHeld (ds : List Delivery) : Prop :=
  keysDown ds lshiftPress = true ∨ keysDown ds rshiftPress = true

instance (ds : List Delivery) : Decidable (ShiftHeld ds) := inferInstanceAs (Decidable (_ ∨ _))

theorem shiftHeld_iff (ds : List Delivery) : ShiftHeld ds ↔ AnyDown shiftKey (keysDown ds) := by
  simp [ShiftHeld, AnyDown, shiftKey, or_and_right, exists_or]

-- One shift key is let go while the other one is down.
def LetsGoOne (down : Byte → Bool) (scancode : Byte) : Prop :=
  scancode = lshiftRelease ∧ down rshiftPress = true ∨
    scancode = rshiftRelease ∧ down lshiftPress = true

instance (down : Byte → Bool) (scancode : Byte) : Decidable (LetsGoOne down scancode) :=
  inferInstanceAs (Decidable (_ ∧ _ ∨ _ ∧ _))

theorem clashes_keyEvent_iff (down : Byte → Bool) (scancode : Byte) :
    Clashes shiftKey down (keyEvent scancode) ↔ LetsGoOne down scancode := by
  have hother : ∀ sc : Byte, sc ≠ lshiftRelease → sc ≠ rshiftRelease → sc &&& 0x80 ≠ 0 →
      shiftKey (sc &&& 0x7F) = false := by
    decide +kernel
  have hkeys : lshiftPress ≠ rshiftPress := by decide
  rcases eq_or_ne scancode lshiftRelease with rfl | hl
  · have hevent : keyEvent lshiftRelease = .brk lshiftPress := by decide
    have hne : lshiftRelease ≠ rshiftRelease := by decide
    rw [hevent]
    simp [Clashes, LetsGoOne, shiftKey, hne, hkeys.symm, or_and_right, and_or_left, exists_or]
  · rcases eq_or_ne scancode rshiftRelease with rfl | hr
    · have hevent : keyEvent rshiftRelease = .brk rshiftPress := by decide
      have hne : rshiftRelease ≠ lshiftRelease := by decide
      rw [hevent]
      simp [Clashes, LetsGoOne, shiftKey, hne, hkeys, or_and_right, and_or_left, exists_or]
    · refine iff_of_false ?_ (by simp [LetsGoOne, hl, hr])
      rw [keyEvent]
      split
      · exact id
      · next hbreak =>
        rintro ⟨hshift, -⟩
        exact absurd (hshift.symm.trans (hother scancode hl hr hbreak)) (by decide)

theorem prefix_keyEvents {ds : List Delivery} {es : List (Event Byte)} :
    es <+: keyEvents ds ↔ ∃ pre, pre <+: ds ∧ es = keyEvents pre :=
  List.prefix_map_iff

def CharacterKey (scancode : Byte) : Prop :=
  scancode < 0x80 ∧ scancode ≠ f12Scancode ∧ scancode ≠ lshiftPress ∧ scancode ≠ rshiftPress

theorem Keyboard.consume_character {d : Delivery} (h : CharacterKey d.2) (kb : Keyboard) :
    (kb.consume d).1 = kb.ascii d.2 := by
  obtain ⟨hlow, hf12, hl, hr⟩ := h
  have hmake : d.2 &&& 0x80 = 0 := by
    revert hlow
    generalize d.2 = sc
    revert sc
    decide +kernel
  have hsmall : ¬ d.2 ≥ 128 := by simpa using hlow
  obtain ⟨c, scancode⟩ := d
  cases c with
  | handler =>
      simp only [consume, handlerChar, hmake, hf12, hl, hr, hsmall]
      rfl
  | poll =>
      simp only [consume, pollChar, hmake, hf12, hl, hr, hsmall]
      rfl

theorem append_prefix_keyEvents {ds : List Delivery} {es : List (Event Byte)} {e : Event Byte}
    (h : es ++ [e] <+: keyEvents ds) :
    ∃ pre d, pre ++ [d] <+: ds ∧ es = keyEvents pre ∧ e = keyEvent d.2 := by
  obtain ⟨all, hall, heq⟩ := prefix_keyEvents.mp h
  obtain ⟨pre, last, rfl, hpre, hlast⟩ := List.map_eq_append_iff.mp heq.symm
  obtain ⟨d, rfl, hd⟩ := List.map_eq_singleton_iff.mp hlast
  exact ⟨pre, d, hall, hpre.symm, hd.symm⟩

-- The flag follows the shift keys through a run, and so does the table that decodes a character.
def TracksShift (kb : Keyboard) (ds : List Delivery) : Prop :=
  ∀ pre, pre <+: ds → ((kb.consumeAll pre).shiftPressed = true ↔ ShiftHeld pre) ∧
    ∀ d, pre ++ [d] <+: ds → CharacterKey d.2 →
      ((kb.consumeAll pre).consume d).1 =
        (if ShiftHeld pre then scancodeAsciiShift else scancodeAscii).getD d.2.toNat 0

theorem tracksShift_of_flag {kb : Keyboard} {ds : List Delivery}
    (h : ∀ pre, pre <+: ds → ((kb.consumeAll pre).shiftPressed = true ↔ ShiftHeld pre)) :
    TracksShift kb ds := by
  intro pre hpre
  refine ⟨h pre hpre, fun d _ hd => ?_⟩
  rw [Keyboard.consume_character hd, Keyboard.ascii]
  simp only [h pre hpre]
  split <;> rfl

theorem tracks_keyEvents_iff (kb : Keyboard) (pre : List Delivery) :
    Tracks shiftKey ((keyEvents pre).foldl hold fun _ => false)
        ((keyEvents pre).foldl (SharedFlag.step shiftKey) kb.shiftPressed) ↔
      ((kb.consumeAll pre).shiftPressed = true ↔ ShiftHeld pre) := by
  rw [← Keyboard.shift_consumeAll, Tracks, shiftHeld_iff]
  rfl

theorem shift_tracks_iff {kb : Keyboard} (h : kb.shiftPressed = false) (ds : List Delivery) :
    TracksShift kb ds ↔
      ∀ pre d, pre ++ [d] <+: ds → ¬ LetsGoOne (keysDown pre) d.2 := by
  have hnone : Tracks shiftKey (fun _ => false) kb.shiftPressed := by
    simp [Tracks, AnyDown, h]
  have hrun := run_tracks_iff hnone (keyEvents ds)
  constructor
  · intro hall pre d hpre
    rw [← clashes_keyEvent_iff]
    refine hrun.mp ?_ (keyEvents pre) (keyEvent d.2) ?_
    · intro es hes
      obtain ⟨pre', hpre', rfl⟩ := prefix_keyEvents.mp hes
      exact (tracks_keyEvents_iff kb pre').mpr (hall pre' hpre').1
    · exact prefix_keyEvents.mpr ⟨pre ++ [d], hpre, by simp [keyEvents]⟩
  · intro hclear
    refine tracksShift_of_flag fun pre hpre => (tracks_keyEvents_iff kb pre).mp ?_
    refine hrun.mpr ?_ _ (prefix_keyEvents.mpr ⟨pre, hpre, rfl⟩)
    intro es e hes
    obtain ⟨pre', d, hpre', rfl, rfl⟩ := append_prefix_keyEvents hes
    exact (clashes_keyEvent_iff _ _).not.mpr (hclear pre' d hpre')

def shiftedA : List Delivery := [(.handler, 0x2A), (.poll, 0x1E), (.poll, 0xAA)]

theorem shift_tracks_shiftedA : TracksShift Keyboard.zero shiftedA := by
  refine (shift_tracks_iff rfl shiftedA).mpr fun pre d hpre => ?_
  rcases pre with _ | ⟨x, _ | ⟨y, _ | ⟨z, rest⟩⟩⟩
  · simp only [shiftedA, List.nil_append, List.cons_prefix_cons] at hpre
    rw [hpre.1]
    decide
  · simp only [shiftedA, List.cons_append, List.nil_append, List.cons_prefix_cons] at hpre
    rw [hpre.1, hpre.2.1]
    decide
  · simp only [shiftedA, List.cons_append, List.nil_append, List.cons_prefix_cons] at hpre
    rw [hpre.1, hpre.2.1, hpre.2.2.1]
    decide
  · simp [shiftedA, List.cons_prefix_cons] at hpre

theorem shift_lost : ¬ ∀ (kb : Keyboard) (ds : List Delivery), kb.shiftPressed = false →
    TracksShift kb ds := by
  intro hclaim
  have hflag := (hclaim Keyboard.zero [(.handler, 0x2A), (.handler, 0x36), (.handler, 0xAA)] rfl
    _ (List.prefix_refl _)).1
  revert hflag
  decide

end CDosX86
