import CDosX86.Printing
import CDosX86.RingBuffer
import CDosX86.Shell

namespace CDosX86

open CyclicList

namespace Keyboard

def handleAll (scancodes : List Byte) (kb : Keyboard) : Keyboard :=
  scancodes.foldl (fun kb scancode => (kb.handlerChar scancode).2) kb

instance historyLen_neZero : NeZero 64 := ⟨by decide⟩

def ring (kb : Keyboard) : RingBuffer 64 Byte where
  slot := kb.scancodeHistory
  next := historySlot kb.scancodeHistoryPos

def Recorded (scancodes : List Byte) (kb : Keyboard) : Prop :=
  kb.ring.Records 0 scancodes ∧ kb.scancodeHistoryPos = scancodes.length

theorem recorded_zero : zero.Recorded [] := ⟨.of_const fun _ => rfl, rfl⟩

theorem ring_record (scancode : Byte) (kb : Keyboard) :
    (kb.record scancode).ring = kb.ring.push scancode := by
  have hnext : historySlot (kb.scancodeHistoryPos + 1) =
      Fin.ofNat 64 (historySlot kb.scancodeHistoryPos + 1) := by
    apply Fin.ext
    change (kb.scancodeHistoryPos + 1) % 64 = (kb.scancodeHistoryPos % 64 + 1) % 64
    omega
  rw [ring, record, hnext]
  rfl

theorem recorded_handlerChar {scancodes : List Byte} {kb : Keyboard} (h : kb.Recorded scancodes)
    (scancode : Byte) : (kb.handlerChar scancode).2.Recorded (scancodes ++ [scancode]) := by
  have hrecord : (kb.record scancode).Recorded (scancodes ++ [scancode]) := by
    refine ⟨?_, ?_⟩
    · rw [ring_record]
      exact h.1.push scancode
    · rw [List.length_append, List.length_singleton, ← h.2]
      rfl
  rw [handlerChar]
  split_ifs <;> exact hrecord

theorem recorded_handleAll {before : List Byte} {kb : Keyboard} (h : kb.Recorded before)
    (scancodes : List Byte) : (kb.handleAll scancodes).Recorded (before ++ scancodes) := by
  induction scancodes generalizing before kb with
  | nil => rwa [List.append_nil]
  | cons scancode scancodes ih =>
      have hrest := ih (recorded_handlerChar h scancode)
      rwa [List.append_assoc] at hrest

def kbdstatText (values : List Byte) (kb : Keyboard) : List Byte :=
  text "Handler calls: " ++ decText kb.handlerCallCount ++ text "\nLast scancode: $" ++
    hexText (kb.lastScancode.setWidth 32) ++ text "\nRecent history (oldest to newest): " ++
      values.flatMap (fun v => hexText (v.setWidth 32) ++ [space]) ++ [newline]

theorem map_history (kb : Keyboard) : (List.range 64).map kb.history = kb.ring.listing := by
  apply List.ext_getElem
  · simp [RingBuffer.listing]
  · intro i hi hi'
    have hlt : i < 64 := by simpa using hi
    simp only [RingBuffer.listing, List.getElem_map, List.getElem_range, List.getElem_ofFn]
    exact congrArg kb.scancodeHistory (Fin.ext (Nat.mod_eq_of_lt hlt))

theorem cmdKbdstat_eq (kb : Keyboard) (k : Console) :
    cmdKbdstat kb k = k.print (kbdstatText ((List.range 64).map kb.history) kb) := by
  have hbody : (fun i (k : Console) => (k.printHex ((kb.history i).setWidth 32)).putchar space) =
      fun i k => k.print (hexText ((kb.history i).setWidth 32) ++ [space]) := by
    funext i k
    rw [Console.print_append, Console.printHex_eq_print]
    rfl
  rw [cmdKbdstat, hbody, Console.upto_print]
  simp only [kbdstatText, Console.print_append, Console.printDec_eq_print,
    Console.printHex_eq_print, List.flatMap_map]
  rfl

end Keyboard

-- What the heading of KBDSTAT promises of the scancodes handled.
def recentHistory (scancodes : List Byte) : List Byte := (scancodes.rtake 64).rightpad 64 0

theorem recentHistory_of_short {scancodes : List Byte} (h : scancodes.length ≤ 64) :
    recentHistory scancodes = scancodes.rightpad 64 0 := by
  rw [recentHistory, List.rtake, Nat.sub_eq_zero_of_le h, List.drop_zero]

theorem recentHistory_of_full {scancodes : List Byte} (h : 64 ≤ scancodes.length) :
    recentHistory scancodes = scancodes.rtake 64 := by
  have hlen : (scancodes.rtake 64).length = 64 := by
    rw [List.rtake, List.length_drop]
    omega
  rw [recentHistory, List.rightpad, hlen, Nat.sub_self, List.replicate_zero, List.append_nil]

def kbdstatValues (scancodes : List Byte) : List Byte :=
  (List.range 64).map (Keyboard.zero.handleAll scancodes).history

theorem kbdstatValues_eq_iff (scancodes : List Byte) :
    kbdstatValues scancodes = recentHistory scancodes ↔
      scancodes.length ≤ 64 ∨ Repeats (Nat.gcd scancodes.length 64) (scancodes.rtake 64) := by
  obtain ⟨hrecords, hpos⟩ := Keyboard.recorded_handleAll Keyboard.recorded_zero scancodes
  rw [List.nil_append] at hrecords hpos
  have hnext : ((Keyboard.zero.handleAll scancodes).ring.next : Nat) = scancodes.length % 64 :=
    congrArg (· % 64) hpos
  rw [kbdstatValues, Keyboard.map_history]
  rcases Nat.le_total scancodes.length 64 with hshort | hfull
  · rw [recentHistory_of_short hshort, RingBuffer.listing_of_short hrecords hnext hshort]
    exact iff_of_true rfl (Or.inl hshort)
  · rw [recentHistory_of_full hfull, RingBuffer.listing_eq_iff hrecords hnext hfull]
    constructor
    · exact Or.inr
    · rintro (hshort | hrepeats)
      · have hlen : scancodes.length = 64 := le_antisymm hshort hfull
        intro i hi
        rw [hlen, Nat.gcd_self, List.rtake, List.length_drop, hlen] at hi
        omega
      · exact hrepeats

theorem kbdstat_in_order_iff (scancodes : List Byte) :
    (∀ k, cmdKbdstat (Keyboard.zero.handleAll scancodes) k =
      k.print ((Keyboard.zero.handleAll scancodes).kbdstatText (kbdstatValues scancodes))) ∧
    (kbdstatValues scancodes = recentHistory scancodes ↔
      scancodes.length ≤ 64 ∨ Repeats (Nat.gcd scancodes.length 64) (scancodes.rtake 64)) :=
  ⟨Keyboard.cmdKbdstat_eq _, kbdstatValues_eq_iff scancodes⟩

-- The key A goes down and up 32 times and down once more: the last scancode is printed first.
def wrappedOnce : List Byte := (List.replicate 32 [0x1E, 0x9E]).flatten ++ [0x1E]

theorem kbdstat_out_of_order :
    (kbdstatValues wrappedOnce).head? = some 0x1E ∧
      (recentHistory wrappedOnce).head? = some 0x9E ∧
      kbdstatValues wrappedOnce ≠ recentHistory wrappedOnce := by
  have hprinted : (kbdstatValues wrappedOnce).head? = some 0x1E := by decide
  have holdest : (recentHistory wrappedOnce).head? = some 0x9E := by decide
  refine ⟨hprinted, holdest, fun hsame => ?_⟩
  rw [hsame, holdest] at hprinted
  exact absurd hprinted (by decide)

end CDosX86
