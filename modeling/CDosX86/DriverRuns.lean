import CDosX86.DiskSafety
import CDosX86.PromptInvariant
import CDosX86.SectorProtocol

namespace CDosX86

open Relation Kernel

section

variable {δ : Type} [Ports δ]

-- The calls of the driver that the kernel makes: DISKTEST alone writes, and to sector 0.
inductive SectorCall : δ → δ → Prop
  | read (lba : Lba) (buffer : Buffer) (d : δ) : SectorCall d (ataReadSector lba buffer d).2.2
  | write (d : δ) : SectorCall d (ataWriteSector 0 testPattern d).2

abbrev SectorCalls : δ → δ → Prop := ReflTransGen SectorCall

theorem fsMount_calls (fs : Fs) (d : δ) : SectorCalls d (fsMount fs d).2.2 := by
  have hread := ReflTransGen.single (SectorCall.read 0 unwritten d)
  rw [fsMount]
  dsimp only
  split_ifs
  · exact hread
  · exact hread
  · exact hread

theorem readSectors_calls (entry : FsEntry) (maxLen : BitVec 32) (n : Nat) (i copied : BitVec 32)
    (buffer : Buffer) (d : δ) :
    SectorCalls d (readSectors entry maxLen n i copied buffer d).2.2 := by
  induction n generalizing i copied buffer d with
  | zero => exact .refl
  | succ n ih =>
      have hread := SectorCall.read (entry.startLba + i) unwritten d
      rw [readSectors]
      dsimp only
      split_ifs
      · exact .single hread
      · exact .single hread
      · exact .head hread (ih _ _ _ _)

theorem fsReadFile_calls (entry : FsEntry) (buffer : Buffer) (maxLen : BitVec 32) (d : δ) :
    SectorCalls d (fsReadFile entry buffer maxLen d).2.2 :=
  readSectors_calls entry maxLen _ 0 0 buffer d

namespace Kernel

variable {k k' : Kernel δ}

theorem mount_calls (k : Kernel δ) : SectorCalls k.dev k.mount.2.dev := fsMount_calls k.fs k.dev

theorem loadRom_calls (filename : List Byte) (loadAddr : Word) (size : BitVec 32)
    (k : Kernel δ) : SectorCalls k.dev (k.loadRom filename loadAddr size).2.dev := by
  have hread (entry : FsEntry) := fsReadFile_calls entry unwritten 8192 k.dev
  have hcases := loadRom_cases filename loadAddr size k
  generalize k.loadRom filename loadAddr size = out at hcases
  cases hcases with
  | missing s _ =>
      simp only [print_eq, dev_onC64]
      exact .refl
  | wrongSize s _ _ =>
      simp only [print_eq, dev_onC64]
      exact .refl
  | @readFailed s entry _ _ _ =>
      simp only [print_eq, dev_onC64]
      exact hread entry
  | @stored s entry buffer d _ _ hfile =>
      have hcalls := hread entry
      rw [hfile] at hcalls
      simp only [print_eq, dev_onC64]
      exact hcalls

theorem c64Init_calls (k : Kernel δ) : SectorCalls k.dev k.c64Init.2.dev := by
  have hmount := mount_calls k
  have hkernal := hmount.trans (loadRom_calls kernalRom kernalRomAddr kernalRomSize k.mount.2)
  have hbasic := hkernal.trans (loadRom_calls basicRom basicRomAddr basicRomSize _)
  rw [c64Init]
  dsimp only
  split_ifs
  · simpa using hmount
  · exact hkernal
  · exact hbasic
  · simpa [resetVector] using hbasic

theorem cmdDir_calls (k : Kernel δ) : SectorCalls k.dev k.cmdDir.dev := by
  have hmount := mount_calls k
  rw [cmdDir]
  dsimp only
  split
  · simpa using hmount
  · simpa using hmount

theorem cmdType_calls (tokens : List (List Byte)) (k : Kernel δ) :
    SectorCalls k.dev (k.cmdType tokens).dev := by
  have hmount := mount_calls k
  obtain ⟨s, heq⟩ | ⟨s, heq⟩ | ⟨entry, s, heq⟩ := cmdType_cases tokens k
  · rw [heq]
    simp only [print_eq, dev_onC64]
    exact .refl
  · simpa [heq] using hmount
  · simpa [heq] using hmount.trans (fsReadFile_calls entry unwritten 512 k.mount.2.dev)

theorem cmdDisktest_calls (k : Kernel δ) : SectorCalls k.dev k.cmdDisktest.dev := by
  have hwrite := SectorCall.write k.dev
  have hread := SectorCall.read 0 (fun _ => 0) (ataWriteSector 0 testPattern k.dev).2
  rw [cmdDisktest]
  dsimp only
  split_ifs
  · simpa using ReflTransGen.single hwrite
  · simpa using (ReflTransGen.single hwrite).tail hread
  · simpa using (ReflTransGen.single hwrite).tail hread
  · simpa using (ReflTransGen.single hwrite).tail hread

theorem bootStart_calls (k : Kernel δ) : SectorCalls k.dev k.bootStart.2.dev := by
  have hinit := c64Init_calls k
  rw [bootStart]
  dsimp only
  split
  · simpa using hinit
  · simpa using hinit

theorem runCommand_calls {c : Command} {tokens : List (List Byte)} {polls : List (Option Byte)}
    (hrun : k.runCommand c tokens polls = some k') : SectorCalls k.dev k'.dev := by
  cases c with
  | c64boot =>
      obtain ⟨-, rfl⟩ | ⟨e, rest, s, -, rfl⟩ := cmdC64boot_cases hrun
      · exact bootStart_calls k
      · rw [bootEnd_dev]
        exact bootStart_calls k
  | dir =>
      cases hrun
      exact cmdDir_calls k
  | type =>
      cases hrun
      exact cmdType_calls tokens k
  | disktest =>
      cases hrun
      exact cmdDisktest_calls k
  | _ =>
      have hdev : k'.dev = k.dev := by
        rw [runCommand, Option.some_inj] at hrun
        rw [← hrun]
        simp [cmdPoke_dev, cmdC64resume_dev]
      rw [hdev]

theorem shellInputChar_dev {c : Byte} {polls : List (Option Byte)}
    (hline : c = newline → commandOf k.lineBuf = none)
    (hrun : k.shellInputChar c polls = some k') : k'.dev = k.dev := by
  rw [shellInputChar] at hrun
  split_ifs at hrun with hnewline
  · split at hrun
    · next k₁ hexec =>
      have hdone : k₁.dev = (k.putchar newline).dev := by
        obtain rfl | rfl | ⟨s, rfl⟩ | ⟨command, hcommand, -⟩ := shellExecute_cases hexec
        · rw [dev_onC64]
        · rfl
        · rw [print_eq, dev_onC64]
        · rw [hline hnewline] at hcommand
          cases hcommand
      cases hrun
      simpa [shellPrompt] using hdone
    · cases hrun
  · cases hrun
    simp
  · cases hrun
    rfl
  · cases hrun
    simp
  · cases hrun
    rfl

omit [Ports δ] in
theorem dev_entersCommand {scancode : Byte} {c : Command}
    (h : k.entersCommand scancode = some (c, k')) : k'.dev = k.dev := by
  rw [entersCommand] at h
  dsimp only at h
  split_ifs at h
  obtain ⟨c', -, heq⟩ := Option.map_eq_some_iff.mp h
  obtain ⟨-, rfl⟩ := Prod.mk.inj heq
  simp

omit [Ports δ] in
theorem dev_lineDone (k : Kernel δ) : k.lineDone.dev = k.dev := by
  simp [lineDone, shellPrompt]

-- A key comes to the device through a command alone.
theorem keyboardHandler_dev {scancode : Byte} {polls : List (Option Byte)}
    (hrun : k.keyboardHandler scancode polls = some k') :
    k'.dev = k.dev ∨ ∃ c k₁ k₂, k.entersCommand scancode = some (c, k₁) ∧ k₁.dev = k.dev ∧
      k₁.runCommand c (tokens k.lineBuf) polls = some k₂ ∧ k'.dev = k₂.dev := by
  cases henter : k.entersCommand scancode with
  | some entered =>
      obtain ⟨c, k₁⟩ := entered
      rw [keyboardHandler_enters henter] at hrun
      obtain ⟨k₂, hcommand, rfl⟩ := Option.map_eq_some_iff.mp hrun
      exact Or.inr ⟨c, k₁, k₂, rfl, dev_entersCommand henter, hcommand, dev_lineDone k₂⟩
  | none =>
      refine Or.inl ?_
      rw [entersCommand] at henter
      dsimp only at henter
      rw [keyboardHandler] at hrun
      dsimp only at hrun
      split at hrun
      · split at hrun
        · cases hrun
          rw [dev_onC64]
        · next hmode =>
          refine shellInputChar_dev
            (k := { k with keyboard := (k.keyboard.handlerChar scancode).2 })
            (fun hnewline => ?_) hrun
          rw [if_pos ⟨hnewline, by simpa using hmode⟩] at henter
          exact Option.map_eq_none_iff.mp henter
      · cases hrun
        rfl

theorem keyboardHandler_calls {scancode : Byte} {polls : List (Option Byte)}
    (hrun : k.keyboardHandler scancode polls = some k') : SectorCalls k.dev k'.dev := by
  obtain hsame | ⟨c, k₁, k₂, -, hdev, hcommand, hdone⟩ := keyboardHandler_dev hrun
  · rw [hsame]
  · rw [hdone, ← hdev]
    exact runCommand_calls hcommand

theorem main_calls (p : MainPoint) (k : Kernel δ) :
    (p.run k).dev = CDosX86.ataInit k.dev ∨ (p.run k).dev = k.dev := by
  cases p with
  | ataInit => exact Or.inl rfl
  | consoleInit => exact Or.inr (by simp [MainPoint.run])
  | printReady => exact Or.inr (by simp [MainPoint.run, printReady])
  | shellInit => exact Or.inr (by simp [MainPoint.run, Kernel.shellInit, shellPrompt])
  | _ => exact Or.inr rfl

end Kernel

-- What the driver does in one call, from the first access to the last.
inductive DriverItem : List Access → Prop
  | init : DriverItem [.outb ataDriveHead 0xE0, .outb 0x80 0]
  | read {lba : Lba} {buffer buffer' : Buffer} {r : Int} {log : List Access} :
      ReadLog lba buffer r buffer' log → DriverItem log
  | write {r : Int} {log : List Access} : WriteLog 0 testPattern r log → DriverItem log

omit [Ports δ] in
theorem DriverItem.length_le {log : List Access} (h : DriverItem log) :
    log.length ≤ 2 * pollTimeout + 263 := by
  cases h with
  | init =>
      simp only [List.length_cons, List.length_nil]
      omega
  | read h =>
      cases h with
      | refused hpolls | sector hpolls hlen =>
          have hle := hpolls.length_le
          simp only [selectLog, statusLog, List.length_append, List.length_map, List.length_cons,
            List.length_nil, *]
          omega
  | write h =>
      cases h with
      | refused hpolls =>
          have hle := hpolls.length_le
          simp only [selectLog, statusLog, List.length_append, List.length_map, List.length_cons,
            List.length_nil]
          omega
      | sector hpolls hflush =>
          have hle := hpolls.length_le
          have hle' := hflush.length_le
          simp only [selectLog, statusLog, List.length_append, List.length_map, List.length_cons,
            List.length_nil, List.length_range]
          omega

def Logged (w w' : Recorder δ) : Prop :=
  ∃ items : List (List Access), w'.log = w.log ++ items.flatten ∧ ∀ log ∈ items, DriverItem log

namespace Logged

variable {w w' w'' : Recorder δ}

omit [Ports δ] in
theorem refl (w : Recorder δ) : Logged w w := ⟨[], (List.append_nil _).symm, nofun⟩

omit [Ports δ] in
theorem item (h : Logged w w') {log : List Access} (hlog : w''.log = w'.log ++ log)
    (hitem : DriverItem log) : Logged w w'' := by
  obtain ⟨items, hitems, hall⟩ := h
  refine ⟨items ++ [log], ?_, ?_⟩
  · rw [hlog, hitems, List.flatten_append, List.append_assoc, List.flatten_singleton]
  · intro l hl
    rcases List.mem_append.mp hl with hl | hl
    · exact hall l hl
    · rw [List.mem_singleton.mp hl]
      exact hitem

theorem calls (h : Logged w w') (hcalls : SectorCalls w' w'') : Logged w w'' := by
  induction hcalls with
  | refl => exact h
  | @tail w₁ _ _ hcall ih =>
      cases hcall with
      | read lba buffer =>
          obtain ⟨log, hlog, hread⟩ := ataReadSector_protocol lba buffer w₁
          exact ih.item hlog (.read hread)
      | write =>
          obtain ⟨log, hlog, hwrite⟩ := ataWriteSector_protocol 0 testPattern w₁
          exact ih.item hlog (.write hwrite)

end Logged

theorem serial_logged {h : Hardware (Recorder δ)} {allowed : Command → Prop} {p : MainPoint}
    {k : Kernel (Recorder δ)} (hk : Serial h allowed p k) : Logged h.dev k.dev := by
  induction hk with
  | start => exact .refl _
  | @main p k _ ih =>
      obtain hinit | hsame := main_calls p k
      · refine ih.item ?_ .init
        rw [hinit]
        exact List.append_assoc _ [_] [_]
      · rwa [hsame]
  | key _ _ _ _ _ hrun ih => exact ih.calls (keyboardHandler_calls hrun)

theorem driver_calls_complete {h : Hardware (Recorder δ)} {p : MainPoint}
    {k : Kernel (Recorder δ)} (hk : Serial h notPoke p k) :
    ∃ items : List (List Access), k.dev.log = h.dev.log ++ items.flatten ∧
      ∀ log ∈ items, DriverItem log ∧ log.length ≤ 2 * pollTimeout + 263 := by
  obtain ⟨items, hlog, hall⟩ := serial_logged hk
  exact ⟨items, hlog, fun log hmem => ⟨hall log hmem, (hall log hmem).length_le⟩⟩

-- A drive of one sector, recorded.
def recordedDrive : Recorder IdealDrive := ⟨IdealDrive.holding (List.replicate 512 0), []⟩

-- DIR reads the sector: six writes that select it, one status, and 256 words.
theorem driver_calls_complete_dir :
    ∃ k : Kernel (Recorder IdealDrive),
      (booted (Hardware.plain recordedDrive)).runKeys (dirKeys ++ [(0x1C, [])]) = some k ∧
      (∃ items : List (List Access), k.dev.log = [] ++ items.flatten ∧
        ∀ log ∈ items, DriverItem log ∧ log.length ≤ 2 * pollTimeout + 263) ∧
      k.dev.log.length = 2 + (6 + 1 + 256) := by
  have hrun : ((booted (Hardware.plain recordedDrive)).runKeys (dirKeys ++ [(0x1C, [])])).map
      (fun k => k.dev.log.length) = some (2 + (6 + 1 + 256)) := by decide +kernel
  obtain ⟨k, hkeys, hlength⟩ := Option.map_eq_some_iff.mp hrun
  exact ⟨k, hkeys, driver_calls_complete (serial_typed (by decide +kernel) hkeys), hlength⟩

end

end CDosX86
