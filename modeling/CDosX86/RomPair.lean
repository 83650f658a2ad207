import CDosX86.ProperRoms

namespace CDosX86

open Kernel BuildDisk IdealDrive

structure RomPair where
  kernal : List Byte
  basic : List Byte
  kernal_size : kernal.length = 8192
  basic_size : basic.length = 8192

namespace RomPair

variable (r : RomPair)

def directory : Directory where
  listdir := [{ basicFile with contents := r.basic }, { kernalFile with contents := r.kernal }]
  distinct := romFiles.distinct

def basicEntry : DiskEntry where
  name := basicFile.name
  startLba := 1
  length := 8192
  contents := r.basic

def kernalEntry : DiskEntry where
  name := kernalFile.name
  startLba := 17
  length := 8192
  contents := r.kernal

theorem files_directory :
    files r.directory =
      [{ basicFile with contents := r.basic }, { kernalFile with contents := r.kernal }] := rfl

theorem entries_directory :
    entriesFrom 1 (files r.directory) = [r.basicEntry, r.kernalEntry] := by
  rw [files_directory, entriesFrom, entriesFrom, entriesFrom]
  simp only [r.basic_size, r.kernal_size]
  rfl

theorem built : ∃ img, Built r.directory 1 img := by
  refine ⟨_, by simp [files_directory], ?_, ?_, ?_, rfl⟩
  · rw [files_directory]
    intro f hf
    simp only [List.mem_cons, List.not_mem_nil, or_false] at hf
    rcases hf with rfl | rfl <;> exact Nat.le_of_ble_eq_true rfl
  · simp only [files_directory, endLba, List.map_cons, List.map_nil, r.basic_size, r.kernal_size]
    decide
  · rw [entries_directory]
    intro e he
    simp only [List.mem_cons, List.not_mem_nil, or_false] at he
    rcases he with rfl | rfl
    · exact ⟨show ∀ c ∈ basicFile.name, c < 128 by decide, show 1 < 2 ^ 32 by decide,
        show 8192 < 2 ^ 32 by decide⟩
    · exact ⟨show ∀ c ∈ kernalFile.name, c < 128 by decide, show 17 < 2 ^ 32 by decide,
        show 8192 < 2 ^ 32 by decide⟩

theorem first_kernal : firstNamed r.directory kernalRom = some r.kernalEntry := by
  rw [firstNamed, entries_directory]
  rfl

theorem first_basic : firstNamed r.directory basicRom = some r.basicEntry := by
  rw [firstNamed, entries_directory]
  rfl

variable {r} {img : List Byte}

theorem mounted (hbuilt : Built r.directory 1 img) :
    (holdingKernel img).mount.1 = 0 ∧
      Mounted (entriesFrom 1 (files r.directory)) (holdingKernel img).mount.2.fs ∧
      (drive ((img.length + 511) / 512)).idle (holdingKernel img).mount.2.dev ∧
      (drive ((img.length + 511) / 512)).Holds (holdingKernel img).mount.2.dev img := by
  obtain ⟨fs, d, hmount, hm, hd, hdisk⟩ := fsMount_built (drive_reads _) hbuilt (holding_idle img)
    (holding_holds img) Fs.zero
  have hk : (holdingKernel img).mount = (0, { holdingKernel img with fs := fs, dev := d }) := by
    rw [mount, show fsMount (holdingKernel img).fs (holdingKernel img).dev = (0, fs, d) from hmount]
  rw [hk]
  refine ⟨rfl, hm, hd, ?_⟩
  rw [Drive.Holds, hdisk]
  exact holding_holds img

theorem properDisk (hbuilt : Built r.directory 1 img) :
    ProperDisk (holdingKernel img).dev r.kernal r.basic := by
  obtain ⟨hmount, hm, hd, himg⟩ := mounted hbuilt
  have hkernal : RomOn kernalRom (holdingKernel img).mount.2 r.kernal :=
    romOn_built (drive_reads _) (by decide) hbuilt hm hd himg (by decide) r.first_kernal rfl
  obtain ⟨-, hfs, hd', himg'⟩ := loadRom_built (drive_reads _) (by decide) hbuilt hm hd himg
    (by decide) r.first_kernal rfl kernalRomAddr
  have hbasic : RomOn basicRom (holdingKernel img).kernalLoaded r.basic :=
    romOn_built (drive_reads _) (by decide) hbuilt (hfs ▸ hm) hd' himg' (by decide) r.first_basic
      rfl
  exact properDisk_iff.mpr ⟨hmount, hkernal, hbasic⟩

-- ROMs of zeros, but for the reset vector.
def resetAt (hi lo : Byte) : RomPair where
  kernal := List.replicate 0x1FFC (0 : Byte) ++ [lo, hi, 0, 0]
  basic := List.replicate 8192 0
  kernal_size := by rw [List.length_append, List.length_replicate]; rfl
  basic_size := List.length_replicate

theorem kernal_resetAt (hi lo : Byte) (i : Nat) :
    (resetAt hi lo).kernal.getD (0x1FFC + i) 0 = [lo, hi, 0, 0].getD i 0 := by
  rw [resetAt, List.getD_append_right _ _ _ _ (by rw [List.length_replicate]; omega),
    List.length_replicate,
    Nat.add_sub_cancel_left]

theorem resetAt_loads {hi lo : Byte} (hbuilt : Built (resetAt hi lo).directory 1 img) :
    (holdingKernel img).c64Init.1 = 0 ∧ (holdingKernel img).c64Init.2.c64.cpu.pc = hi ++ lo ∧
      (holdingKernel img).c64Init.2.c64.mem.ram 0xFFFF = 0 ∧
      ∀ a : Word, a < 0xA000 → (holdingKernel img).c64Init.2.c64.mem.ram a = 0 := by
  obtain ⟨hinit, hloaded⟩ := ProperDisk.loads (properDisk hbuilt)
  refine ⟨hinit, ?_, ?_, fun a ha => hloaded.elsewhere a (Or.inl ha)⟩
  · rw [hloaded.cpu, kernal_resetAt hi lo 1, kernal_resetAt hi lo 0]
    rfl
  · have hbyte := hloaded.kernal_stored 0x1FFF (by rw [hloaded.kernal_size]; decide)
    rw [← List.getD_eq_getElem _ 0, kernal_resetAt hi lo 3] at hbyte
    exact hbyte

end RomPair

end CDosX86
