import CDosX86.DiskSafety
import CDosX86.FileNames

namespace CDosX86

open BuildDisk

def fileBytes (disk : Nat → Sector) (entry : FsEntry) : List Byte :=
  (List.range entry.length.toNat).map (fileByte disk entry.startLba)

theorem length_fileBytes (disk : Nat → Sector) (entry : FsEntry) :
    (fileBytes disk entry).length = entry.length.toNat := by
  simp [fileBytes]

theorem fileBytes_onDisk {δ : Type} {v : Drive δ} {dir : Directory} {mb : Int} {img : List Byte}
    (hmb : mb ≤ 2048) (hbuilt : Built dir mb img) {d : δ} (himg : v.Holds d img) {e : DiskEntry}
    (he : e ∈ entriesFrom 1 (files dir)) : fileBytes (v.disk d) (onDisk e) = e.contents := by
  have hfile : e.length = e.contents.length := length_eq_of_mem he
  apply List.ext_getElem
  · rw [length_fileBytes, length_onDisk hbuilt he, hfile]
  · intro p _ hp
    simp only [fileBytes, List.getElem_map, List.getElem_range]
    exact fileByte_onDisk hmb hbuilt himg he hp

-- A directory with one file, small enough for a disk of one megabyte.
structure OneFile where
  file : DirFile
  isFile : file.isFile = true
  short : file.name.length ≤ 15
  ascii : ∀ c ∈ file.name, c < 128
  fits : file.contents.length ≤ 2 ^ 19

namespace OneFile

def directory (f : OneFile) : Directory where
  listdir := [f.file]
  distinct := List.nodup_singleton _

def entry (f : OneFile) : DiskEntry where
  name := f.file.name
  startLba := 1
  length := f.file.contents.length
  contents := f.file.contents

variable (f : OneFile)

theorem files_directory : files f.directory = [f.file] := by
  simp [files, directory, f.isFile]

theorem entries_directory : entriesFrom 1 (files f.directory) = [f.entry] := by
  rw [files_directory]
  rfl

theorem built : ∃ img, Built f.directory 1 img := by
  have hfits := f.fits
  refine ⟨_, ?_, ?_, ?_, ?_, rfl⟩
  · simp [files_directory]
  · simp [files_directory, f.short]
  · simp only [files_directory, endLba, List.map_cons, List.map_nil, List.sum_cons, List.sum_nil,
      sectorsNeeded, sectorSize]
    omega
  · rw [entries_directory]
    intro e he
    rw [List.mem_singleton.mp he]
    exact ⟨f.ascii, show 1 < 2 ^ 32 by decide, show f.file.contents.length < 2 ^ 32 by omega⟩

variable {f}

theorem mem_entries : f.entry ∈ entriesFrom 1 (files f.directory) := by
  rw [entries_directory]
  exact List.mem_singleton_self _

theorem named : Named f.entry := ⟨f.short, f.ascii, f.file.name_ne_nul⟩

theorem mounted {img : List Byte} (hbuilt : Built f.directory 1 img) :
    Mounted [f.entry] (Kernel.holdingKernel img).mount.2.fs := by
  obtain ⟨fs, d, hmount, hm, -, -⟩ := fsMount_built (IdealDrive.drive_reads _) hbuilt
    (IdealDrive.holding_idle img) (IdealDrive.holding_holds img) Fs.zero
  have hfs : (Kernel.holdingKernel img).mount.2.fs = fs := congrArg (fun t => t.2.1) hmount
  rw [entries_directory] at hm
  rwa [hfs]

theorem found {img : List Byte} (hbuilt : Built f.directory 1 img) :
    (Kernel.holdingKernel img).mount.2.fs.fsFind (asciiBytes f.entry.name) =
      some (onDisk f.entry) := by
  have hown : NameOf (asciiBytes f.entry.name) f.entry := rfl
  rw [fsFind_mounted (by simp) (mounted hbuilt) (by simp [named]) (named (f := f)).zero_notMem]
  simp [hown]

theorem missing {img : List Byte} (hbuilt : Built f.directory 1 img) {name : List Byte}
    (hname : 0 ∉ name) (hother : ¬ NameOf name f.entry) :
    (Kernel.holdingKernel img).mount.2.fs.fsFind name = none :=
  fsFind_none (by simp) (mounted hbuilt) (by simp [named]) hname (by simp [hother])

end OneFile

end CDosX86
