import CDosX86.C64Init
import CDosX86.FileNames

namespace CDosX86

open BuildDisk

namespace Kernel

variable {δ : Type} [Ports δ] {v : Drive δ}

theorem loadRom_ok {k : Kernel δ} {filename : List Byte} (loadAddr : Word) {size : BitVec 32}
    {entry : FsEntry} {buffer : Buffer} {d : δ} (hfind : k.fs.fsFind filename = some entry)
    (hsize : entry.length = size)
    (hread : fsReadFile entry unwritten 8192 k.dev = (size.toInt, buffer, d)) :
    (k.loadRom filename loadAddr size).1 = 0 ∧
      (k.loadRom filename loadAddr size).2.fs = k.fs ∧
      (k.loadRom filename loadAddr size).2.dev = d := by
  obtain ⟨s, hloaded⟩ := loadRom_read loadAddr hfind hsize hread
  simp [hloaded]

def firstNamed (dir : Directory) (name : List Byte) : Option DiskEntry :=
  (entriesFrom 1 (files dir)).find? fun e => NameOf name e

theorem fsFind_firstNamed {dir : Directory} {mb : Int} {img : List Byte}
    (hbuilt : Built dir mb img) {fs : Fs} (hm : Mounted (entriesFrom 1 (files dir)) fs)
    {name : List Byte} (hname : 0 ∉ name) {e : DiskEntry} (he : firstNamed dir name = some e) :
    fs.fsFind name = some (onDisk e) := by
  rw [fsFind_mounted hbuilt.entries_count hm (fun e he => named_built hbuilt he) hname]
  exact congrArg (Option.map onDisk) he

theorem loadRom_built (hv : v.HonoursReads) {dir : Directory} {mb : Int} {img : List Byte}
    (hmb : mb ≤ 2048) (hbuilt : Built dir mb img) {k : Kernel δ}
    (hm : Mounted (entriesFrom 1 (files dir)) k.fs) (hd : v.idle k.dev)
    (himg : v.Holds k.dev img) {filename : List Byte} (hname : 0 ∉ filename) {e : DiskEntry}
    (he : firstNamed dir filename = some e) (hlen : e.length = 8192) (loadAddr : Word) :
    (k.loadRom filename loadAddr 8192).1 = 0 ∧
      (k.loadRom filename loadAddr 8192).2.fs = k.fs ∧
      v.idle (k.loadRom filename loadAddr 8192).2.dev ∧
      v.Holds (k.loadRom filename loadAddr 8192).2.dev img := by
  have hmem : e ∈ entriesFrom 1 (files dir) := List.mem_of_find?_eq_some he
  have hfind := fsFind_firstNamed hbuilt hm hname he
  have hsize : (onDisk e).length = 8192 := by
    rw [onDisk, hlen]
    rfl
  obtain ⟨buffer, d, hread, -, -, hd', hdisk⟩ := fsReadFile_built hv hmb hbuilt hd himg hmem
    unwritten (show 0 < (8192 : BitVec 32).toNat by decide) (by decide)
  rw [hlen] at hread
  obtain ⟨hr, hfs, hdev⟩ := loadRom_ok loadAddr hfind hsize hread
  refine ⟨hr, hfs, by rwa [hdev], ?_⟩
  rw [hdev, Drive.Holds, hdisk]
  exact himg

theorem c64Init_built (hv : v.HonoursReads) {dir : Directory} {mb : Int} {img : List Byte}
    (hmb : mb ≤ 2048) (hbuilt : Built dir mb img) {k : Kernel δ} (hd : v.idle k.dev)
    (himg : v.Holds k.dev img) {kernal basic : DiskEntry}
    (hkernal : firstNamed dir kernalRom = some kernal) (hkernalLen : kernal.length = 8192)
    (hbasic : firstNamed dir basicRom = some basic) (hbasicLen : basic.length = 8192) :
    k.c64Init.1 = 0 := by
  obtain ⟨fs, d, hmount, hm, hd', hdisk⟩ := fsMount_built hv hbuilt hd himg k.fs
  have hk : k.mount = (0, { k with fs := fs, dev := d }) := by rw [mount, hmount]
  have himg' : v.Holds d img := by
    rw [Drive.Holds, hdisk]
    exact himg
  obtain ⟨hr, hfs, hd₁, himg₁⟩ := loadRom_built (k := { k with fs := fs, dev := d }) hv hmb hbuilt
    hm hd' himg' (by decide) hkernal hkernalLen kernalRomAddr
  obtain ⟨hr', -, -, -⟩ := loadRom_built hv hmb hbuilt (hfs ▸ hm) hd₁ himg₁ (by decide) hbasic
    hbasicLen basicRomAddr
  rw [c64Init, hk]
  dsimp only
  rw [if_neg (not_not.mpr rfl), kernalRomSize, hr, if_neg (not_not.mpr rfl), basicRomSize, hr',
    if_neg (not_not.mpr rfl)]

def romFile (name : List Nat) (h : 0 ∉ name) : DirFile where
  name := name
  isFile := true
  contents := List.replicate 8192 0
  name_ne_nul := h

def basicFile : DirFile :=
  romFile [0x42, 0x41, 0x53, 0x49, 0x43, 0x2E, 0x52, 0x4F, 0x4D] (by decide)

def kernalFile : DirFile :=
  romFile [0x4B, 0x45, 0x52, 0x4E, 0x41, 0x4C, 0x2E, 0x52, 0x4F, 0x4D] (by decide)

def romFiles : Directory where
  listdir := [basicFile, kernalFile]
  distinct := by decide

def romEntry (f : DirFile) (startLba : Nat) : DiskEntry where
  name := f.name
  startLba := startLba
  length := 8192
  contents := f.contents

theorem files_romFiles : files romFiles = [basicFile, kernalFile] := rfl

theorem entries_romFiles :
    entriesFrom 1 (files romFiles) = [romEntry basicFile 1, romEntry kernalFile 17] := by
  have hbasic : basicFile.contents.length = 8192 := List.length_replicate
  have hkernal : kernalFile.contents.length = 8192 := List.length_replicate
  rw [files_romFiles, entriesFrom, entriesFrom, entriesFrom, hbasic, hkernal]
  rfl

theorem built_romFiles : ∃ img, Built romFiles 1 img := by
  refine ⟨_, by decide, by decide, ?_, ?_, rfl⟩
  · have hbasic : basicFile.contents.length = 8192 := List.length_replicate
    have hkernal : kernalFile.contents.length = 8192 := List.length_replicate
    rw [files_romFiles, endLba, List.map_cons, List.map_cons, hbasic, hkernal]
    decide
  · rw [entries_romFiles]
    intro e he
    rcases List.mem_cons.mp he with rfl | he
    · exact ⟨by decide, by decide, by decide⟩
    · rw [List.mem_singleton.mp he]
      exact ⟨by decide, by decide, by decide⟩

theorem c64Init_romFiles (hv : v.HonoursReads) {img : List Byte} (hbuilt : Built romFiles 1 img)
    {k : Kernel δ} (hd : v.idle k.dev) (himg : v.Holds k.dev img) : k.c64Init.1 = 0 := by
  have hkernal : firstNamed romFiles kernalRom = some (romEntry kernalFile 17) := by
    rw [firstNamed, entries_romFiles]
    rfl
  have hbasic : firstNamed romFiles basicRom = some (romEntry basicFile 1) := by
    rw [firstNamed, entries_romFiles]
    rfl
  exact c64Init_built hv (by decide) hbuilt hd himg hkernal rfl hbasic rfl

end Kernel

end CDosX86
