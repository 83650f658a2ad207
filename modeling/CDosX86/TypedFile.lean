import CDosX86.Printing
import CDosX86.SingleFile

namespace CDosX86

namespace Kernel

variable {δ : Type} [Ports δ] {v : Drive δ}

-- What `cmd_type` sends to the console.
def typeOutput (tokens : List (List Byte)) (k : Kernel δ) : List Byte :=
  match tokens with
  | _ :: name :: _ =>
      let (r, k) := k.mount
      if r ≠ 0 then text "No disk mounted or unformatted disk.\n"
      else
        match k.fs.fsFind name with
        | none => text "File not found: " ++ name ++ [newline]
        | some entry =>
            let (len, buffer, _) := fsReadFile entry unwritten 512 k.dev
            if len < 0 then text "Read error.\n"
            else cString ((List.range len.toNat).map buffer) ++ [newline]
  | _ => text "Usage: TYPE <filename>\n"

theorem cmdType_output (tokens : List (List Byte)) (k : Kernel δ) :
    (k.cmdType tokens).c64 = k.c64.print (k.typeOutput tokens) := by
  match tokens with
  | [] => rfl
  | [_] => rfl
  | _ :: name :: _ =>
      simp only [cmdType, typeOutput, putchar_eq_print, print_print]
      split
      · rfl
      · cases k.mount.2.fs.fsFind name with
        | none => rfl
        | some entry =>
            dsimp only
            split <;> rfl

theorem typeOutput_found {tokens : List (List Byte)} {command name : List Byte} {k : Kernel δ}
    (hmount : k.mount.1 = 0) {entry : FsEntry} (hfind : k.mount.2.fs.fsFind name = some entry)
    {n : Nat} {buffer : Buffer} {d : δ}
    (hread : fsReadFile entry unwritten 512 k.mount.2.dev = ((n : Int), buffer, d)) :
    k.typeOutput (command :: name :: tokens) =
      cString ((List.range n).map buffer) ++ [newline] := by
  simp only [typeOutput, hmount, hfind, hread]
  simp

theorem map_loaded (disk : Nat → Sector) (entry : FsEntry) {n : Nat}
    (hn : n ≤ entry.length.toNat) (buffer : Buffer) :
    (List.range n).map (CDosX86.loaded disk entry.startLba n buffer) =
      (fileBytes disk entry).take n := by
  rw [fileBytes, ← List.map_take, List.take_range, Nat.min_eq_left hn]
  refine List.map_congr_left fun p hp => ?_
  exact if_pos (List.mem_range.mp hp)

-- The buffer of `cmd_type` takes 512 bytes, and none at all of a file that makes the sector count wrap.
def typedLength (entry : FsEntry) : Nat :=
  if entry.length.toNat + 511 < 2 ^ 32 then min entry.length.toNat 512 else 0

theorem typeOutput_file (h : v.HonoursReads) {k : Kernel δ} (hd : v.idle k.dev)
    (hmount : k.mount.1 = 0) (command : List Byte) (args : List (List Byte)) {name : List Byte}
    {entry : FsEntry} (hfind : k.mount.2.fs.fsFind name = some entry)
    (hread : Readable v entry.startLba entry.length.toNat)
    (hnul : 0 ∉ fileBytes (v.disk k.dev) entry) :
    k.typeOutput (command :: name :: args) =
      (fileBytes (v.disk k.dev) entry).take (typedLength entry) ++ [newline] := by
  obtain ⟨-, hd', hdisk⟩ := mount_same h hd
  have hlarge : (512 : BitVec 32).toNat = 512 := rfl
  have htake : 0 ∉ (fileBytes (v.disk k.dev) entry).take (typedLength entry) :=
    fun hmem => hnul (List.mem_of_mem_take hmem)
  unfold typedLength at htake ⊢
  split at htake
  · next hlen =>
    obtain ⟨d, hfile, -, -⟩ := fsReadFile_spec h unwritten hd'
      (show 0 < (512 : BitVec 32).toNat by decide) (by decide) hlen fun p hp => hread p (by omega)
    rw [hdisk, hlarge] at hfile
    rw [if_pos hlen, typeOutput_found hmount hfind hfile,
      map_loaded _ _ (Nat.min_le_left _ _), (cString_eq_self_iff _).mpr htake]
  · next hlen =>
    rw [if_neg hlen, typeOutput_found (n := 0) hmount hfind
      (fsReadFile_wraps (Nat.not_lt.mp hlen) unwritten 512 _)]
    rfl

theorem type_prints_file (h : v.HonoursReads) {k : Kernel δ} (hd : v.idle k.dev)
    (hmount : k.mount.1 = 0) (command : List Byte) (args : List (List Byte)) {name : List Byte}
    {entry : FsEntry} (hfind : k.mount.2.fs.fsFind name = some entry)
    (hread : Readable v entry.startLba entry.length.toNat)
    (hnul : 0 ∉ fileBytes (v.disk k.dev) entry) :
    (k.cmdType (command :: name :: args)).c64 =
        k.c64.print (k.typeOutput (command :: name :: args)) ∧
      (k.typeOutput (command :: name :: args) = fileBytes (v.disk k.dev) entry ++ [newline] ↔
        entry.length.toNat ≤ 512) := by
  refine ⟨cmdType_output _ k, ?_⟩
  rw [typeOutput_file h hd hmount command args hfind hread hnul, List.append_left_inj, List.take_eq_self_iff,
    length_fileBytes, typedLength]
  have hlt := entry.length.isLt
  split <;> omega

end Kernel

theorem zero_notMem_letterName : 0 ∉ [0x41] := by decide

-- The file `A`, `n` times the letter A.
def letterFile (n : Nat) : DirFile where
  name := [0x41]
  isFile := true
  contents := List.replicate n 0x41
  name_ne_nul := zero_notMem_letterName

def letters (n : Nat) (hn : n ≤ 2 ^ 19) : OneFile where
  file := letterFile n
  isFile := rfl
  short := Nat.le_of_ble_eq_true rfl
  ascii := by simp [letterFile]
  fits := by rwa [letterFile, List.length_replicate]

theorem zero_notMem_letters (n : Nat) : (0 : Byte) ∉ List.replicate n (0x41 : Byte) := by
  intro h
  exact absurd (List.eq_of_mem_replicate h) (by decide)

open Kernel IdealDrive

section

variable {n : Nat} {hn : n ≤ 2 ^ 19} {img : List Byte}

theorem length_letters (hbuilt : BuildDisk.Built (letters n hn).directory 1 img) :
    (onDisk (letters n hn).entry).length.toNat = n := by
  rw [length_onDisk hbuilt OneFile.mem_entries]
  exact List.length_replicate

theorem readable_letters (hbuilt : BuildDisk.Built (letters n hn).directory 1 img) :
    Readable (drive ((img.length + 511) / 512)) (onDisk (letters n hn).entry).startLba
      (onDisk (letters n hn).entry).length.toNat := by
  rw [length_onDisk hbuilt OneFile.mem_entries]
  exact readable_onDisk (by decide) hbuilt (holding_holds img) OneFile.mem_entries

theorem fileBytes_letters (hbuilt : BuildDisk.Built (letters n hn).directory 1 img) :
    fileBytes (holdingKernel img).dev.content (onDisk (letters n hn).entry) =
      List.replicate n 0x41 :=
  fileBytes_onDisk (v := drive ((img.length + 511) / 512)) (by decide) hbuilt (holding_holds img)
    OneFile.mem_entries

theorem zero_notMem_fileBytes (hbuilt : BuildDisk.Built (letters n hn).directory 1 img) :
    0 ∉ fileBytes (holdingKernel img).dev.content (onDisk (letters n hn).entry) := by
  rw [fileBytes_letters hbuilt]
  exact zero_notMem_letters n

theorem mount_letters (hbuilt : BuildDisk.Built (letters n hn).directory 1 img) :
    (holdingKernel img).mount.1 = 0 :=
  mount_holdingKernel (BuildDisk.buildDisk_ok_iff.mpr hbuilt)

end

theorem type_prints_file_letters : ∃ img,
    BuildDisk.Built (letters 512 (by decide)).directory 1 img ∧
      (holdingKernel img).typeOutput [text "TYPE", [0x41]] =
        fileBytes (holdingKernel img).dev.content (onDisk (letters 512 (by decide)).entry) ++
          [newline] := by
  obtain ⟨img, hbuilt⟩ := (letters 512 (by decide)).built
  obtain ⟨-, hfile⟩ := type_prints_file (drive_reads _) (holding_idle img) (mount_letters hbuilt)
    (text "TYPE") [] (OneFile.found hbuilt) (readable_letters hbuilt)
    (zero_notMem_fileBytes hbuilt)
  exact ⟨img, hbuilt, hfile.mpr (length_letters hbuilt).le⟩

theorem type_cuts_long_file : ¬ ∀ (img name : List Byte) (entry : FsEntry),
    (holdingKernel img).mount.1 = 0 → (holdingKernel img).mount.2.fs.fsFind name = some entry →
      Readable (drive ((img.length + 511) / 512)) entry.startLba entry.length.toNat →
        0 ∉ fileBytes (holdingKernel img).dev.content entry →
          (holdingKernel img).typeOutput [text "TYPE", name] =
            fileBytes (holdingKernel img).dev.content entry ++ [newline] := by
  intro hclaim
  obtain ⟨img, hbuilt⟩ := (letters 513 (by decide)).built
  have hall := hclaim img _ _ (mount_letters hbuilt) (OneFile.found hbuilt)
    (readable_letters hbuilt) (zero_notMem_fileBytes hbuilt)
  have hout := typeOutput_file (drive_reads _) (holding_idle img) (mount_letters hbuilt)
    (text "TYPE") [] (OneFile.found hbuilt) (readable_letters hbuilt)
    (zero_notMem_fileBytes hbuilt)
  have hlength := length_letters hbuilt
  have hcut := congrArg List.length (List.append_cancel_right (hout.symm.trans hall))
  rw [List.length_take, length_fileBytes, length_fileBytes, typedLength, hlength] at hcut
  split at hcut <;> omega

end CDosX86
