import CDosX86.RomDisk

namespace CDosX86

open BuildDisk

namespace BuildOutput

-- The state is the file at `output_path`, if there is one; an exception keeps it as it then is.
abbrev BuildM (α : Type) := ExceptT BuildError (StateM (Option (List Byte))) α

def checked {α : Type} (result : Except BuildError α) : BuildM α := fun out => (result, out)

def openWb : BuildM Unit := fun _ => (.ok (), some [])

def write (bytes : List Byte) : BuildM Unit := fun out => (.ok (), out.map (· ++ bytes))

def tell : BuildM Nat := fun out => (.ok (out.getD []).length, out)

-- Reading, writing and the memory for the bytes do not fail here: `b'\x00' * n` raises from
-- 2^63 bytes on, or earlier when there is not that much memory, with the file open by then.
def zeros (n : Int) : List Byte := List.replicate n.toNat 0

def writeFiles : List DiskEntry → BuildM Unit
  | [] => pure ()
  | e :: es => do
      write e.contents
      write (zeros ((-(e.contents.length : Int)) % sectorSize))
      writeFiles es

def writeImage (dirSector : List Byte) (entries : List DiskEntry) (diskSizeBytes : Int) :
    BuildM Unit := do
  openWb
  write dirSector
  writeFiles entries
  let currentSize ← tell
  let remaining := diskSizeBytes - currentSize
  if remaining > 0 then write (zeros remaining)

def buildDisk (dir : Directory) (diskSizeMb : Int) : BuildM Unit :=
  let fs := files dir
  if fs.length > BuildDisk.fsMaxEntries then checked (.error (.tooManyFiles fs.length))
  else do
    let (entries, totalSectorsNeeded) ← checked (layout 1 fs)
    let diskSizeBytes := diskSizeMb * 1024 * 1024
    let diskSizeSectors := diskSizeBytes / sectorSize
    if (totalSectorsNeeded : Int) > diskSizeSectors then
      checked (.error (.diskTooSmall totalSectorsNeeded diskSizeSectors))
    else do
      let packed ← checked (packEntries entries)
      writeImage (dirSector entries.length packed) entries diskSizeBytes

section

variable {α β : Type} {m : BuildM α} {out out' : Option (List Byte)}

theorem bind_ok {a : α} (h : m out = (.ok a, out')) (f : α → BuildM β) :
    (m >>= f) out = f a out' := by
  change ExceptT.bindCont f (m out).1 (m out).2 = _
  rw [h]
  rfl

theorem bind_error {e : BuildError} (h : m out = (.error e, out')) (f : α → BuildM β) :
    (m >>= f) out = (.error e, out') := by
  change ExceptT.bindCont f (m out).1 (m out).2 = _
  rw [h]
  rfl

end

theorem checked_eq {α : Type} (result : Except BuildError α) (out : Option (List Byte)) :
    checked result out = (result, out) := rfl

theorem openWb_eq (out : Option (List Byte)) : openWb out = (.ok (), some []) := rfl

theorem write_eq (bytes out : List Byte) : write bytes (some out) = (.ok (), some (out ++ bytes)) :=
  rfl

theorem tell_eq (out : List Byte) : tell (some out) = (.ok out.length, some out) := rfl

theorem write_zeros (data out : List Byte) :
    (do
      write data
      write (zeros ((-(data.length : Int)) % sectorSize)) : BuildM Unit) (some out) =
      (.ok (), some (out ++ padded data)) := by
  rw [padded, ← List.append_assoc]
  rfl

theorem writeFiles_eq (es : List DiskEntry) (out : List Byte) :
    writeFiles es (some out) =
      (.ok (), some (out ++ (es.map fun e => padded e.contents).flatten)) := by
  induction es generalizing out with
  | nil => rw [List.map_nil, List.flatten_nil, List.append_nil]; rfl
  | cons e es ih =>
      rw [List.map_cons, List.flatten_cons, ← List.append_assoc, ← ih]
      rw [writeFiles, ← bind_assoc, bind_ok (write_zeros e.contents out)]

theorem writeImage_eq (dirSector : List Byte) (entries : List DiskEntry) (diskSizeBytes : Int)
    (out : Option (List Byte)) :
    writeImage dirSector entries diskSizeBytes out =
      (.ok (), some (image dirSector entries diskSizeBytes)) := by
  rw [writeImage, bind_ok (openWb_eq out), bind_ok (write_eq _ _), List.nil_append,
    bind_ok (writeFiles_eq entries dirSector), bind_ok (tell_eq _), image]
  generalize dirSector ++ (entries.map fun e => padded e.contents).flatten = written
  split
  · rfl
  · next hfull =>
    rw [Int.toNat_eq_zero.mpr (by omega), List.replicate_zero, List.append_nil]
    rfl

def outcome (out : Option (List Byte)) :
    Except BuildError (List Byte) → Except BuildError Unit × Option (List Byte)
  | .ok img => (.ok (), some img)
  | .error e => (.error e, out)

theorem buildDisk_refines (dir : Directory) (diskSizeMb : Int) (out : Option (List Byte)) :
    buildDisk dir diskSizeMb out = outcome out (BuildDisk.buildDisk dir diskSizeMb) := by
  rw [buildDisk, BuildDisk.buildDisk]
  dsimp only
  by_cases hcount : (files dir).length > BuildDisk.fsMaxEntries
  · rw [if_pos hcount, if_pos hcount]
    rfl
  · rw [if_neg hcount, if_neg hcount]
    cases layout 1 (files dir) with
    | error e => exact bind_error (checked_eq _ out) _
    | ok r =>
        rw [bind_ok (checked_eq _ out)]
        change _ = outcome out (if _ then _ else _)
        by_cases hfits : (r.2 : Int) > diskSizeMb * 1024 * 1024 / sectorSize
        · rw [if_pos hfits, if_pos hfits]
          rfl
        · rw [if_neg hfits, if_neg hfits]
          cases packEntries r.1 with
          | error e => exact bind_error (checked_eq _ out) _
          | ok packed =>
              rw [bind_ok (checked_eq _ out), writeImage_eq]
              rfl

theorem entriesFrom_startLba (lba : Nat) {fs : List DirFile} {i : Nat}
    (hi : i < (entriesFrom lba fs).length) :
    (entriesFrom lba fs)[i].startLba = endLba lba (fs.take i) := by
  induction fs generalizing lba i with
  | nil => cases hi
  | cons f fs ih =>
      cases i with
      | zero => rfl
      | succ i =>
          rw [List.take_succ_cons, endLba_cons, ← ih]
          rfl

-- The conditions under which there is an image, each in terms of the files that are found.
structure Acceptable (dir : Directory) (diskSizeMb : Int) : Prop where
  count : (files dir).length ≤ 21
  names : ∀ f ∈ files dir, f.name.length ≤ 15 ∧ ∀ c ∈ f.name, c < 128
  sizes : ∀ f ∈ files dir, f.contents.length < 2 ^ 32
  starts : ∀ i < (files dir).length, endLba 1 ((files dir).take i) < 2 ^ 32
  fits : (endLba 1 (files dir) : Int) ≤ diskSizeMb * 2 ^ 20 / 512

theorem packable_iff (lba : Nat) (fs : List DirFile) :
    (∀ e ∈ entriesFrom lba fs, Packable e) ↔
      (∀ f ∈ fs, ∀ c ∈ f.name, c < 128) ∧ (∀ f ∈ fs, f.contents.length < 2 ^ 32) ∧
        ∀ i < fs.length, endLba lba (fs.take i) < 2 ^ 32 := by
  have hlength := length_entriesFrom lba fs
  constructor
  · intro h
    have hpack (i : Nat) (hi : i < fs.length) : Packable (entriesFrom lba fs)[i] :=
      h _ (List.getElem_mem _)
    refine ⟨fun f hf => ?_, fun f hf => ?_, fun i hi => ?_⟩
    · obtain ⟨i, hi, rfl⟩ := List.getElem_of_mem hf
      rw [← (entriesFrom_getElem lba (by omega) hi).1]
      exact (hpack i hi).ascii
    · obtain ⟨i, hi, rfl⟩ := List.getElem_of_mem hf
      rw [← (entriesFrom_getElem lba (by omega) hi).2.1]
      exact (hpack i hi).length
    · rw [← entriesFrom_startLba lba (by omega)]
      exact (hpack i hi).startLba
  · rintro ⟨hascii, hsize, hstart⟩ e he
    obtain ⟨i, hi, rfl⟩ := List.getElem_of_mem he
    have hf : i < fs.length := by omega
    obtain ⟨hname, hlen, -⟩ := entriesFrom_getElem lba hi hf
    refine ⟨?_, ?_, ?_⟩
    · rw [hname]
      exact hascii _ (List.getElem_mem hf)
    · rw [entriesFrom_startLba]
      exact hstart i hf
    · rw [hlen]
      exact hsize _ (List.getElem_mem hf)

theorem acceptable_iff {dir : Directory} {diskSizeMb : Int} :
    Acceptable dir diskSizeMb ↔ ∃ img, BuildDisk.buildDisk dir diskSizeMb = .ok img := by
  have hbytes : diskSizeMb * 2 ^ 20 / 512 = diskSizeMb * 1024 * 1024 / 512 := by omega
  simp only [buildDisk_ok_iff]
  constructor
  · intro h
    refine ⟨_, h.count, fun f hf => (h.names f hf).1, hbytes ▸ h.fits, ?_, rfl⟩
    exact (packable_iff 1 (files dir)).mpr ⟨fun f hf => (h.names f hf).2, h.sizes, h.starts⟩
  · rintro ⟨img, h⟩
    obtain ⟨hascii, hsizes, hstarts⟩ := (packable_iff 1 (files dir)).mp h.packable
    exact ⟨h.count, fun f hf => ⟨h.names f hf, hascii f hf⟩, hsizes, hstarts, hbytes ▸ h.fits⟩

theorem length_image {dir : Directory} {diskSizeMb : Int} {img : List Byte}
    (h : Built dir diskSizeMb img) : (img.length : Int) = diskSizeMb * 2 ^ 20 := by
  have hcount := h.count
  have hfits := h.fits
  have hcontents := length_data 1 (files dir)
  have hsector : (dirSector (files dir).length
      ((entriesFrom 1 (files dir)).map entryBytes)).length = 512 :=
    length_dirSector (by rwa [length_entriesFrom]) _
  rw [h.bytes, image]
  simp only [List.length_append, hsector, List.length_replicate]
  omega

theorem build_disk_all_or_nothing (dir : Directory) (diskSizeMb : Int)
    (out : Option (List Byte)) :
    (Acceptable dir diskSizeMb → ∃ img, buildDisk dir diskSizeMb out = (.ok (), some img) ∧
      Built dir diskSizeMb img ∧ (img.length : Int) = diskSizeMb * 2 ^ 20) ∧
    (¬ Acceptable dir diskSizeMb → ∃ e, buildDisk dir diskSizeMb out = (.error e, out)) := by
  rw [buildDisk_refines, acceptable_iff]
  constructor
  · rintro ⟨img, himg⟩
    have hbuilt := buildDisk_ok_iff.mp himg
    rw [himg]
    exact ⟨img, rfl, hbuilt, length_image hbuilt⟩
  · intro h
    cases hbuild : BuildDisk.buildDisk dir diskSizeMb with
    | ok img => exact absurd ⟨img, hbuild⟩ h
    | error e => exact ⟨e, rfl⟩

theorem build_disk_roms :
    (∃ img, buildDisk Kernel.romFiles 1 (some [0x41]) = (.ok (), some img) ∧
      Built Kernel.romFiles 1 img ∧ (img.length : Int) = 1 * 2 ^ 20) ∧
    ∃ e, buildDisk Kernel.romFiles 0 (some [0x41]) = (.error e, some [0x41]) := by
  obtain ⟨img, hbuilt⟩ := Kernel.built_romFiles
  refine ⟨(build_disk_all_or_nothing Kernel.romFiles 1 (some [0x41])).1 ?_,
    (build_disk_all_or_nothing Kernel.romFiles 0 (some [0x41])).2 fun h => ?_⟩
  · exact acceptable_iff.mpr ⟨img, buildDisk_ok_iff.mpr hbuilt⟩
  · have hfits := h.fits
    rw [endLba] at hfits
    omega

end BuildOutput

end CDosX86
