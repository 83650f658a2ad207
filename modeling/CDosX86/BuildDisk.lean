import CDosX86.Console
import CDosX86.LittleEndian
import Mathlib.Data.List.Sort
import Mathlib.Data.List.Lex
import Mathlib.Order.Basic

namespace CDosX86

open LittleEndian

-- What `os.listdir` yields; a name is its code points, as Python compares them.
structure DirFile where
  name : List Nat
  isFile : Bool
  contents : List Byte
  name_ne_nul : 0 ∉ name

structure Directory where
  listdir : List DirFile
  distinct : (listdir.map (·.name)).Nodup

structure DiskEntry where
  name : List Nat
  startLba : Nat
  length : Nat
  contents : List Byte

inductive BuildError where
  | tooManyFiles (count : Nat)
  | nameTooLong (name : List Nat)
  | diskTooSmall (needed : Nat) (available : Int)
  | notAscii (name : List Nat)
  | fieldTooLarge

def showName (name : List Nat) : String := String.ofList (name.map Char.ofNat)

def BuildError.message : BuildError → String
  | .tooManyFiles count => "ERROR: " ++ toString count ++ " files found, but max is 21"
  | .nameTooLong name => "ERROR: filename '" ++ showName name ++ "' exceeds 15 chars"
  | .diskTooSmall needed available =>
      "ERROR: files need " ++ toString needed ++ " sectors, disk only has " ++ toString available
  | .notAscii _ => "UnicodeEncodeError"
  | .fieldTooLarge => "struct.error"

namespace BuildDisk

def fsMagic : Nat := 0x43444653

def fsMaxEntries : Nat := 21

def fsNameLen : Nat := 16

def sectorSize : Nat := 512

def sectorsNeeded (fsize : Nat) : Nat := (fsize + sectorSize - 1) / sectorSize

def files (dir : Directory) : List DirFile :=
  (dir.listdir.insertionSort fun a b => a.name ≤ b.name).filter (·.isFile)

def layout : Nat → List DirFile → Except BuildError (List DiskEntry × Nat)
  | currentLba, [] => .ok ([], currentLba)
  | currentLba, f :: fs =>
      if f.name.length > fsNameLen - 1 then .error (.nameTooLong f.name)
      else do
        let (entries, last) ← layout (currentLba + sectorsNeeded f.contents.length) fs
        return ({ name := f.name, startLba := currentLba, length := f.contents.length,
                  contents := f.contents } :: entries, last)

def encodeAscii (name : List Nat) : Except BuildError (List Byte) :=
  if name.all (· < 128) then .ok (name.map (BitVec.ofNat 8)) else .error (.notAscii name)

def ljust (width : Nat) (bytes : List Byte) : List Byte :=
  bytes ++ List.replicate (width - bytes.length) 0

def pack32 (value : Nat) : Except BuildError (List Byte) :=
  if value < 2 ^ 32 then .ok (encode 4 value) else .error .fieldTooLarge

def packEntry (e : DiskEntry) : Except BuildError (List Byte) := do
  let nameBytes ← encodeAscii e.name
  let startLba ← pack32 e.startLba
  let length ← pack32 e.length
  return ljust fsNameLen (nameBytes.take fsNameLen) ++ (startLba ++ length)

def packEntries : List DiskEntry → Except BuildError (List (List Byte))
  | [] => .ok []
  | e :: es => do
      let packed ← packEntry e
      let rest ← packEntries es
      return packed :: rest

def dirSector (count : Nat) (packed : List (List Byte)) : List Byte :=
  ljust sectorSize (encode 4 fsMagic ++ (encode 4 count ++ packed.flatten))

def padded (data : List Byte) : List Byte :=
  data ++ List.replicate ((-(data.length : Int)) % sectorSize).toNat 0

def image (sector : List Byte) (entries : List DiskEntry) (diskSizeBytes : Int) : List Byte :=
  let written := sector ++ (entries.map fun e => padded e.contents).flatten
  written ++ List.replicate (diskSizeBytes - written.length).toNat 0

def buildDisk (dir : Directory) (diskSizeMb : Int) : Except BuildError (List Byte) :=
  let fs := files dir
  if fs.length > fsMaxEntries then .error (.tooManyFiles fs.length)
  else do
    let (entries, totalSectorsNeeded) ← layout 1 fs
    let diskSizeBytes := diskSizeMb * 1024 * 1024
    let diskSizeSectors := diskSizeBytes / sectorSize
    if (totalSectorsNeeded : Int) > diskSizeSectors then
      .error (.diskTooSmall totalSectorsNeeded diskSizeSectors)
    else do
      let packed ← packEntries entries
      return image (dirSector entries.length packed) entries diskSizeBytes

theorem bind_eq_ok {α β : Type} {x : Except BuildError α} {f : α → Except BuildError β} {b : β}
    (h : (x >>= f) = .ok b) : ∃ a, x = .ok a ∧ f a = .ok b := by
  cases x with
  | error e => cases h
  | ok a => exact ⟨a, rfl, h⟩

def entriesFrom : Nat → List DirFile → List DiskEntry
  | _, [] => []
  | lba, f :: fs =>
      { name := f.name, startLba := lba, length := f.contents.length, contents := f.contents } ::
        entriesFrom (lba + sectorsNeeded f.contents.length) fs

def endLba (lba : Nat) (fs : List DirFile) : Nat :=
  lba + (fs.map fun f => sectorsNeeded f.contents.length).sum

def entryBytes (e : DiskEntry) : List Byte :=
  ljust fsNameLen ((e.name.map (BitVec.ofNat 8)).take fsNameLen) ++
    (encode 4 e.startLba ++ encode 4 e.length)

theorem layout_ok {lba : Nat} {fs : List DirFile} {es : List DiskEntry} {last : Nat}
    (h : layout lba fs = .ok (es, last)) :
    es = entriesFrom lba fs ∧ last = endLba lba fs ∧ ∀ f ∈ fs, f.name.length ≤ 15 := by
  induction fs generalizing lba es last with
  | nil =>
      cases h
      exact ⟨rfl, rfl, by simp⟩
  | cons f fs ih =>
      rw [layout] at h
      split at h
      · cases h
      · next hname =>
        obtain ⟨⟨rest, last'⟩, hrest, hout⟩ := bind_eq_ok h
        cases hout
        obtain ⟨rfl, rfl, hnames⟩ := ih hrest
        refine ⟨rfl, ?_, ?_⟩
        · rw [endLba, endLba, List.map_cons, List.sum_cons, Nat.add_assoc]
        · exact List.forall_mem_cons.mpr ⟨Nat.not_lt.mp hname, hnames⟩

theorem pack32_ok {value : Nat} {bytes : List Byte} (h : pack32 value = .ok bytes) :
    value < 2 ^ 32 ∧ bytes = encode 4 value := by
  rw [pack32] at h
  split at h
  · next hlt =>
    cases h
    exact ⟨hlt, rfl⟩
  · cases h

structure Packable (e : DiskEntry) : Prop where
  ascii : ∀ c ∈ e.name, c < 128
  startLba : e.startLba < 2 ^ 32
  length : e.length < 2 ^ 32

theorem packEntry_ok {e : DiskEntry} {bytes : List Byte} (h : packEntry e = .ok bytes) :
    bytes = entryBytes e ∧ Packable e := by
  obtain ⟨nameBytes, hname, h⟩ := bind_eq_ok h
  obtain ⟨start, hstart, h⟩ := bind_eq_ok h
  obtain ⟨len, hlen, h⟩ := bind_eq_ok h
  obtain ⟨hs, rfl⟩ := pack32_ok hstart
  obtain ⟨hl, rfl⟩ := pack32_ok hlen
  rw [encodeAscii] at hname
  split at hname
  · next hascii =>
    cases hname
    cases h
    exact ⟨rfl, by simpa using hascii, hs, hl⟩
  · cases hname

theorem packEntries_ok {es : List DiskEntry} {packed : List (List Byte)}
    (h : packEntries es = .ok packed) : packed = es.map entryBytes ∧ ∀ e ∈ es, Packable e := by
  induction es generalizing packed with
  | nil =>
      cases h
      exact ⟨rfl, by simp⟩
  | cons e es ih =>
      obtain ⟨bytes, hbytes, h⟩ := bind_eq_ok h
      obtain ⟨rest, hrest, h⟩ := bind_eq_ok h
      cases h
      obtain ⟨rfl, he⟩ := packEntry_ok hbytes
      obtain ⟨rfl, hes⟩ := ih hrest
      exact ⟨rfl, List.forall_mem_cons.mpr ⟨he, hes⟩⟩

structure Built (dir : Directory) (diskSizeMb : Int) (img : List Byte) : Prop where
  count : (files dir).length ≤ 21
  names : ∀ f ∈ files dir, f.name.length ≤ 15
  fits : (endLba 1 (files dir) : Int) ≤ diskSizeMb * 1024 * 1024 / 512
  packable : ∀ e ∈ entriesFrom 1 (files dir), Packable e
  bytes : img = image
    (dirSector (files dir).length ((entriesFrom 1 (files dir)).map entryBytes))
    (entriesFrom 1 (files dir)) (diskSizeMb * 1024 * 1024)

theorem length_entriesFrom (lba : Nat) (fs : List DirFile) :
    (entriesFrom lba fs).length = fs.length := by
  induction fs generalizing lba with
  | nil => rfl
  | cons f fs ih => rw [entriesFrom, List.length_cons, List.length_cons, ih]

theorem buildDisk_ok {dir : Directory} {diskSizeMb : Int} {img : List Byte}
    (h : buildDisk dir diskSizeMb = .ok img) : Built dir diskSizeMb img := by
  rw [buildDisk] at h
  dsimp only at h
  split at h
  · cases h
  · next hcount =>
    obtain ⟨⟨es, last⟩, hlayout, h⟩ := bind_eq_ok h
    obtain ⟨rfl, rfl, hnames⟩ := layout_ok hlayout
    dsimp only at h
    split at h
    · cases h
    · next hfits =>
      obtain ⟨packed, hpacked, h⟩ := bind_eq_ok h
      obtain ⟨rfl, hpackable⟩ := packEntries_ok hpacked
      cases h
      rw [length_entriesFrom]
      exact ⟨Nat.not_lt.mp hcount, hnames, Int.not_lt.mp hfits, hpackable, rfl⟩

theorem layout_entriesFrom {fs : List DirFile} (h : ∀ f ∈ fs, f.name.length ≤ 15) (lba : Nat) :
    layout lba fs = .ok (entriesFrom lba fs, endLba lba fs) := by
  induction fs generalizing lba with
  | nil => rfl
  | cons f fs ih =>
      obtain ⟨hname, hnames⟩ := List.forall_mem_cons.mp h
      have hfits : ¬ f.name.length > fsNameLen - 1 := Nat.not_lt.mpr hname
      rw [layout, if_neg hfits, ih hnames, endLba, endLba, List.map_cons, List.sum_cons,
        Nat.add_assoc]
      rfl

theorem packEntry_packable {e : DiskEntry} (h : Packable e) : packEntry e = .ok (entryBytes e) := by
  have hascii : encodeAscii e.name = .ok (e.name.map (BitVec.ofNat 8)) :=
    if_pos (by simpa using h.ascii)
  rw [packEntry, hascii, pack32, pack32, if_pos h.startLba, if_pos h.length]
  rfl

theorem packEntries_packable {es : List DiskEntry} (h : ∀ e ∈ es, Packable e) :
    packEntries es = .ok (es.map entryBytes) := by
  induction es with
  | nil => rfl
  | cons e es ih =>
      obtain ⟨he, hes⟩ := List.forall_mem_cons.mp h
      rw [packEntries, packEntry_packable he, ih hes]
      rfl

theorem buildDisk_ok_iff {dir : Directory} {diskSizeMb : Int} {img : List Byte} :
    buildDisk dir diskSizeMb = .ok img ↔ Built dir diskSizeMb img := by
  refine ⟨buildDisk_ok, fun h => ?_⟩
  have hcount : ¬ (files dir).length > fsMaxEntries := Nat.not_lt.mpr h.count
  have hfits : ¬ (endLba 1 (files dir) : Int) > diskSizeMb * 1024 * 1024 / sectorSize :=
    Int.not_lt.mpr h.fits
  rw [buildDisk]
  dsimp only
  rw [if_neg hcount, layout_entriesFrom h.names]
  change (if (endLba 1 (files dir) : Int) > _ then _ else _ : Except _ _) = _
  rw [if_neg hfits, packEntries_packable h.packable, length_entriesFrom, h.bytes]
  rfl

end BuildDisk

end CDosX86
