import CDosX86.Ata
import CDosX86.KString
import CDosX86.StoredBytes

namespace CDosX86

open StoredBytes

structure FsEntry where
  name : Fin 16 → Byte
  startLba : BitVec 32
  length : BitVec 32

structure FsHeader where
  magic : BitVec 32
  entryCount : BitVec 32
  entries : Fin 21 → FsEntry

structure Fs where
  header : FsHeader
  mounted : Bool

def fsMagic : BitVec 32 := 0x43444653

def fsMaxEntries : Nat := 21

def fsNameLen : Nat := 16

def entryAt (sector : Buffer) (off : Nat) : FsEntry where
  name i := sector (off + i)
  startLba := u32At sector (off + 16)
  length := u32At sector (off + 20)

def headerAt (sector : Buffer) : FsHeader where
  magic := u32At sector 0
  entryCount := u32At sector 4
  entries i := entryAt sector (8 + 24 * i)

def FsEntry.zero : FsEntry := { name := fun _ => 0, startLba := 0, length := 0 }

def FsEntry.nameBytes (e : FsEntry) : List Byte := List.ofFn e.name

-- A local array before its first write; `ataReadSector` fills all of it or fails.
def unwritten : Buffer := fun _ => 0

namespace Fs

def zero : Fs :=
  { header := { magic := 0, entryCount := 0, entries := fun _ => FsEntry.zero }, mounted := false }

def scanned (fs : Fs) : List (Fin 21) :=
  (List.finRange 21).filter fun i => i.val < fs.header.entryCount.toNat

def fsFind (name : List Byte) (fs : Fs) : Option FsEntry :=
  if fs.mounted then
    (fs.scanned.find? fun i =>
      kStrncasecmp (fs.header.entries i).nameBytes name fsNameLen = 0).map fs.header.entries
  else none

def fsList {σ : Type} (callback : FsHeader → Fin 21 → σ → σ) (fs : Fs) (s : σ) : Int × σ :=
  if fs.mounted then (0, fs.scanned.foldl (fun s i => callback fs.header i s) s)
  else (-1, s)

def visible (fs : Fs) : List FsEntry :=
  if fs.mounted then fs.scanned.map fs.header.entries else []

theorem fsFind_visible (fs : Fs) (name : List Byte) :
    fs.fsFind name =
      fs.visible.find? fun e => kStrncasecmp e.nameBytes name fsNameLen = 0 := by
  rw [fsFind, visible]
  split
  · rw [List.find?_map]
    rfl
  · rfl

theorem visible_congr {fs fs' : Fs} (hmounted : fs.mounted = fs'.mounted)
    (hcount : fs.header.entryCount = fs'.header.entryCount)
    (hentries : ∀ i ∈ fs.scanned, fs.header.entries i = fs'.header.entries i) :
    fs.visible = fs'.visible := by
  have hscanned : fs'.scanned = fs.scanned := by rw [scanned, scanned, hcount]
  rw [visible, visible, ← hmounted, hscanned]
  split
  · exact List.map_congr_left hentries
  · rfl

end Fs

def nextChunk (entry : FsEntry) (maxLen bytesCopied : BitVec 32) : BitVec 32 :=
  let remaining := entry.length - bytesCopied
  let chunk := if remaining < 512 then remaining else 512
  if bytesCopied + chunk > maxLen then maxLen - bytesCopied else chunk

def copyChunk (sector : Buffer) (bytesCopied chunk : BitVec 32) (buffer : Buffer) : Buffer :=
  Loop.upto
    (fun j buffer => Function.update buffer (bytesCopied + BitVec.ofNat 32 j).toNat (sector j))
    chunk.toNat buffer

section

variable {δ : Type} [Ports δ]

def fsMount (fs : Fs) (d : δ) : Int × Fs × δ :=
  let (r, sector, d) := ataReadSector 0 unwritten d
  if r ≠ 0 then (-1, { fs with mounted := false }, d)
  else
    let h := headerAt sector
    if h.magic ≠ fsMagic then (-2, { fs with mounted := false }, d)
    else
      let entries i := if i.val < h.entryCount.toNat then h.entries i else fs.header.entries i
      (0, { header := { h with entries := entries }, mounted := true }, d)

theorem fsMount_accepted {d d' : δ} {sector : Buffer}
    (hread : ataReadSector 0 unwritten d = (0, sector, d'))
    (hmagic : (headerAt sector).magic = fsMagic) (fs : Fs) :
    fsMount fs d =
      (0, { header := { headerAt sector with
              entries := fun i =>
                if i.val < (headerAt sector).entryCount.toNat then (headerAt sector).entries i
                else fs.header.entries i }
            mounted := true }, d') := by
  rw [fsMount, hread]
  dsimp only
  rw [if_neg (not_not.mpr rfl), if_neg (not_not.mpr hmagic)]

def readSectors (entry : FsEntry) (maxLen : BitVec 32) :
    Nat → BitVec 32 → BitVec 32 → Buffer → δ → Int × Buffer × δ
  | 0, _, bytesCopied, buffer, d => (bytesCopied.toInt, buffer, d)
  | n + 1, i, bytesCopied, buffer, d =>
      let (r, sector, d) := ataReadSector (entry.startLba + i) unwritten d
      if r ≠ 0 then (-1, buffer, d)
      else
        let chunk := nextChunk entry maxLen bytesCopied
        let buffer := copyChunk sector bytesCopied chunk buffer
        let bytesCopied := bytesCopied + chunk
        if bytesCopied ≥ maxLen then (bytesCopied.toInt, buffer, d)
        else readSectors entry maxLen n (i + 1) bytesCopied buffer d

def fsReadFile (entry : FsEntry) (buffer : Buffer) (maxLen : BitVec 32) (d : δ) :
    Int × Buffer × δ :=
  let sectorsNeeded := (entry.length + 511) / 512
  readSectors entry maxLen sectorsNeeded.toNat 0 0 buffer d

end

end CDosX86
