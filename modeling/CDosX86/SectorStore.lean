import CDosX86.Cells
import CDosX86.IdealDrive
import CDosX86.StateMonad

namespace CDosX86

open Ports

structure Registers where
  driveHead : Byte
  lbaLo : Byte
  lbaMid : Byte
  lbaHi : Byte

def Registers.selected (r : Registers) : Nat :=
  r.driveHead.toNat % 16 * 2 ^ 24 + r.lbaHi.toNat * 2 ^ 16 + r.lbaMid.toNat * 2 ^ 8 + r.lbaLo.toNat

structure Lba28 (δ : Type) where
  idle : δ → Prop
  registers : δ → Registers
  disk : δ → Nat → Sector

namespace Lba28

variable {δ : Type} [Ports δ]

-- From `d` to `d'` nothing but the registers changes.
structure Latches (v : Lba28 δ) (d d' : δ) (r : Registers) : Prop where
  idle : v.idle d'
  disk : v.disk d' = v.disk d
  registers : v.registers d' = r

-- The drive takes the sector that its registers name, and the words in the order of the bytes.
structure Ideal (v : Lba28 δ) : Prop where
  driveHead : ∀ d val, v.idle d →
    v.Latches d (outb ataDriveHead val d) { v.registers d with driveHead := val }
  seccount : ∀ d val, v.idle d → v.Latches d (outb ataSeccount val d) (v.registers d)
  lbaLo : ∀ d val, v.idle d → v.Latches d (outb ataLbaLo val d) { v.registers d with lbaLo := val }
  lbaMid : ∀ d val, v.idle d → v.Latches d (outb ataLbaMid val d) { v.registers d with lbaMid := val }
  lbaHi : ∀ d val, v.idle d → v.Latches d (outb ataLbaHi val d) { v.registers d with lbaHi := val }
  status : ∀ d, v.idle d → v.idle (inb ataStatus d).2 ∧ v.disk (inb ataStatus d).2 = v.disk d
  read : ∀ d, v.idle d → ∃ d₁ d₂, Settles DataReady pollTimeout (outb ataCommand ataCmdRead d) d₁ ∧
    Sends (wordsOf (v.disk d (v.registers d).selected)) d₁ d₂ ∧ v.idle d₂ ∧ v.disk d₂ = v.disk d
  write : ∀ d, v.idle d → ∃ d₁, Settles DataReady pollTimeout (outb ataCommand ataCmdWrite d) d₁ ∧
    ∀ w : Nat → BitVec 16,
      let d₂ := outb ataCommand ataCmdFlush (Loop.upto (fun i => outw ataData (w i)) 256 d₁)
      v.idle d₂ ∧
        v.disk d₂ = Function.update (v.disk d) (v.registers d).selected (bytesOf fun i => w i)

def drive (v : Lba28 δ) : Drive δ := ⟨v.idle, 2 ^ 28, v.disk⟩

variable {v : Lba28 δ}

theorem Ideal.selectSector (h : v.Ideal) {d : δ} (lba : Lba) (hd : v.idle d) :
    v.idle (selectSector lba d) ∧ v.disk (selectSector lba d) = v.disk d ∧
      (v.registers (selectSector lba d)).selected = address lba := by
  have h₁ := h.driveHead d (0xE0 ||| (lba >>> 24 &&& 0x0F).setWidth 8) hd
  have h₂ := h.seccount _ 1 h₁.idle
  have h₃ := h.lbaLo _ ((lba &&& 0xFF).setWidth 8) h₂.idle
  have h₄ := h.lbaMid _ ((lba >>> 8 &&& 0xFF).setWidth 8) h₃.idle
  have h₅ := h.lbaHi _ ((lba >>> 16 &&& 0xFF).setWidth 8) h₄.idle
  refine ⟨h₅.idle, ?_, ?_⟩
  · rw [CDosX86.selectSector, h₅.disk, h₄.disk, h₃.disk, h₂.disk, h₁.disk]
  · rw [CDosX86.selectSector, h₅.registers, h₄.registers, h₃.registers, h₂.registers, h₁.registers]
    exact address_of_registers lba

theorem Ideal.honoursReads (h : v.Ideal) : v.drive.HonoursReads where
  status := h.status
  read := by
    intro d lba hd _
    obtain ⟨hidle, hdisk, hselected⟩ := h.selectSector lba hd
    have hread := h.read _ hidle
    rwa [hdisk, hselected] at hread
  read_beyond := by
    intro d lba _ hlba
    have hlt : address lba < 2 ^ 28 := Nat.mod_lt _ (by decide)
    exact absurd hlba (Nat.not_le.mpr hlt)

theorem Ideal.honoursWrites (h : v.Ideal) : v.drive.HonoursWrites where
  write := by
    intro d lba hd _
    obtain ⟨hidle, hdisk, hselected⟩ := h.selectSector lba hd
    have hwrite := h.write _ hidle
    rwa [hdisk, hselected] at hwrite

end Lba28

abbrev SectorNumber := {lba : Lba // lba.toNat < 2 ^ 28}

def SectorNumber.index (lba : SectorNumber) : Nat := lba.val.toNat

theorem SectorNumber.index_injective : Function.Injective SectorNumber.index :=
  fun _ _ h => Subtype.ext (BitVec.eq_of_toNat_eq h)

theorem SectorNumber.address_eq (lba : SectorNumber) : address lba.val = lba.index :=
  Nat.mod_eq_of_lt lba.property

inductive SectorOp where
  | read (lba : SectorNumber) (buffer : Buffer)
  | write (lba : SectorNumber) (buffer : Buffer)

namespace SectorOp

def lba : SectorOp → SectorNumber
  | .read lba _ => lba
  | .write lba _ => lba

def stored : SectorOp → List (SectorNumber × Sector)
  | .read _ _ => []
  | .write lba buffer => [(lba, sectorOf buffer)]

def writes (ops : List SectorOp) : List (SectorNumber × Sector) := ops.flatMap stored

def lastWrite (lba : SectorNumber) (ops : List SectorOp) : Option Sector :=
  (Cells.storedAt lba (writes ops)).getLast?

theorem stored_filter (lba : SectorNumber) (op : SectorOp) :
    op.stored.filter (·.1 = lba) = if op.lba = lba then op.stored else [] := by
  cases op with
  | read lba' buffer => exact (ite_self []).symm
  | write lba' buffer =>
      rw [stored, List.filter_cons, List.filter_nil, SectorOp.lba]
      simp only [decide_eq_true_eq]

theorem writes_filter (lba : SectorNumber) (ops : List SectorOp) :
    writes (ops.filter (·.lba = lba)) = (writes ops).filter (·.1 = lba) := by
  induction ops with
  | nil => rfl
  | cons op ops ih =>
      have hwrites : writes (op :: ops) = op.stored ++ writes ops := List.flatMap_cons
      rw [hwrites, List.filter_append, stored_filter, ← ih]
      by_cases heq : op.lba = lba
      · rw [if_pos heq, List.filter_cons_of_pos (by simpa using heq)]
        exact List.flatMap_cons
      · rw [if_neg heq, List.filter_cons_of_neg (by simpa using heq), List.nil_append]

section

variable {δ : Type} [Ports δ]

-- The return value, and the caller's buffer after the call.
def perform : SectorOp → StateM δ (Int × Buffer)
  | .read lba buffer => fun d =>
      let (r, buffer, d) := ataReadSector lba.val buffer d
      ((r, buffer), d)
  | .write lba buffer => fun d =>
      let (r, d) := ataWriteSector lba.val buffer d
      ((r, buffer), d)

def performAll (ops : List SectorOp) : StateM δ (List (Int × Buffer)) := ops.mapM perform

def result (disk : Nat → Sector) : SectorOp → Int × Buffer
  | .read lba buffer => (0, fill buffer (disk lba.index))
  | .write _ buffer => (0, buffer)

variable {v : Lba28 δ}

def onDisk (ws : List (SectorNumber × Sector)) : List (Nat × Sector) :=
  ws.map (Prod.map SectorNumber.index id)

theorem perform_spec (h : v.Ideal) {d : δ} (hd : v.idle d) (op : SectorOp) :
    (op.perform d).1 = op.result (v.disk d) ∧ v.idle (op.perform d).2 ∧
      v.disk (op.perform d).2 = Cells.contents (v.disk d) (onDisk op.stored) := by
  have hin : ∀ lba : Lba, address lba < v.drive.sectors := fun lba => Nat.mod_lt _ (by decide)
  cases op with
  | read lba buffer =>
      obtain ⟨d', hrun, hidle, hdisk⟩ := h.honoursReads.ataReadSector lba.val hd (hin _) buffer
      rw [lba.address_eq] at hrun
      have hperform : (read lba buffer).perform d = ((read lba buffer).result (v.disk d), d') := by
        rw [perform]
        dsimp only
        rw [hrun]
        rfl
      rw [hperform]
      exact ⟨rfl, hidle, hdisk⟩
  | write lba buffer =>
      obtain ⟨d', hrun, hidle, hdisk⟩ :=
        h.honoursWrites.ataWriteSector h.honoursReads lba.val hd (hin _) buffer
      rw [lba.address_eq] at hdisk
      have hperform : (write lba buffer).perform d = ((write lba buffer).result (v.disk d), d') := by
        rw [perform]
        dsimp only
        rw [hrun]
        rfl
      rw [hperform]
      exact ⟨rfl, hidle, hdisk⟩

theorem performAll_spec (h : v.Ideal) {d : δ} (hd : v.idle d) (ops : List SectorOp) :
    v.idle (performAll ops d).2 ∧
      v.disk (performAll ops d).2 = Cells.contents (v.disk d) (onDisk (writes ops)) := by
  induction ops generalizing d with
  | nil => exact ⟨hd, rfl⟩
  | cons op ops ih =>
      obtain ⟨-, hidle, hdisk⟩ := perform_spec h hd op
      obtain ⟨hidle', hdisk'⟩ := ih hidle
      rw [performAll, List.mapM_cons]
      refine ⟨hidle', hdisk'.trans ?_⟩
      rw [hdisk, ← Cells.contents_append, onDisk, onDisk, ← List.map_append]
      rfl

theorem performAll_disk (h : v.Ideal) {d : δ} (hd : v.idle d) (ops : List SectorOp)
    (lba : SectorNumber) :
    v.disk (performAll ops d).2 lba.index = (lastWrite lba ops).getD (v.disk d lba.index) := by
  rw [(performAll_spec h hd ops).2, Cells.contents_apply, onDisk,
    Cells.storedAt_map SectorNumber.index_injective]
  rfl

theorem performAll_read (h : v.Ideal) {d : δ} (hd : v.idle d) (ops : List SectorOp)
    (lba : SectorNumber) (buffer : Buffer) :
    ((read lba buffer).perform (performAll ops d).2).1 =
      (0, fill buffer ((lastWrite lba ops).getD (v.disk d lba.index))) := by
  rw [(perform_spec h (performAll_spec h hd ops).1 _).1, result, performAll_disk h hd]

theorem lastWrite_filter (lba : SectorNumber) (ops : List SectorOp) :
    lastWrite lba (ops.filter (·.lba = lba)) = lastWrite lba ops := by
  rw [lastWrite, lastWrite, writes_filter, Cells.storedAt_filter]

end

end SectorOp

open SectorOp

theorem sectors_read_back {δ : Type} [Ports δ] {v : Lba28 δ} (h : v.Ideal) {d : δ}
    (hd : v.idle d) (ops : List SectorOp) {i : Nat} {lba : SectorNumber} {buffer : Buffer}
    (hread : ops[i]? = some (.read lba buffer)) :
    (performAll ops d).1[i]? =
        some (0, fill buffer ((lastWrite lba (ops.take i)).getD (v.disk d lba.index))) ∧
      (performAll ops d).1[i]? = some ((SectorOp.read lba buffer).perform
        (performAll ((ops.take i).filter (·.lba = lba)) d).2).1 := by
  have hat := StateMonad.mapM_getElem? (m := SectorOp.perform) hread d
  have hresult := performAll_read h hd (ops.take i) lba buffer
  have halone := performAll_read h hd ((ops.take i).filter (·.lba = lba)) lba buffer
  rw [lastWrite_filter] at halone
  exact ⟨hat.trans (congrArg some hresult), hat.trans (congrArg some (hresult.trans halone.symm))⟩

namespace IdealDrive

def registers (d : IdealDrive) : Registers := ⟨d.driveHead, d.lbaLo, d.lbaMid, d.lbaHi⟩

def lba28 : Lba28 IdealDrive where
  idle := (drive (2 ^ 28)).idle
  registers := registers
  disk := (drive (2 ^ 28)).disk

theorem selected_lt (d : IdealDrive) : d.selected < 2 ^ 28 := by
  have hlo := d.lbaLo.isLt
  have hmid := d.lbaMid.isLt
  have hhi := d.lbaHi.isLt
  rw [selected]
  omega

theorem lba28_ideal : lba28.Ideal where
  driveHead := fun d val hd => ⟨hd, rfl, rfl⟩
  seccount := fun d val hd => ⟨hd, rfl, rfl⟩
  lbaLo := fun d val hd => ⟨hd, rfl, rfl⟩
  lbaMid := fun d val hd => ⟨hd, rfl, rfl⟩
  lbaHi := fun d val hd => ⟨hd, rfl, rfl⟩
  status := (drive_reads (2 ^ 28)).status
  read := by
    rintro d ⟨hidle, hsectors⟩
    have hin : d.selected < d.sectors := hsectors ▸ d.selected_lt
    obtain ⟨d₁, hready, hsends⟩ := read_selected hin
    exact ⟨d₁, _, hready, hsends, ⟨rfl, hsectors⟩, rfl⟩
  write := by
    rintro d ⟨hidle, hsectors⟩
    have hin : d.selected < d.sectors := hsectors ▸ d.selected_lt
    obtain ⟨d₁, hready, hdone⟩ := write_selected hin
    refine ⟨d₁, hready, fun w => ?_⟩
    rw [hdone]
    exact ⟨⟨rfl, hsectors⟩, rfl⟩

def zeroed : IdealDrive := ⟨2 ^ 28, fun _ _ => 0, 0, 0, 0, 0, .none⟩

end IdealDrive

def lastSector : SectorNumber := ⟨0xFFFFFFF, by decide⟩

def firstSector : SectorNumber := ⟨0, by decide⟩

theorem sectors_read_back_zeroed :
    let ops : List SectorOp := [.write lastSector fun _ => 0xAA, .write firstSector fun _ => 0x55,
      .read lastSector fun _ => 0]
    (performAll ops IdealDrive.zeroed).1[2]? = some (0, fill (fun _ => 0)
        ((lastWrite lastSector (ops.take 2)).getD
          (IdealDrive.lba28.disk IdealDrive.zeroed lastSector.index))) ∧
      (performAll ops IdealDrive.zeroed).1[2]? = some ((SectorOp.read lastSector fun _ => 0).perform
        (performAll ((ops.take 2).filter (·.lba = lastSector)) IdealDrive.zeroed).2).1 :=
  sectors_read_back IdealDrive.lba28_ideal ⟨rfl, rfl⟩ _ rfl

end CDosX86
