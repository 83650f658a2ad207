import CDosX86.Drive

namespace CDosX86

open Ports LittleEndian

inductive Transfer where
  | none
  | reading (lba pos : Nat)
  | writing (lba pos : Nat) (words : Nat → BitVec 16)
  | failed

structure IdealDrive where
  sectors : Nat
  content : Nat → Sector
  driveHead : Byte
  lbaLo : Byte
  lbaMid : Byte
  lbaHi : Byte
  transfer : Transfer

namespace IdealDrive

def selected (d : IdealDrive) : Nat :=
  d.driveHead.toNat % 16 * 2 ^ 24 + d.lbaHi.toNat * 2 ^ 16 + d.lbaMid.toNat * 2 ^ 8 + d.lbaLo.toNat

def status : Transfer → Byte
  | .none => 0x40
  | .reading _ _ => 0x48
  | .writing _ _ _ => 0x48
  | .failed => 0x41

def start (command : Byte) (d : IdealDrive) : Transfer :=
  if d.selected < d.sectors then
    if command = ataCmdRead then .reading d.selected 0
    else if command = ataCmdWrite then .writing d.selected 0 fun _ => 0
    else .none
  else if command = ataCmdFlush then .none
  else .failed

def word (s : Sector) (i : Nat) : BitVec 16 :=
  if h : i < 256 then wordsOf s ⟨i, h⟩ else 0

instance : Ports IdealDrive where
  inb port d :=
    if port = ataStatus then
      (status d.transfer, match d.transfer with
        | .failed => { d with transfer := .none }
        | _ => d)
    else (0, d)
  outb port val d :=
    if port = ataDriveHead then { d with driveHead := val }
    else if port = ataLbaLo then { d with lbaLo := val }
    else if port = ataLbaMid then { d with lbaMid := val }
    else if port = ataLbaHi then { d with lbaHi := val }
    else if port = ataCommand then { d with transfer := start val d }
    else d
  inw _ d :=
    match d.transfer with
    | .reading lba pos =>
        (word (d.content lba) pos,
          { d with transfer := if pos + 1 < 256 then .reading lba (pos + 1) else .none })
    | _ => (0, d)
  outw _ val d :=
    match d.transfer with
    | .writing lba pos words =>
        let words := Function.update words pos val
        if pos + 1 < 256 then { d with transfer := .writing lba (pos + 1) words }
        else
          { d with
            content := Function.update d.content lba (bytesOf fun i => words i)
            transfer := .none }
    | _ => d

def drive (sectors : Nat) : Drive IdealDrive where
  idle d := d.transfer = .none ∧ d.sectors = sectors
  sectors := sectors
  disk d := d.content

theorem selected_selectSector (lba : Lba) (d : IdealDrive) :
    (selectSector lba d).selected = address lba := address_of_registers lba

def withTransfer (t : Transfer) (d : IdealDrive) : IdealDrive := { d with transfer := t }

theorem start_read {d : IdealDrive} (h : d.selected < d.sectors) :
    start ataCmdRead d = .reading d.selected 0 := by
  rw [start, if_pos h, if_pos rfl]

theorem start_write {d : IdealDrive} (h : d.selected < d.sectors) :
    start ataCmdWrite d = .writing d.selected 0 fun _ => 0 := by
  rw [start, if_pos h, if_neg (by decide), if_pos rfl]

theorem start_beyond {d : IdealDrive} (h : ¬ d.selected < d.sectors) :
    start ataCmdRead d = .failed := by
  rw [start, if_neg h, if_neg (by decide)]

theorem start_flush (d : IdealDrive) : start ataCmdFlush d = .none := by
  unfold start
  split
  · rw [if_neg (by decide), if_neg (by decide)]
  · rw [if_pos rfl]

theorem command_eq (c : Byte) (d : IdealDrive) :
    outb ataCommand c d = d.withTransfer (start c d) := rfl

theorem sends_sector (lba : Nat) (d : IdealDrive) :
    Sends (wordsOf (d.content lba)) (d.withTransfer (.reading lba 0)) (d.withTransfer .none) := by
  refine ⟨fun i => d.withTransfer (if i < 256 then .reading lba i else .none), rfl, rfl, ?_⟩
  intro i
  dsimp only
  rw [if_pos i.isLt]
  change (word (d.content lba) i, _) = _
  rw [word, dif_pos i.isLt]
  rfl

theorem data_ready (t : Transfer) (h : status t = 0x48) : DataReady (status t) := by
  rw [h]
  exact ⟨by decide, by decide, by decide⟩

theorem errored : Errored (status .failed) := ⟨by decide, by decide⟩

theorem settles_reading (lba pos : Nat) (d : IdealDrive) :
    Settles DataReady pollTimeout (d.withTransfer (.reading lba pos))
      (d.withTransfer (.reading lba pos)) :=
  Settles.now (d := d.withTransfer (.reading lba pos)) (data_ready (.reading lba pos) rfl)

theorem settles_writing (lba pos : Nat) (w : Nat → BitVec 16) (d : IdealDrive) :
    Settles DataReady pollTimeout (d.withTransfer (.writing lba pos w))
      (d.withTransfer (.writing lba pos w)) :=
  Settles.now (d := d.withTransfer (.writing lba pos w)) (data_ready (.writing lba pos w) rfl)

theorem settles_failed (d : IdealDrive) :
    Settles Errored pollTimeout (d.withTransfer .failed) (d.withTransfer .none) :=
  Settles.now (d := d.withTransfer .failed) errored

theorem receives_sector (lba : Nat) (d : IdealDrive) (w : Nat → BitVec 16) :
    Loop.upto (fun i => outw ataData (w i)) 256 (d.withTransfer (.writing lba 0 fun _ => 0)) =
      { d with
        content := Function.update d.content lba (bytesOf fun i => w i)
        transfer := .none } := by
  have hinv : ∃ words : Nat → BitVec 16, (∀ j < 255, words j = w j) ∧
      Loop.upto (fun i => outw ataData (w i)) 255 (d.withTransfer (.writing lba 0 fun _ => 0)) =
        d.withTransfer (.writing lba 255 words) := by
    refine Loop.upto_invariant (I := fun i t => ∃ words : Nat → BitVec 16,
      (∀ j < i, words j = w j) ∧ t = d.withTransfer (.writing lba i words))
      ⟨fun _ => 0, by simp, rfl⟩ ?_
    rintro i t hi ⟨words, hwords, rfl⟩
    refine ⟨Function.update words i (w i), fun j hj => ?_, if_pos (by omega)⟩
    rw [Function.update_apply]
    split
    · next heq => rw [heq]
    · next hne => exact hwords j (by omega)
  obtain ⟨words, hwords, hlast⟩ := hinv
  rw [Loop.upto, hlast]
  change (if 255 + 1 < 256 then _ else _ : IdealDrive) = _
  rw [if_neg (by decide)]
  have hall : ∀ i : Fin 256, Function.update words 255 (w 255) i = w i := by
    intro i
    rw [Function.update_apply]
    split
    · next heq => rw [heq]
    · next hne => exact hwords i (by omega)
  simp only [hall]
  rfl

theorem read_selected {d : IdealDrive} (h : d.selected < d.sectors) : ∃ d₁,
    Settles DataReady pollTimeout (outb ataCommand ataCmdRead d) d₁ ∧
      Sends (wordsOf (d.content d.selected)) d₁ (d.withTransfer .none) := by
  rw [command_eq, start_read h]
  exact ⟨_, settles_reading _ _ _, sends_sector d.selected d⟩

theorem write_selected {d : IdealDrive} (h : d.selected < d.sectors) : ∃ d₁,
    Settles DataReady pollTimeout (outb ataCommand ataCmdWrite d) d₁ ∧ ∀ w : Nat → BitVec 16,
      outb ataCommand ataCmdFlush (Loop.upto (fun i => outw ataData (w i)) 256 d₁) =
        { d with
          content := Function.update d.content d.selected (bytesOf fun i => w i)
          transfer := .none } := by
  rw [command_eq, start_write h]
  refine ⟨_, settles_writing _ _ _ _, fun w => ?_⟩
  rw [receives_sector, command_eq, start_flush]
  rfl

theorem drive_reads (sectors : Nat) : (drive sectors).HonoursReads where
  status := by
    rintro d ⟨hidle, hsectors⟩
    have hsame : (inb ataStatus d).2 = d := by
      change (match d.transfer with | .failed => _ | _ => d) = d
      rw [hidle]
    rw [hsame]
    exact ⟨⟨hidle, hsectors⟩, rfl⟩
  read := by
    rintro d lba ⟨hidle, rfl⟩ hlba
    have hin : (selectSector lba d).selected < (selectSector lba d).sectors := by
      rw [selected_selectSector]
      exact hlba
    obtain ⟨d₁, hready, hsends⟩ := read_selected hin
    rw [selected_selectSector] at hsends
    exact ⟨d₁, _, hready, hsends, ⟨rfl, rfl⟩, rfl⟩
  read_beyond := by
    rintro d lba ⟨hidle, rfl⟩ hlba
    have hout : ¬ (selectSector lba d).selected < (selectSector lba d).sectors := by
      rw [selected_selectSector]
      exact Nat.not_lt.mpr hlba
    rw [command_eq, start_beyond hout]
    exact ⟨_, settles_failed _, ⟨rfl, rfl⟩, rfl⟩

theorem drive_writes (sectors : Nat) : (drive sectors).HonoursWrites where
  write := by
    rintro d lba ⟨hidle, rfl⟩ hlba
    have hin : (selectSector lba d).selected < (selectSector lba d).sectors := by
      rw [selected_selectSector]
      exact hlba
    obtain ⟨d₁, hready, hdone⟩ := write_selected hin
    refine ⟨d₁, hready, fun w => ?_⟩
    rw [hdone, selected_selectSector]
    exact ⟨⟨rfl, rfl⟩, rfl⟩

end IdealDrive

end CDosX86
