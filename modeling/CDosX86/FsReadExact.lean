import CDosX86.DiskRoundTrip
import CDosX86.FsRead

namespace CDosX86

def sectorBytes (sectors : List Buffer) : List Byte :=
  sectors.flatMap fun sector => (List.range 512).map sector

def wanted (entry : FsEntry) (maxLen : BitVec 32) : Nat := min entry.length.toNat maxLen.toNat

theorem sectorBytes_cons_lt (sector : Buffer) (sectors : List Buffer) {j : Nat} (hj : j < 512) :
    (sectorBytes (sector :: sectors))[j]? = some (sector j) := by
  simp [sectorBytes, List.getElem?_append_left, hj]

theorem sectorBytes_cons_add (sector : Buffer) (sectors : List Buffer) (j : Nat) :
    (sectorBytes (sector :: sectors))[512 + j]? = (sectorBytes sectors)[j]? := by
  simp [sectorBytes, List.getElem?_append_right]

section

variable {δ : Type}

-- What the loop still does from `copied` bytes on, given what the rest of the run reads.
structure Finishes (entry : FsEntry) (maxLen : BitVec 32) (copied : Nat) (buffer : Buffer)
    (run : Option (List Buffer) × δ) (out : Int × Buffer × δ) : Prop where
  device : out.2.2 = run.2
  failed : run.1 = none → out.1 = -1
  returned : ∀ sectors, run.1 = some sectors → out.1 = wanted entry maxLen ∧
    ∀ j, copied + j < wanted entry maxLen →
      (sectorBytes sectors)[j]? = some (out.2.1 (copied + j))
  frame : ∀ p, p < copied ∨ wanted entry maxLen ≤ p → out.2.1 p = buffer p

theorem finishes_none {entry : FsEntry} {maxLen : BitVec 32} {copied : Nat} {buffer : Buffer}
    {d : δ} : Finishes entry maxLen copied buffer (none, d) (-1, buffer, d) where
  device := rfl
  failed _ := rfl
  returned sectors h := by cases h
  frame _ _ := rfl

theorem finishes_done {entry : FsEntry} {maxLen : BitVec 32} {copied : Nat} {buffer : Buffer}
    {d : δ} {r : Int} (hr : r = wanted entry maxLen) (hcopied : copied = wanted entry maxLen) :
    Finishes entry maxLen copied buffer (some [], d) (r, buffer, d) where
  device := rfl
  failed h := by cases h
  returned sectors h := ⟨hr, fun j hj => by omega⟩
  frame _ _ := rfl

theorem finishes_chunk {entry : FsEntry} {maxLen copied : BitVec 32} (chunk : BitVec 32)
    {sector buffer : Buffer}
    {run : Option (List Buffer) × δ} {out : Int × Buffer × δ}
    (hsum : copied.toNat + chunk.toNat < 2 ^ 32)
    (hwanted : copied.toNat + chunk.toNat ≤ wanted entry maxLen)
    (hchunk : chunk.toNat = 512 ∨ copied.toNat + chunk.toNat = wanted entry maxLen ∧ chunk.toNat ≤ 512)
    (h : Finishes entry maxLen (copied.toNat + chunk.toNat) (copyChunk sector copied chunk buffer)
      run out) :
    Finishes entry maxLen copied.toNat buffer (run.1.map fun ss => sector :: ss, run.2) out where
  device := h.device
  failed hnone := h.failed (by simpa using hnone)
  returned sectors hsectors := by
    obtain ⟨rest, hrest, rfl⟩ := Option.map_eq_some_iff.mp hsectors
    obtain ⟨hr, hbytes⟩ := h.returned rest hrest
    refine ⟨hr, fun j hj => ?_⟩
    by_cases hnew : j < chunk.toNat
    · rw [sectorBytes_cons_lt sector rest (by omega), h.frame _ (Or.inl (by omega)),
        copyChunk_apply _ _ hsum, if_pos (by omega), Nat.add_sub_cancel_left]
    · have hold : chunk.toNat = 512 := by omega
      obtain ⟨i, rfl⟩ := Nat.exists_eq_add_of_le (Nat.not_lt.mp hnew)
      rw [hold, sectorBytes_cons_add, hbytes i (by omega), hold, Nat.add_assoc]
  frame p hp := by
    rw [h.frame p (by omega), copyChunk_apply _ _ hsum, if_neg (by omega)]

variable [Ports δ]

-- Sectors `start + k`, ..., `start + k + n - 1`, asked for in turn up to the first that fails.
def readRun (start : BitVec 32) : Nat → Nat → δ → Option (List Buffer) × δ
  | 0, _, d => (some [], d)
  | n + 1, k, d =>
      let (r, sector, d) := ataReadSector (start + BitVec.ofNat 32 k) unwritten d
      if r ≠ 0 then (none, d)
      else
        let (sectors, d) := readRun start n (k + 1) d
        (sectors.map fun ss => sector :: ss, d)

structure ReadsExactly (entry : FsEntry) (maxLen : BitVec 32) (buffer : Buffer) (d : δ) : Prop where
  requests : (fsReadFile entry buffer maxLen d).2.2 =
    (readRun entry.startLba ((wanted entry maxLen + 511) / 512) 0 d).2
  failed : (readRun entry.startLba ((wanted entry maxLen + 511) / 512) 0 d).1 = none →
    (fsReadFile entry buffer maxLen d).1 = -1
  returned : ∀ sectors,
    (readRun entry.startLba ((wanted entry maxLen + 511) / 512) 0 d).1 = some sectors →
      (fsReadFile entry buffer maxLen d).1 = wanted entry maxLen ∧
        (List.range (wanted entry maxLen)).map (fsReadFile entry buffer maxLen d).2.1 =
          (sectorBytes sectors).take (wanted entry maxLen)
  inside : ∀ p, maxLen.toNat ≤ p → (fsReadFile entry buffer maxLen d).2.1 p = buffer p

theorem readSectors_finishes {entry : FsEntry} {maxLen : BitVec 32} (hmax : maxLen.toNat < 2 ^ 31)
    {n m k : Nat} (hn : n + k = (entry.length.toNat + 511) / 512)
    (hm : m + k = (wanted entry maxLen + 511) / 512) (copied : BitVec 32)
    (hcopied : copied.toNat = min entry.length.toNat (512 * k)) (hlt : copied.toNat < maxLen.toNat)
    (buffer : Buffer) (d : δ) :
    Finishes entry maxLen copied.toNat buffer (readRun entry.startLba m k d)
      (readSectors entry maxLen n (BitVec.ofNat 32 k) copied buffer d) := by
  unfold wanted at hm
  induction n generalizing m k copied buffer d with
  | zero =>
      have hend : copied.toNat = min entry.length.toNat maxLen.toNat := by omega
      have hdone : m = 0 := by omega
      rw [hdone, readRun, readSectors]
      exact finishes_done (by rw [BitVec.toInt_eq_toNat_of_lt (by omega), hend, wanted]) hend
  | succ n ih =>
      have hk : copied.toNat = 512 * k := by omega
      have hmissing : copied.toNat < entry.length.toNat := by omega
      obtain ⟨m, rfl⟩ : ∃ m', m = m' + 1 := ⟨m - 1, by omega⟩
      have hchunk := nextChunk_toNat hmax hk hmissing hlt
      have hnext := copied_nextChunk_toNat hmax hk hmissing hlt
      rw [readRun, readSectors]
      generalize ataReadSector (entry.startLba + BitVec.ofNat 32 k) unwritten d = read
      obtain ⟨r, sector, d₁⟩ := read
      dsimp only
      by_cases hr : r = 0
      · rw [if_neg (not_not.mpr hr), if_neg (not_not.mpr hr)]
        refine finishes_chunk (nextChunk entry maxLen copied) (by omega)
          (by rw [wanted]; omega) (by rw [wanted]; omega) ?_
        rw [← hnext]
        split
        · next hfull =>
          have hend := BitVec.le_def.mp hfull
          have hlast : m = 0 := by omega
          have htotal : (copied + nextChunk entry maxLen copied).toNat = wanted entry maxLen := by
            rw [wanted]
            omega
          rw [hlast, readRun]
          exact finishes_done (by rw [BitVec.toInt_eq_toNat_of_lt (by omega), htotal]) htotal
        · next hmore =>
          have hlt' := BitVec.not_le.mp hmore
          rw [BitVec.lt_def] at hlt'
          have hrest := ih (m := m) (k := k + 1) (by omega) (by omega)
            (copied + nextChunk entry maxLen copied) (by omega) hlt'
            (copyChunk sector copied (nextChunk entry maxLen copied) buffer) d₁
          rw [BitVec.ofNat_add] at hrest
          exact hrest
      · rw [if_pos hr, if_pos hr]
        exact finishes_none

theorem fsReadFile_finishes {entry : FsEntry} {maxLen : BitVec 32} (hpos : 0 < maxLen.toNat)
    (hmax : maxLen.toNat < 2 ^ 31) (hlen : entry.length.toNat + 511 < 2 ^ 32) (buffer : Buffer)
    (d : δ) :
    Finishes entry maxLen 0 buffer
      (readRun entry.startLba ((wanted entry maxLen + 511) / 512) 0 d)
      (fsReadFile entry buffer maxLen d) := by
  rw [fsReadFile, sectorsNeeded_toNat hlen]
  exact readSectors_finishes (k := 0) hmax rfl rfl 0 (by simp) hpos buffer d

theorem finishes_reads {entry : FsEntry} {maxLen : BitVec 32} {buffer : Buffer} {d : δ}
    (h : Finishes entry maxLen 0 buffer
      (readRun entry.startLba ((wanted entry maxLen + 511) / 512) 0 d)
      (fsReadFile entry buffer maxLen d)) :
    ReadsExactly entry maxLen buffer d where
  requests := h.device
  failed := h.failed
  returned sectors hsectors := by
    obtain ⟨hr, hbytes⟩ := h.returned sectors hsectors
    refine ⟨hr, List.ext_getElem? fun j => ?_⟩
    by_cases hj : j < wanted entry maxLen
    · have hbyte := hbytes j (by rwa [Nat.zero_add])
      rw [Nat.zero_add] at hbyte
      simp [hj, hbyte]
    · simp [hj]
  inside p hp := h.frame p (Or.inr ((Nat.min_le_right _ _).trans hp))

theorem not_reads_of_wraps {entry : FsEntry} {maxLen : BitVec 32} (hpos : 0 < maxLen.toNat)
    (hlen : 2 ^ 32 ≤ entry.length.toNat + 511) (buffer : Buffer) (d : δ) :
    ¬ ReadsExactly entry maxLen buffer d := by
  intro h
  have hzero : (fsReadFile entry buffer maxLen d).1 = 0 := by rw [fsReadFile_wraps hlen]
  have hwanted : 0 < wanted entry maxLen := by
    rw [wanted]
    omega
  cases hrun : (readRun entry.startLba ((wanted entry maxLen + 511) / 512) 0 d).1 with
  | none =>
      have := h.failed hrun
      omega
  | some sectors =>
      have := (h.returned sectors hrun).1
      omega

theorem fs_read_file_exact (entry : FsEntry) {maxLen : BitVec 32} (hpos : 0 < maxLen.toNat)
    (hmax : maxLen.toNat ≤ 8192) (buffer : Buffer) (d : δ) :
    ReadsExactly entry maxLen buffer d ↔ entry.length.toNat + 511 < 2 ^ 32 := by
  constructor
  · intro h
    by_contra hlen
    exact not_reads_of_wraps hpos (by omega) buffer d h
  · intro hlen
    exact finishes_reads (fsReadFile_finishes hpos (by omega) hlen buffer d)

end

def fileAt (startLba length : BitVec 32) : FsEntry := { name := fun _ => 0x41, startLba, length }

def seventeenSectors : IdealDrive := IdealDrive.holding (List.replicate 8704 0x42)

theorem fs_read_file_exact_rom :
    ReadsExactly (fileAt 1 8192) 8192 unwritten seventeenSectors :=
  (fs_read_file_exact (fileAt 1 8192) (by decide) (by decide) unwritten seventeenSectors).mpr
    (by decide)

theorem fs_read_file_skips_huge :
    ¬ ReadsExactly (fileAt 1 0xFFFFFFFF) 8192 unwritten seventeenSectors :=
  not_reads_of_wraps (by decide) (by decide) unwritten seventeenSectors

end CDosX86
