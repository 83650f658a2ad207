import CDosX86.Drive
import CDosX86.Fs

namespace CDosX86

def fileByte (disk : Nat → Sector) (start : BitVec 32) (p : Nat) : Byte :=
  disk (address (start + BitVec.ofNat 32 (p / 512))) (inSector p)

-- The first `n` bytes of the file that starts at sector `start`, in front of what was there.
def loaded (disk : Nat → Sector) (start : BitVec 32) (n : Nat) (buffer : Buffer) : Buffer :=
  fun p => if p < n then fileByte disk start p else buffer p

theorem copyChunk_apply (sector buffer : Buffer) {copied chunk : BitVec 32}
    (hsum : copied.toNat + chunk.toNat < 2 ^ 32) (p : Nat) :
    copyChunk sector copied chunk buffer p =
      if copied.toNat ≤ p ∧ p < copied.toNat + chunk.toNat then sector (p - copied.toNat)
      else buffer p := by
  unfold copyChunk
  refine Loop.upto_invariant (I := fun n (b : Buffer) => b p =
    if copied.toNat ≤ p ∧ p < copied.toNat + n then sector (p - copied.toNat) else buffer p) ?_ ?_
  · rw [if_neg (by omega)]
  · intro j b hj hb
    have hindex : (copied + BitVec.ofNat 32 j).toNat = copied.toNat + j := by
      rw [BitVec.toNat_add, BitVec.toNat_ofNat]
      omega
    rw [hindex, Function.update_apply, hb]
    by_cases heq : p = copied.toNat + j
    · rw [if_pos heq, if_pos (by omega)]
      congr 1
      omega
    · rw [if_neg heq]
      have hiff : (copied.toNat ≤ p ∧ p < copied.toNat + j) ↔
          (copied.toNat ≤ p ∧ p < copied.toNat + (j + 1)) := by omega
      simp only [hiff]

theorem copyChunk_loaded (disk : Nat → Sector) (start : BitVec 32) (buffer : Buffer) {k : Nat}
    {copied chunk : BitVec 32} (hk : copied.toNat = 512 * k) (hchunk : chunk.toNat ≤ 512)
    (hsum : copied.toNat + chunk.toNat < 2 ^ 32) :
    copyChunk (fill unwritten (disk (address (start + BitVec.ofNat 32 k)))) copied chunk
        (loaded disk start copied.toNat buffer) =
      loaded disk start (copied.toNat + chunk.toNat) buffer := by
  funext p
  rw [copyChunk_apply _ _ hsum, loaded, loaded]
  by_cases hnew : copied.toNat ≤ p ∧ p < copied.toNat + chunk.toNat
  · have hdiv : p / 512 = k := by omega
    have hmod : p - copied.toNat = p % 512 := by omega
    have hlt : p % 512 < 512 := Nat.mod_lt p (by decide)
    rw [if_pos hnew, if_pos hnew.2, fileByte, hdiv, hmod]
    simp [fill, fillTo, hlt, inSector]
  · rw [if_neg hnew]
    by_cases hold : p < copied.toNat
    · rw [if_pos hold, if_pos (by omega)]
    · rw [if_neg hold, if_neg (by omega)]

theorem nextChunk_toNat {entry : FsEntry} {maxLen copied : BitVec 32} {k : Nat}
    (hmax : maxLen.toNat < 2 ^ 31) (hk : copied.toNat = 512 * k)
    (hlen : copied.toNat < entry.length.toNat) (hlt : copied.toNat < maxLen.toNat) :
    copied.toNat + (nextChunk entry maxLen copied).toNat =
      min (min entry.length.toNat (512 * (k + 1))) maxLen.toNat := by
  have hremaining : (entry.length - copied).toNat = entry.length.toNat - copied.toNat := by
    rw [BitVec.toNat_sub]
    have := entry.length.isLt
    omega
  have hrest : (maxLen - copied).toNat = maxLen.toNat - copied.toNat := by
    rw [BitVec.toNat_sub]
    omega
  have hclip : ∀ c : BitVec 32, c.toNat ≤ 512 →
      copied.toNat + (if copied + c > maxLen then maxLen - copied else c).toNat =
        min (copied.toNat + c.toNat) maxLen.toNat := by
    intro c hc
    have hsum : (copied + c).toNat = copied.toNat + c.toNat := by
      rw [BitVec.toNat_add]
      omega
    split
    · next hover =>
      rw [gt_iff_lt, BitVec.lt_def, hsum] at hover
      omega
    · next hover =>
      rw [gt_iff_lt, BitVec.lt_def, hsum] at hover
      omega
  have hwhole : (512 : BitVec 32).toNat = 512 := rfl
  have hchunk : (if entry.length - copied < 512 then entry.length - copied else 512).toNat =
      min (entry.length.toNat - copied.toNat) 512 := by
    split
    · next hlast =>
      rw [BitVec.lt_def] at hlast
      omega
    · next hlast =>
      rw [BitVec.lt_def] at hlast
      omega
  rw [nextChunk, hclip _ (by omega), hchunk]
  omega

theorem copied_nextChunk_toNat {entry : FsEntry} {maxLen copied : BitVec 32} {k : Nat}
    (hmax : maxLen.toNat < 2 ^ 31) (hk : copied.toNat = 512 * k)
    (hlen : copied.toNat < entry.length.toNat) (hlt : copied.toNat < maxLen.toNat) :
    (copied + nextChunk entry maxLen copied).toNat =
      copied.toNat + (nextChunk entry maxLen copied).toNat := by
  have hchunk := nextChunk_toNat hmax hk hlen hlt
  rw [BitVec.toNat_add]
  omega

theorem sectorsNeeded_toNat {entry : FsEntry} (hlen : entry.length.toNat + 511 < 2 ^ 32) :
    ((entry.length + 511) / 512).toNat = (entry.length.toNat + 511) / 512 := by
  have hrounded : (entry.length + 511).toNat = entry.length.toNat + 511 := by
    rw [BitVec.toNat_add]
    exact Nat.mod_eq_of_lt hlen
  rw [BitVec.toNat_udiv, hrounded]
  rfl

theorem sectorsNeeded_wraps {entry : FsEntry} (hlen : 2 ^ 32 ≤ entry.length.toNat + 511) :
    ((entry.length + 511) / 512).toNat = 0 := by
  have hrounded : (entry.length + 511).toNat = entry.length.toNat + 511 - 2 ^ 32 := by
    have := entry.length.isLt
    have hconst : (511 : BitVec 32).toNat = 511 := rfl
    rw [BitVec.toNat_add, hconst]
    omega
  have hconst : (512 : BitVec 32).toNat = 512 := rfl
  have := entry.length.isLt
  rw [BitVec.toNat_udiv, hrounded, hconst]
  omega

section

variable {δ : Type} [Ports δ] {v : Drive δ}

def Readable (v : Drive δ) (start : BitVec 32) (n : Nat) : Prop :=
  ∀ k, 512 * k < n → address (start + BitVec.ofNat 32 k) < v.sectors

theorem readSectors_spec (h : v.HonoursReads) {entry : FsEntry} {maxLen : BitVec 32} {d : δ}
    (buffer : Buffer) (hd : v.idle d) (hmax : maxLen.toNat < 2 ^ 31)
    (hread : Readable v entry.startLba (min entry.length.toNat maxLen.toNat)) {n k : Nat}
    (hn : n + k = (entry.length.toNat + 511) / 512) {copied : BitVec 32}
    (hcopied : copied.toNat = min entry.length.toNat (512 * k)) (hlt : copied.toNat < maxLen.toNat) :
    ∃ d', readSectors entry maxLen n (BitVec.ofNat 32 k) copied
        (loaded (v.disk d) entry.startLba copied.toNat buffer) d =
      (((min entry.length.toNat maxLen.toNat : Nat) : Int),
        loaded (v.disk d) entry.startLba (min entry.length.toNat maxLen.toNat) buffer, d') ∧
      v.idle d' ∧ v.disk d' = v.disk d := by
  induction n generalizing k copied d with
  | zero =>
      have hend : copied.toNat = min entry.length.toNat maxLen.toNat := by omega
      refine ⟨d, ?_, hd, rfl⟩
      rw [readSectors, ← hend, BitVec.toInt_eq_toNat_of_lt (by omega)]
  | succ n ih =>
      have hk : copied.toNat = 512 * k := by omega
      obtain ⟨d₁, hr, hd₁, hdisk⟩ := h.ataReadSector _ hd (hread k (by omega)) unwritten
      have hmissing : copied.toNat < entry.length.toNat := by omega
      have hchunk := nextChunk_toNat hmax hk hmissing hlt
      have hnext := copied_nextChunk_toNat hmax hk hmissing hlt
      rw [readSectors, hr]
      dsimp only
      rw [if_neg (not_not.mpr rfl), copyChunk_loaded _ _ _ hk (by omega) (by omega), ← hnext]
      split
      · next hfull =>
        have hend := BitVec.le_def.mp hfull
        refine ⟨d₁, ?_, hd₁, hdisk⟩
        have hresult : (copied + nextChunk entry maxLen copied).toNat =
            min entry.length.toNat maxLen.toNat := by omega
        rw [BitVec.toInt_eq_toNat_of_lt (by omega), hresult]
      · next hmore =>
        have hlt' := BitVec.not_le.mp hmore
        rw [BitVec.lt_def] at hlt'
        have hcopied' : (copied + nextChunk entry maxLen copied).toNat =
            min entry.length.toNat (512 * (k + 1)) := by omega
        obtain ⟨d₂, hrest, hd₂, hdisk₂⟩ := ih hd₁ (by omega) hcopied' hlt'
        refine ⟨d₂, ?_, hd₂, hdisk₂.trans hdisk⟩
        rw [BitVec.ofNat_add, hdisk] at hrest
        exact hrest

theorem fsReadFile_spec (h : v.HonoursReads) {entry : FsEntry} {maxLen : BitVec 32} {d : δ}
    (buffer : Buffer) (hd : v.idle d) (hpos : 0 < maxLen.toNat) (hmax : maxLen.toNat < 2 ^ 31)
    (hlen : entry.length.toNat + 511 < 2 ^ 32)
    (hread : Readable v entry.startLba (min entry.length.toNat maxLen.toNat)) :
    ∃ d', fsReadFile entry buffer maxLen d =
      (((min entry.length.toNat maxLen.toNat : Nat) : Int),
        loaded (v.disk d) entry.startLba (min entry.length.toNat maxLen.toNat) buffer, d') ∧
      v.idle d' ∧ v.disk d' = v.disk d := by
  have hstart : (0 : BitVec 32).toNat = min entry.length.toNat (512 * 0) := by simp
  have hempty : loaded (v.disk d) entry.startLba (0 : BitVec 32).toNat buffer = buffer := by
    funext p
    exact if_neg (Nat.not_lt_zero p)
  have hspec := readSectors_spec h buffer hd hmax hread (sectorsNeeded_toNat hlen) hstart hpos
  rw [hempty] at hspec
  exact hspec

theorem fsReadFile_wraps {entry : FsEntry} (hlen : 2 ^ 32 ≤ entry.length.toNat + 511)
    (buffer : Buffer) (maxLen : BitVec 32) (d : δ) :
    fsReadFile entry buffer maxLen d = (0, buffer, d) := by
  rw [fsReadFile, sectorsNeeded_wraps hlen]
  rfl

end

end CDosX86
