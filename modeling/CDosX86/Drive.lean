import CDosX86.Ata
import CDosX86.LittleEndian

namespace CDosX86

open Ports LittleEndian

abbrev Sector := Fin 512 → Byte

def address (lba : Lba) : Nat := lba.toNat % 2 ^ 28

theorem address_of_registers (lba : Lba) :
    ((0xE0 : Byte) ||| (lba >>> 24 &&& 0x0F).setWidth 8).toNat % 16 * 2 ^ 24 +
      ((lba >>> 16 &&& 0xFF).setWidth 8).toNat * 2 ^ 16 +
      ((lba >>> 8 &&& 0xFF).setWidth 8).toNat * 2 ^ 8 + ((lba &&& 0xFF).setWidth 8).toNat =
        address lba := by
  have hlo : (lba &&& 0xFF).toNat = lba.toNat % 256 := Nat.and_two_pow_sub_one_eq_mod _ 8
  have hmid : (lba >>> 8 &&& 0xFF).toNat = lba.toNat / 2 ^ 8 % 256 := by
    rw [← Nat.shiftRight_eq_div_pow]
    exact Nat.and_two_pow_sub_one_eq_mod _ 8
  have hhi : (lba >>> 16 &&& 0xFF).toNat = lba.toNat / 2 ^ 16 % 256 := by
    rw [← Nat.shiftRight_eq_div_pow]
    exact Nat.and_two_pow_sub_one_eq_mod _ 8
  have htop : (lba >>> 24 &&& 0x0F).toNat = lba.toNat / 2 ^ 24 % 16 := by
    rw [← Nat.shiftRight_eq_div_pow]
    exact Nat.and_two_pow_sub_one_eq_mod _ 4
  have hhead : ∀ b : Byte, (0xE0 ||| b).toNat % 16 = b.toNat % 16 := by decide
  rw [hhead, BitVec.toNat_setWidth, BitVec.toNat_setWidth, BitVec.toNat_setWidth,
    BitVec.toNat_setWidth, hlo, hmid, hhi, htop, address]
  omega

def inSector (p : Nat) : Fin 512 := ⟨p % 512, Nat.mod_lt p (by decide)⟩

theorem inSector_of_lt {p : Nat} (h : p < 512) : inSector p = ⟨p, h⟩ := Fin.ext (Nat.mod_eq_of_lt h)

theorem inSector_add (s p : Nat) : inSector (512 * s + p) = inSector p :=
  Fin.ext (Nat.mul_add_mod 512 s p)

def wordsOf (s : Sector) (i : Fin 256) : BitVec 16 :=
  s ⟨i * 2 + 1, by omega⟩ ++ s ⟨i * 2, by omega⟩

def bytesOf (w : Fin 256 → BitVec 16) (j : Fin 512) : Byte :=
  (w ⟨j / 2, by omega⟩).extractLsb' (if j.val % 2 = 0 then 0 else 8) 8

def fillTo (n : Nat) (buffer : Buffer) (s : Sector) : Buffer :=
  fun j => if h : j < 512 then if j < n then s ⟨j, h⟩ else buffer j else buffer j

def fill (buffer : Buffer) (s : Sector) : Buffer := fillTo 512 buffer s

def sectorOf (buffer : Buffer) : Sector := fun j => buffer j

theorem fillTo_zero (buffer : Buffer) (s : Sector) : fillTo 0 buffer s = buffer := by
  funext j
  simp [fillTo]

theorem fillTo_succ (buffer : Buffer) (s : Sector) (n : Fin 512) :
    fillTo (n + 1) buffer s = Function.update (fillTo n buffer s) n (s n) := by
  funext j
  by_cases heq : j = n
  · rw [heq, Function.update_self, fillTo, dif_pos n.isLt, if_pos (Nat.lt_succ_self _)]
  · have hiff : j < n.val + 1 ↔ j < n.val := by omega
    rw [Function.update_of_ne heq]
    simp only [fillTo, hiff]

theorem bytesOf_wordsOf (s : Sector) : bytesOf (wordsOf s) = s := by
  funext j
  unfold bytesOf wordsOf
  split
  · next heven =>
    rw [BitVec.extractLsb'_append_eq_right]
    exact congrArg s (Fin.ext (show j.val / 2 * 2 = j.val by omega))
  · next hodd =>
    rw [BitVec.extractLsb'_append_eq_left]
    exact congrArg s (Fin.ext (show j.val / 2 * 2 + 1 = j.val by omega))

def DataReady (status : Byte) : Prop :=
  status &&& statusBsy = 0 ∧ status &&& statusErr = 0 ∧ status &&& statusDrq ≠ 0

def Errored (status : Byte) : Prop :=
  status &&& statusBsy = 0 ∧ status &&& statusErr ≠ 0

def Waiting (status : Byte) : Prop := ¬ DataReady status ∧ ¬ Errored status

section

variable {δ : Type} [Ports δ]

inductive Settles (final : Byte → Prop) : Nat → δ → δ → Prop
  | now {n : Nat} {d : δ} : final (inb ataStatus d).1 → Settles final (n + 1) d (inb ataStatus d).2
  | wait {n : Nat} {d d' : δ} : Waiting (inb ataStatus d).1 →
      Settles final n (inb ataStatus d).2 d' → Settles final (n + 1) d d'

def Sends (w : Fin 256 → BitVec 16) (d d' : δ) : Prop :=
  ∃ e : Nat → δ, e 0 = d ∧ e 256 = d' ∧ ∀ i : Fin 256, inw ataData (e i) = (w i, e (i + 1))

theorem pollLoop_waiting {n : Nat} {d : δ} (h : Waiting (inb ataStatus d).1) :
    pollLoop (n + 1) d = pollLoop n (inb ataStatus d).2 := by
  obtain ⟨hready, hfailed⟩ := h
  rw [pollLoop]
  dsimp only
  split
  · next hbsy =>
    have herr : ¬ (inb ataStatus d).1 &&& statusErr ≠ 0 := fun h => hfailed ⟨hbsy, h⟩
    have hdrq : ¬ (inb ataStatus d).1 &&& statusDrq ≠ 0 :=
      fun h => hready ⟨hbsy, not_not.mp herr, h⟩
    rw [if_neg herr, if_neg hdrq]
  · rfl

theorem pollLoop_ready {n : Nat} {d d' : δ} (h : Settles DataReady n d d') :
    pollLoop n d = (0, d') := by
  induction h with
  | now hready =>
      obtain ⟨hbsy, herr, hdrq⟩ := hready
      rw [pollLoop]
      dsimp only
      rw [if_pos hbsy, if_neg (not_not.mpr herr), if_pos hdrq]
  | wait hwait _ ih => rw [pollLoop_waiting hwait, ih]

theorem pollLoop_failed {n : Nat} {d d' : δ} (h : Settles Errored n d d') :
    pollLoop n d = (-1, d') := by
  induction h with
  | now hfailed =>
      obtain ⟨hbsy, herr⟩ := hfailed
      rw [pollLoop]
      dsimp only
      rw [if_pos hbsy, if_pos herr]
  | wait hwait _ ih => rw [pollLoop_waiting hwait, ih]

def writeCommanded (lba : Lba) (d : δ) : δ := outb ataCommand ataCmdWrite (selectSector lba d)

def flushCommanded (buffer : Buffer) (d : δ) : δ :=
  outb ataCommand ataCmdFlush (Loop.upto (writeWord buffer) 256 d)

theorem ataWriteSector_refused (buffer : Buffer) {lba : Lba} {d : δ}
    (h : (pollLoop pollTimeout (writeCommanded lba d)).1 ≠ 0) :
    ataWriteSector lba buffer d = (-1, (pollLoop pollTimeout (writeCommanded lba d)).2) := by
  rw [writeCommanded] at h ⊢
  rw [ataWriteSector]
  dsimp only
  rw [ataPollReady, if_pos h]

theorem ataWriteSector_sent (buffer : Buffer) {lba : Lba} {d : δ}
    (h : (pollLoop pollTimeout (writeCommanded lba d)).1 = 0) :
    ataWriteSector lba buffer d = (0, (pollLoop pollTimeout
      (flushCommanded buffer (pollLoop pollTimeout (writeCommanded lba d)).2)).2) := by
  rw [writeCommanded] at h ⊢
  rw [ataWriteSector]
  dsimp only
  rw [ataPollReady, if_neg (not_not.mpr h), flushCommanded, ataPollReady]

structure Drive (δ : Type) where
  idle : δ → Prop
  sectors : Nat
  disk : δ → Nat → Sector

namespace Drive

structure HonoursReads (v : Drive δ) : Prop where
  status : ∀ d, v.idle d → v.idle (inb ataStatus d).2 ∧ v.disk (inb ataStatus d).2 = v.disk d
  read : ∀ d lba, v.idle d → address lba < v.sectors → ∃ d₁ d₂,
    Settles DataReady pollTimeout (outb ataCommand ataCmdRead (selectSector lba d)) d₁ ∧
      Sends (wordsOf (v.disk d (address lba))) d₁ d₂ ∧ v.idle d₂ ∧ v.disk d₂ = v.disk d
  read_beyond : ∀ d lba, v.idle d → v.sectors ≤ address lba → ∃ d₁,
    Settles Errored pollTimeout (outb ataCommand ataCmdRead (selectSector lba d)) d₁ ∧
      v.idle d₁ ∧ v.disk d₁ = v.disk d

structure HonoursWrites (v : Drive δ) : Prop where
  write : ∀ d lba, v.idle d → address lba < v.sectors → ∃ d₁,
    Settles DataReady pollTimeout (outb ataCommand ataCmdWrite (selectSector lba d)) d₁ ∧
      ∀ w : Nat → BitVec 16,
        let d₂ := outb ataCommand ataCmdFlush (Loop.upto (fun i => outw ataData (w i)) 256 d₁)
        v.idle d₂ ∧
          v.disk d₂ = Function.update (v.disk d) (address lba) (bytesOf fun i => w i)

variable {v : Drive δ}

theorem readWord_fillTo {w : Fin 256 → BitVec 16} {e : Nat → δ} {i : Fin 256}
    (hword : inw ataData (e i) = (w i, e (i + 1))) (buffer : Buffer) :
    readWord i (fillTo (2 * i) buffer (bytesOf w), e i) =
      (fillTo (2 * (i + 1)) buffer (bytesOf w), e (i + 1)) := by
  have hlo : bytesOf w ⟨2 * i, by omega⟩ = (w i &&& 0xFF).setWidth 8 := by
    rw [bytesOf, if_pos (show 2 * i.val % 2 = 0 by omega), low_byte]
    exact congrArg (fun k => (w k).extractLsb' 0 8) (Fin.ext (show 2 * i.val / 2 = i.val by omega))
  have hhi : bytesOf w ⟨2 * i + 1, by omega⟩ = (w i >>> 8 &&& 0xFF).setWidth 8 := by
    rw [bytesOf, if_neg (show ¬ (2 * i.val + 1) % 2 = 0 by omega), high_byte]
    exact congrArg (fun k => (w k).extractLsb' 8 8) (Fin.ext (show (2 * i.val + 1) / 2 = i.val by omega))
  have heven := fillTo_succ buffer (bytesOf w) ⟨2 * i, by omega⟩
  have hodd := fillTo_succ buffer (bytesOf w) ⟨2 * i + 1, by omega⟩
  have hnext : 2 * (i.val + 1) = 2 * i + 1 + 1 := by omega
  rw [hnext, hodd, heven, hlo, hhi, readWord, hword, Nat.mul_comm i.val 2]

theorem readWord_sends {w : Fin 256 → BitVec 16} {d d' : δ} (h : Sends w d d')
    (buffer : Buffer) :
    Loop.upto readWord 256 (buffer, d) = (fill buffer (bytesOf w), d') := by
  obtain ⟨e, rfl, rfl, hword⟩ := h
  refine Loop.upto_invariant (I := fun i t => t = (fillTo (2 * i) buffer (bytesOf w), e i)) ?_ ?_
  · rw [Nat.mul_zero, fillTo_zero]
  · rintro i t hi rfl
    exact readWord_fillTo (i := ⟨i, hi⟩) (hword ⟨i, hi⟩) buffer

theorem HonoursReads.ataReadSector (h : v.HonoursReads) {d : δ} (lba : Lba) (hd : v.idle d)
    (hlba : address lba < v.sectors) (buffer : Buffer) :
    ∃ d', CDosX86.ataReadSector lba buffer d = (0, fill buffer (v.disk d (address lba)), d') ∧
      v.idle d' ∧ v.disk d' = v.disk d := by
  obtain ⟨d₁, d₂, hready, hsends, hidle, hdisk⟩ := h.read d lba hd hlba
  refine ⟨d₂, ?_, hidle, hdisk⟩
  rw [CDosX86.ataReadSector]
  dsimp only
  rw [ataPollReady, pollLoop_ready hready, if_neg (not_not.mpr rfl), readWord_sends hsends,
    bytesOf_wordsOf]

theorem HonoursReads.ataReadSector_beyond (h : v.HonoursReads) {d : δ} (lba : Lba)
    (hd : v.idle d) (hlba : v.sectors ≤ address lba) (buffer : Buffer) :
    ∃ d', CDosX86.ataReadSector lba buffer d = (-1, buffer, d') ∧
      v.idle d' ∧ v.disk d' = v.disk d := by
  obtain ⟨d₁, hfailed, hidle, hdisk⟩ := h.read_beyond d lba hd hlba
  refine ⟨d₁, ?_, hidle, hdisk⟩
  rw [CDosX86.ataReadSector]
  dsimp only
  rw [ataPollReady, pollLoop_failed hfailed, if_pos (show (-1 : Int) ≠ 0 by decide)]

theorem HonoursReads.pollLoop_idle (h : v.HonoursReads) {d : δ} (hd : v.idle d) (n : Nat) :
    v.idle (pollLoop n d).2 ∧ v.disk (pollLoop n d).2 = v.disk d := by
  induction n generalizing d with
  | zero => exact ⟨hd, rfl⟩
  | succ n ih =>
      obtain ⟨hidle, hdisk⟩ := h.status d hd
      obtain ⟨hidle', hdisk'⟩ := ih hidle
      rw [pollLoop]
      dsimp only
      split_ifs
      · exact ⟨hidle, hdisk⟩
      · exact ⟨hidle, hdisk⟩
      · exact ⟨hidle', hdisk'.trans hdisk⟩
      · exact ⟨hidle', hdisk'.trans hdisk⟩

theorem HonoursWrites.ataWriteSector (hr : v.HonoursReads) (hw : v.HonoursWrites) {d : δ}
    (lba : Lba) (hd : v.idle d) (hlba : address lba < v.sectors) (buffer : Buffer) :
    ∃ d', CDosX86.ataWriteSector lba buffer d = (0, d') ∧ v.idle d' ∧
      v.disk d' = Function.update (v.disk d) (address lba) (sectorOf buffer) := by
  obtain ⟨d₁, hready, hdone⟩ := hw.write d lba hd hlba
  obtain ⟨hidle, hdisk⟩ := hdone fun i =>
    (buffer (i * 2)).setWidth 16 ||| (buffer (i * 2 + 1)).setWidth 16 <<< 8
  obtain ⟨hidle', hdisk'⟩ := hr.pollLoop_idle hidle pollTimeout
  have hfirst : pollLoop pollTimeout (writeCommanded lba d) = (0, d₁) := pollLoop_ready hready
  refine ⟨_, ?_, hidle', hdisk'.trans (hdisk.trans ?_)⟩
  · rw [ataWriteSector_sent buffer (by rw [hfirst]), hfirst]
    rfl
  · congr 1
    rw [← bytesOf_wordsOf (sectorOf buffer)]
    congr 1
    funext i
    exact word_of_bytes _ _

end Drive

end

end CDosX86
