import CDosX86.FsRead

namespace CDosX86

variable {δ : Type} {v : Drive δ}

structure SameDisk (v : Drive δ) (d d' : δ) : Prop where
  idle : v.idle d
  idle' : v.idle d'
  disk : v.disk d' = v.disk d

namespace SameDisk

theorem refl {d : δ} (hd : v.idle d) : SameDisk v d d := ⟨hd, hd, rfl⟩

theorem trans {a b c : δ} (hab : SameDisk v a b) (hbc : SameDisk v b c) : SameDisk v a c :=
  ⟨hab.idle, hbc.idle', hbc.disk.trans hab.disk⟩

variable [Ports δ]

theorem ataReadSector (h : v.HonoursReads) {d d' : δ} (hs : SameDisk v d d') (lba : Lba)
    (buffer : Buffer) :
    ∃ r b e e', CDosX86.ataReadSector lba buffer d = (r, b, e) ∧
      CDosX86.ataReadSector lba buffer d' = (r, b, e') ∧ SameDisk v d e ∧ SameDisk v e e' := by
  by_cases hlba : address lba < v.sectors
  · obtain ⟨e, hr, he, hdisk⟩ := h.ataReadSector lba hs.idle hlba buffer
    obtain ⟨e', hr', he', hdisk'⟩ := h.ataReadSector lba hs.idle' hlba buffer
    rw [hs.disk] at hr' hdisk'
    exact ⟨_, _, e, e', hr, hr', ⟨hs.idle, he, hdisk⟩, ⟨he, he', hdisk'.trans hdisk.symm⟩⟩
  · have hbeyond := Nat.not_lt.mp hlba
    obtain ⟨e, hr, he, hdisk⟩ := h.ataReadSector_beyond lba hs.idle hbeyond buffer
    obtain ⟨e', hr', he', hdisk'⟩ := h.ataReadSector_beyond lba hs.idle' hbeyond buffer
    rw [hs.disk] at hdisk'
    exact ⟨_, _, e, e', hr, hr', ⟨hs.idle, he, hdisk⟩, ⟨he, he', hdisk'.trans hdisk.symm⟩⟩

theorem fsMount (h : v.HonoursReads) {d d' : δ} (hs : SameDisk v d d') (fs fs' : Fs) :
    ∃ r f f' e e', CDosX86.fsMount fs d = (r, f, e) ∧ CDosX86.fsMount fs' d' = (r, f', e') ∧
      f.visible = f'.visible ∧ SameDisk v d e ∧ SameDisk v e e' := by
  obtain ⟨r, b, e, e', hr, hr', he, he'⟩ := ataReadSector h hs 0 unwritten
  rw [CDosX86.fsMount, CDosX86.fsMount, hr, hr']
  dsimp only
  by_cases hfail : r ≠ 0
  · rw [if_pos hfail, if_pos hfail]
    exact ⟨_, _, _, e, e', rfl, rfl, rfl, he, he'⟩
  · rw [if_neg hfail, if_neg hfail]
    by_cases hmagic : (headerAt b).magic ≠ fsMagic
    · rw [if_pos hmagic, if_pos hmagic]
      exact ⟨_, _, _, e, e', rfl, rfl, rfl, he, he'⟩
    · rw [if_neg hmagic, if_neg hmagic]
      refine ⟨_, _, _, e, e', rfl, rfl, Fs.visible_congr rfl rfl fun i hi => ?_, he, he'⟩
      have hcount : i.val < (headerAt b).entryCount.toNat := by
        simpa using (List.mem_filter.mp hi).2
      dsimp only
      rw [if_pos hcount, if_pos hcount]

theorem readSectors (h : v.HonoursReads) (entry : FsEntry) (maxLen : BitVec 32) {d d' : δ}
    (hs : SameDisk v d d') (n : Nat) (i copied : BitVec 32) (buffer : Buffer) :
    ∃ r b e e', CDosX86.readSectors entry maxLen n i copied buffer d = (r, b, e) ∧
      CDosX86.readSectors entry maxLen n i copied buffer d' = (r, b, e') ∧
      SameDisk v d e ∧ SameDisk v e e' := by
  induction n generalizing i copied buffer d d' with
  | zero => exact ⟨_, _, d, d', rfl, rfl, refl hs.idle, hs⟩
  | succ n ih =>
      obtain ⟨r, sector, e, e', hr, hr', he, he'⟩ :=
        ataReadSector h hs (entry.startLba + i) unwritten
      rw [CDosX86.readSectors, CDosX86.readSectors, hr, hr']
      dsimp only
      by_cases hfail : r ≠ 0
      · rw [if_pos hfail, if_pos hfail]
        exact ⟨_, _, e, e', rfl, rfl, he, he'⟩
      · rw [if_neg hfail, if_neg hfail]
        by_cases hfull : copied + nextChunk entry maxLen copied ≥ maxLen
        · rw [if_pos hfull, if_pos hfull]
          exact ⟨_, _, e, e', rfl, rfl, he, he'⟩
        · rw [if_neg hfull, if_neg hfull]
          obtain ⟨r, b, g, g', hrun, hrun', hg, hg'⟩ := ih he' (i + 1)
            (copied + nextChunk entry maxLen copied)
            (copyChunk sector copied (nextChunk entry maxLen copied) buffer)
          exact ⟨r, b, g, g', hrun, hrun', he.trans hg, hg'⟩

theorem fsReadFile (h : v.HonoursReads) (entry : FsEntry) (maxLen : BitVec 32) {d d' : δ}
    (hs : SameDisk v d d') (buffer : Buffer) :
    ∃ r b e e', CDosX86.fsReadFile entry buffer maxLen d = (r, b, e) ∧
      CDosX86.fsReadFile entry buffer maxLen d' = (r, b, e') ∧
      SameDisk v d e ∧ SameDisk v e e' :=
  readSectors h entry maxLen hs _ 0 0 buffer

end SameDisk

end CDosX86
