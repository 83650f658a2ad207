import CDosX86.FailedInit

namespace CDosX86

open StoredBytes BuildDisk

-- The directory that the 512 bytes of a sector hold: the first entries, up to `entry_count` many.
def directoryAt (sector : Buffer) : List FsEntry :=
  (List.range (min (u32At sector 4).toNat fsMaxEntries)).map fun i => entryAt sector (8 + 24 * i)

theorem u32At_congr {sector sector' : Buffer} (h : ∀ j < 512, sector j = sector' j) {off : Nat}
    (hoff : off + 3 < 512) : u32At sector off = u32At sector' off := by
  rw [u32At, u32At, h off (by omega), h (off + 1) (by omega), h (off + 2) (by omega),
    h (off + 3) hoff]

theorem entryAt_congr {sector sector' : Buffer} (h : ∀ j < 512, sector j = sector' j) {off : Nat}
    (hoff : off + 23 < 512) : entryAt sector off = entryAt sector' off := by
  have hname : (fun i : Fin 16 => sector (off + i)) = fun i : Fin 16 => sector' (off + i) :=
    funext fun i => h _ (by omega)
  rw [entryAt, entryAt, hname, u32At_congr h (by omega), u32At_congr h (by omega)]

theorem directoryAt_congr {sector sector' : Buffer} (h : ∀ j < 512, sector j = sector' j) :
    directoryAt sector = directoryAt sector' := by
  rw [directoryAt, directoryAt, u32At_congr h (by decide)]
  refine List.map_congr_left fun i hi => entryAt_congr h ?_
  have hlast := (List.mem_range.mp hi).trans_le (Nat.min_le_right _ _)
  rw [fsMaxEntries] at hlast
  omega

theorem filter_range (n m : Nat) :
    ((List.range n).filter fun i => i < m) = List.range (min m n) := by
  induction n with
  | zero => simp
  | succ n ih =>
      rw [List.range_succ, List.filter_append, ih]
      rcases Nat.lt_or_ge n m with hn | hn
      · rw [Nat.min_eq_right hn.le, Nat.min_eq_right hn, List.range_succ]
        simp [hn]
      · rw [Nat.min_eq_left hn, Nat.min_eq_left (Nat.le_succ_of_le hn)]
        simp [hn]

theorem filter_finRange (n m : Nat) :
    ((List.finRange n).filter fun i => i.val < m).map Fin.val = List.range (min m n) := by
  have hval : (fun i : Fin n => decide (i.val < m)) = (fun i => decide (i < m)) ∘ Fin.val := rfl
  rw [hval, ← List.filter_map, List.map_coe_finRange_eq_range, filter_range]

-- What a callback of `fs_list` can tell from the entry it is handed.
def onEntry {σ : Type} (callback : FsEntry → σ → σ) (h : FsHeader) (i : Fin 21) : σ → σ :=
  callback (h.entries i)

namespace Fs

theorem fsList_visible {σ : Type} (callback : FsEntry → σ → σ) (fs : Fs) (s : σ) :
    fs.fsList (onEntry callback) s =
      (if fs.mounted then 0 else -1, fs.visible.foldl (fun s e => callback e s) s) := by
  rw [fsList, visible]
  split
  · rw [List.foldl_map]
    rfl
  · rfl

structure Answers (dir : List FsEntry) (fs : Fs) : Prop where
  fsFind : ∀ name, fs.fsFind name =
    dir.find? fun e => kStrncasecmp e.nameBytes name fsNameLen = 0
  fsList : ∀ {σ : Type} (callback : FsEntry → σ → σ) (s : σ),
    fs.fsList (onEntry callback) s = (0, dir.foldl (fun s e => callback e s) s)

structure Refuses (fs : Fs) : Prop where
  fsFind : ∀ name, fs.fsFind name = none
  fsList : ∀ {σ : Type} (callback : FsEntry → σ → σ) (s : σ),
    fs.fsList (onEntry callback) s = (-1, s)

structure SameAnswers (fs fs' : Fs) : Prop where
  fsFind : ∀ name, fs.fsFind name = fs'.fsFind name
  fsList : ∀ {σ : Type} (callback : FsEntry → σ → σ) (s : σ),
    fs.fsList (onEntry callback) s = fs'.fsList (onEntry callback) s

theorem answers_visible {fs : Fs} (h : fs.mounted = true) : Answers fs.visible fs where
  fsFind := fs.fsFind_visible
  fsList callback s := by rw [fsList_visible, if_pos h]

theorem refuses_unmounted {fs : Fs} (h : fs.mounted = false) : Refuses fs where
  fsFind name := by rw [Fs.fsFind, if_neg (by simp [h])]
  fsList callback s := by rw [Fs.fsList, if_neg (by simp [h])]

theorem Answers.same {dir : List FsEntry} {fs fs' : Fs} (h : Answers dir fs)
    (h' : Answers dir fs') : SameAnswers fs fs' where
  fsFind name := (h.fsFind name).trans (h'.fsFind name).symm
  fsList callback s := (h.fsList callback s).trans (h'.fsList callback s).symm

end Fs

section

variable {δ : Type} [Ports δ]

def sectorRead (d : δ) : Buffer := (ataReadSector 0 unwritten d).2.1

inductive FsMount (fs : Fs) (d : δ) : Int × Fs × δ → Prop
  | failed {r : Int} {d' : δ} : r ≠ 0 → FsMount fs d (r, { fs with mounted := false }, d')
  | accepted : (ataReadSector 0 unwritten d).1 = 0 →
      (headerAt (sectorRead d)).magic = fsMagic →
      FsMount fs d
        (0, { header := { headerAt (sectorRead d) with
                entries := fun i =>
                  if i.val < (headerAt (sectorRead d)).entryCount.toNat then
                    (headerAt (sectorRead d)).entries i
                  else fs.header.entries i }
              mounted := true }, (ataReadSector 0 unwritten d).2.2)

theorem fsMount_cases (fs : Fs) (d : δ) : FsMount fs d (fsMount fs d) := by
  rw [fsMount]
  dsimp only
  split_ifs with hread hmagic
  · exact .failed (by decide)
  · exact .failed (by decide)
  · exact .accepted (not_not.mp hread) (not_not.mp hmagic)

theorem FsMount.visible {fs : Fs} {d : δ} {out : Int × Fs × δ} (h : FsMount fs d out)
    (hr : out.1 = 0) : out.2.1.mounted = true ∧ out.2.1.visible = directoryAt (sectorRead d) := by
  cases h with
  | failed hne => exact absurd hr hne
  | accepted hread hmagic =>
      refine ⟨rfl, ?_⟩
      rw [Fs.visible, if_pos rfl, directoryAt, fsMaxEntries, ← filter_finRange, List.map_map]
      refine List.map_congr_left fun i hi => ?_
      exact if_pos (by simpa using (List.mem_filter.mp hi).2)

theorem FsMount.unmounted {fs : Fs} {d : δ} {out : Int × Fs × δ} (h : FsMount fs d out)
    (hr : out.1 ≠ 0) : out.2.1.mounted = false := by
  cases h with
  | failed _ => rfl
  | accepted _ _ => exact absurd rfl hr

-- Mounts one after the other, each with the drive as that call finds it.
def mountAll (fs : Fs) (ds : List δ) : Fs := ds.foldl (fun fs d => (fsMount fs d).2.1) fs

theorem mountAll_concat (fs : Fs) (ds : List δ) (d : δ) :
    mountAll fs (ds ++ [d]) = (fsMount (mountAll fs ds) d).2.1 := by
  rw [mountAll, List.foldl_concat]
  rfl

theorem mountAll_answers {fs : Fs} {ds : List δ} {d : δ}
    (hr : (fsMount (mountAll fs ds) d).1 = 0) :
    (mountAll fs (ds ++ [d])).Answers (directoryAt (sectorRead d)) := by
  obtain ⟨hmounted, hvisible⟩ := (fsMount_cases (mountAll fs ds) d).visible hr
  rw [mountAll_concat, ← hvisible]
  exact Fs.answers_visible hmounted

theorem mount_forgets (fs : Fs) (ds : List δ) (d : δ) :
    ((fsMount (mountAll fs ds) d).1 = 0 →
      (mountAll fs (ds ++ [d])).Answers (directoryAt (sectorRead d)) ∧
      ∀ (fs' : Fs) (ds' : List δ) (d' : δ), (fsMount (mountAll fs' ds') d').1 = 0 →
        (∀ j < 512, sectorRead d j = sectorRead d' j) →
        (mountAll fs (ds ++ [d])).SameAnswers (mountAll fs' (ds' ++ [d']))) ∧
    ((fsMount (mountAll fs ds) d).1 ≠ 0 → (mountAll fs (ds ++ [d])).Refuses) := by
  constructor
  · intro hr
    refine ⟨mountAll_answers hr, fun fs' ds' d' hr' hsame => ?_⟩
    have hanswers := mountAll_answers hr
    rw [directoryAt_congr hsame] at hanswers
    exact hanswers.same (mountAll_answers hr')
  · intro hr
    rw [mountAll_concat]
    exact Fs.refuses_unmounted ((fsMount_cases (mountAll fs ds) d).unmounted hr)

end

open IdealDrive Kernel

theorem fsMount_holding {dir : Directory} {mb : Int} {img : List Byte} (hbuilt : Built dir mb img)
    (fs : Fs) : (fsMount fs (holding img)).1 = 0 := by
  obtain ⟨_, _, hmount, -⟩ := fsMount_built (drive_reads _) hbuilt (holding_idle img)
    (holding_holds img) fs
  rw [hmount]

theorem fsMount_absent (fs : Fs) : (fsMount fs (holding [])).1 ≠ 0 := by
  obtain ⟨_, hread, -⟩ := (drive_reads 0).ataReadSector_beyond 0 (holding_idle []) (by decide)
    unwritten
  rw [fsMount, hread]
  exact show (-1 : Int) ≠ 0 by decide

theorem mountAll_holding {dir : Directory} {mb : Int} {img : List Byte}
    (hbuilt : Built dir mb img) (fs : Fs) (ds : List IdealDrive) :
    Mounted (entriesFrom 1 (files dir)) (mountAll fs (ds ++ [holding img])) := by
  obtain ⟨fs', d', hmount, hm, -⟩ := fsMount_built (drive_reads _) hbuilt (holding_idle img)
    (holding_holds img) (mountAll fs ds)
  rw [mountAll_concat, hmount]
  exact hm

-- BASIC.ROM is on the first disk and not on the second.
theorem mount_forgets_roms : ∃ roms img, Built romFiles 1 roms ∧
    Built (kernalOnly 0).directory 1 img ∧
    (mountAll Fs.zero ([] ++ [holding roms])).fsFind basicRom =
      some (onDisk (romEntry basicFile 1)) ∧
    (fsMount (mountAll Fs.zero [holding roms]) (holding img)).1 = 0 ∧
    (mountAll Fs.zero ([holding roms] ++ [holding img])).fsFind basicRom = none ∧
    (mountAll Fs.zero ([holding roms] ++ [holding img])).fsFind kernalRom =
      some (onDisk (kernalOnly 0).entry) ∧
    (mountAll Fs.zero ([holding roms] ++ [holding img])).SameAnswers
      (mountAll Fs.zero ([] ++ [holding img])) ∧
    (mountAll Fs.zero ([holding roms] ++ [holding []])).Refuses := by
  obtain ⟨roms, hroms⟩ := built_romFiles
  obtain ⟨img, himg⟩ := (kernalOnly 0).built
  have hmounted := (mount_forgets Fs.zero [holding roms] (holding img)).1 (fsMount_holding himg _)
  have hsame := hmounted.2 Fs.zero [] (holding img) (fsMount_holding himg _) fun _ _ => rfl
  have hm := mountAll_holding himg Fs.zero []
  have hbasic : firstNamed romFiles basicRom = some (romEntry basicFile 1) := by
    rw [firstNamed, entries_romFiles]
    rfl
  refine ⟨roms, img, hroms, himg, ?_, fsMount_holding himg _, ?_, ?_, hsame,
    (mount_forgets Fs.zero [holding roms] (holding [])).2 (fsMount_absent _)⟩
  · exact fsFind_firstNamed hroms (mountAll_holding hroms Fs.zero []) (by decide) hbasic
  · have hother : ¬ NameOf basicRom (kernalOnly 0).entry :=
      show ¬ SameName (asciiBytes kernalFile.name) basicRom by decide
    rw [hsame.fsFind]
    refine fsFind_none himg.entries_count hm (fun e he => named_built himg he) (by decide) ?_
    rw [OneFile.entries_directory]
    intro e he
    rw [List.mem_singleton.mp he]
    exact hother
  · have hfirst : firstNamed (kernalOnly 0).directory kernalRom = some (kernalOnly 0).entry := by
      rw [firstNamed, OneFile.entries_directory]
      rfl
    rw [hsame.fsFind]
    exact fsFind_firstNamed himg hm (by decide) hfirst

end CDosX86
