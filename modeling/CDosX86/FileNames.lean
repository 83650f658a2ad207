import CDosX86.DiskRoundTrip
import Mathlib.Data.List.Find

namespace CDosX86

open BuildDisk

def NameOf (name : List Byte) (e : DiskEntry) : Prop := SameName (asciiBytes e.name) name

instance (name : List Byte) (e : DiskEntry) : Decidable (NameOf name e) :=
  inferInstanceAs (Decidable (SameName _ _))

structure Named (e : DiskEntry) : Prop where
  short : e.name.length ≤ 15
  ascii : ∀ c ∈ e.name, c < 128
  not_nul : 0 ∉ e.name

theorem toNat_asciiBytes {name : List Nat} (h : ∀ c ∈ name, c < 128) :
    (asciiBytes name).map BitVec.toNat = name := by
  induction name with
  | nil => rfl
  | cons c name ih =>
      obtain ⟨hc, hrest⟩ := List.forall_mem_cons.mp h
      have hlt : c < 2 ^ 8 := by omega
      rw [asciiBytes, List.map_cons, List.map_cons, BitVec.toNat_ofNat, Nat.mod_eq_of_lt hlt]
      exact congrArg (c :: ·) (ih hrest)

section named

variable {e : DiskEntry}

theorem Named.zero_notMem (h : Named e) : 0 ∉ asciiBytes e.name :=
  zero_notMem_asciiBytes h.ascii h.not_nul

theorem Named.cString_onDisk (h : Named e) : cString (onDisk e).nameBytes = asciiBytes e.name := by
  rw [nameBytes_onDisk h.short, cString_terminated h.zero_notMem]

theorem Named.find_onDisk (h : Named e) {name : List Byte} (hname : 0 ∉ name) :
    kStrncasecmp (onDisk e).nameBytes name CDosX86.fsNameLen = 0 ↔ NameOf name e := by
  rw [nameBytes_onDisk h.short]
  refine kStrncasecmp_eq_zero_iff h.zero_notMem hname ?_ _
  rw [asciiBytes, List.length_map]
  exact Nat.lt_succ_of_le h.short

theorem Named.eq_of_onDisk {e' : DiskEntry} (h : Named e) (h' : Named e')
    (heq : onDisk e = onDisk e') : e.name = e'.name := by
  rw [← toNat_asciiBytes h.ascii, ← toNat_asciiBytes h'.ascii, ← h.cString_onDisk, heq,
    h'.cString_onDisk]

end named

section search

variable {es : List DiskEntry} {fs : Fs}

theorem fsFind_mounted (hcount : es.length ≤ 21) (hm : Mounted es fs)
    (hnamed : ∀ e ∈ es, Named e) {name : List Byte} (hname : 0 ∉ name) :
    fs.fsFind name = (es.find? fun e => NameOf name e).map onDisk := by
  have hvisible : fs.visible = es.map onDisk := by
    rw [Fs.visible, if_pos hm.mounted]
    exact map_scanned hcount hm id
  rw [Fs.fsFind_visible, hvisible, List.find?_map]
  congr 1
  refine List.find?_congr fun e he => ?_
  exact decide_eq_decide.mpr ((hnamed e he).find_onDisk hname)

theorem fsFind_none (hcount : es.length ≤ 21) (hm : Mounted es fs)
    (hnamed : ∀ e ∈ es, Named e) {name : List Byte} (hname : 0 ∉ name)
    (hother : ∀ e ∈ es, ¬ NameOf name e) : fs.fsFind name = none := by
  rw [fsFind_mounted hcount hm hnamed hname, Option.map_eq_none_iff, List.find?_eq_none]
  intro e he
  simpa using hother e he

theorem fsFind_first (hcount : es.length ≤ 21) (hm : Mounted es fs)
    (hnamed : ∀ e ∈ es, Named e) {name : List Byte} (hname : 0 ∉ name) {j : Nat}
    (hj : j < es.length) (hmatch : NameOf name es[j]) :
    ∃ (k : Nat) (hk : k < es.length), k ≤ j ∧ NameOf name es[k] ∧
      fs.fsFind name = some (onDisk es[k]) := by
  rw [fsFind_mounted hcount hm hnamed hname]
  obtain ⟨e, he⟩ : ∃ e, (es.find? fun e => NameOf name e) = some e := by
    rw [← Option.isSome_iff_exists, List.find?_isSome]
    exact ⟨es[j], List.getElem_mem hj, by simpa using hmatch⟩
  obtain ⟨hfirst, k, hk, rfl, hbefore⟩ := List.find?_eq_some_iff_getElem.mp he
  refine ⟨k, hk, ?_, by simpa using hfirst, by rw [he]; rfl⟩
  by_contra hlt
  simpa [hmatch] using hbefore j (Nat.not_le.mp hlt)

theorem fsFind_own (hcount : es.length ≤ 21) (hm : Mounted es fs) (hnamed : ∀ e ∈ es, Named e)
    {j : Nat} (hj : j < es.length) :
    ∃ (k : Nat) (hk : k < es.length), k ≤ j ∧ NameOf (asciiBytes es[j].name) es[k] ∧
      fs.fsFind (asciiBytes es[j].name) = some (onDisk es[k]) :=
  fsFind_first hcount hm hnamed (hnamed _ (List.getElem_mem hj)).zero_notMem hj rfl

def ReachedByName (es : List DiskEntry) (fs : Fs) : Prop :=
  ∀ e ∈ es, fs.fsFind (asciiBytes e.name) = some (onDisk e)

def ExtentByName (es : List DiskEntry) (fs : Fs) : Prop :=
  ∀ e ∈ es, ∃ found, fs.fsFind (asciiBytes e.name) = some found ∧
    found.startLba = (onDisk e).startLba ∧ found.length = (onDisk e).length

def NamesApart (names : List (List Nat)) : Prop :=
  names.Pairwise fun a b => ¬ SameName (asciiBytes a) (asciiBytes b)

theorem reachedByName_iff (hcount : es.length ≤ 21) (hm : Mounted es fs)
    (hnamed : ∀ e ∈ es, Named e) (hnodup : (es.map (·.name)).Nodup) :
    ReachedByName es fs ↔ NamesApart (es.map (·.name)) := by
  have hdistinct : ∀ (i j : Nat) (hi : i < es.length) (hj : j < es.length),
      es[i].name = es[j].name → i = j := by
    intro i j hi hj heq
    have hi' : i < (es.map (·.name)).length := by rwa [List.length_map]
    have hj' : j < (es.map (·.name)).length := by rwa [List.length_map]
    have hnames : (es.map (·.name))[i] = (es.map (·.name))[j] := by simpa using heq
    exact hnodup.getElem_inj_iff.mp hnames
  rw [NamesApart, List.pairwise_map, List.pairwise_iff_getElem]
  constructor
  · intro hreached i j hi hj hij hsame
    obtain ⟨k, hk, hki, -, hfound⟩ := fsFind_first hcount hm hnamed
      (hnamed _ (List.getElem_mem hj)).zero_notMem hi hsame
    rw [hreached _ (List.getElem_mem hj), Option.some_inj] at hfound
    have hname := (hnamed _ (List.getElem_mem hj)).eq_of_onDisk
      (hnamed _ (List.getElem_mem hk)) hfound
    have := hdistinct j k hj hk hname
    omega
  · intro hapart e he
    obtain ⟨j, hj, rfl⟩ := List.mem_iff_getElem.mp he
    obtain ⟨k, hk, hkj, hsame, hfound⟩ := fsFind_own hcount hm hnamed hj
    rcases Nat.lt_or_eq_of_le hkj with hlt | rfl
    · exact absurd hsame (hapart k j hk hj hlt)
    · exact hfound

end search

theorem entriesFrom_next {lba : Nat} {fs : List DirFile} {i : Nat}
    (hi : i + 1 < (entriesFrom lba fs).length) :
    (entriesFrom lba fs)[i + 1].startLba =
      (entriesFrom lba fs)[i].startLba + sectorsNeeded (entriesFrom lba fs)[i].length := by
  induction fs generalizing lba i with
  | nil => cases hi
  | cons f fs ih =>
      cases i with
      | zero =>
          cases fs with
          | nil => simp [entriesFrom] at hi
          | cons g fs => rfl
      | succ i => exact ih (by simpa [entriesFrom] using hi)

theorem entriesFrom_startLba {lba : Nat} {fs : List DirFile} {i j : Nat} (hij : i < j)
    (hj : j < (entriesFrom lba fs).length) :
    (entriesFrom lba fs)[i].startLba + sectorsNeeded (entriesFrom lba fs)[i].length ≤
      (entriesFrom lba fs)[j].startLba :=
  List.pairwise_iff_getElem.mp (entriesFrom_disjoint lba fs) i j (by omega) hj hij

theorem startLba_of_empty {lba : Nat} {fs : List DirFile} {k n : Nat}
    (hn : k + n < (entriesFrom lba fs).length)
    (hempty : ∀ (m : Nat) (hm : m < n), (entriesFrom lba fs)[k + m].length = 0) :
    (entriesFrom lba fs)[k + n].startLba = (entriesFrom lba fs)[k].startLba := by
  induction n with
  | zero => rfl
  | succ n ih =>
      have hnext := entriesFrom_next (i := k + n) hn
      have hstart := ih (by omega) fun m hm => hempty m (by omega)
      rw [hempty n (Nat.lt_succ_self n), hstart] at hnext
      exact hnext

theorem eq_zero_of_sectorsNeeded {n : Nat} (h : sectorsNeeded n = 0) : n = 0 := by
  unfold sectorsNeeded sectorSize at h
  omega

def ClashesEmpty (files : List DirFile) : Prop :=
  ∀ (i j k : Nat) (hij : i < j) (hj : j < files.length) (hkj : k ≤ j),
    SameName (asciiBytes files[i].name) (asciiBytes files[j].name) → i ≤ k →
      files[k].contents = []

theorem onDisk_extent_inj {a b : DiskEntry} (ha : Packable a) (hb : Packable b) :
    ((onDisk a).startLba = (onDisk b).startLba ∧ (onDisk a).length = (onDisk b).length) ↔
      a.startLba = b.startLba ∧ a.length = b.length := by
  rw [← BitVec.toNat_inj, ← BitVec.toNat_inj, onDisk, onDisk, BitVec.toNat_ofNat,
    BitVec.toNat_ofNat, BitVec.toNat_ofNat, BitVec.toNat_ofNat, Nat.mod_eq_of_lt ha.startLba,
    Nat.mod_eq_of_lt hb.startLba, Nat.mod_eq_of_lt ha.length, Nat.mod_eq_of_lt hb.length]

theorem length_eq_zero_iff {lba : Nat} {fs : List DirFile} {i : Nat}
    (hi : i < (entriesFrom lba fs).length) (hf : i < fs.length) :
    (entriesFrom lba fs)[i].length = 0 ↔ fs[i].contents = [] := by
  obtain ⟨-, hlength, -⟩ := entriesFrom_getElem lba hi hf
  rw [hlength, List.length_eq_zero_iff]

-- Only empty files have the same extent, and then no file between them has a sector either.
theorem same_extent_iff {lba : Nat} {fs : List DirFile} {k j : Nat} (hkj : k < j)
    (hj : j < (entriesFrom lba fs).length) :
    ((entriesFrom lba fs)[k].startLba = (entriesFrom lba fs)[j].startLba ∧
        (entriesFrom lba fs)[k].length = (entriesFrom lba fs)[j].length) ↔
      ∀ (m : Nat) (_ : k ≤ m) (hm : m ≤ j), (entriesFrom lba fs)[m].length = 0 := by
  constructor
  · rintro ⟨hstart, hlength⟩
    have hbefore : ∀ (m : Nat) (_ : k ≤ m) (hm : m < j), (entriesFrom lba fs)[m].length = 0 := by
      intro m hkm hmj
      have hafter := entriesFrom_startLba hmj hj
      refine eq_zero_of_sectorsNeeded ?_
      rcases Nat.lt_or_eq_of_le hkm with hlt | rfl
      · have := entriesFrom_startLba hlt (hmj.trans hj)
        omega
      · omega
    intro m hkm hmj
    rcases Nat.lt_or_eq_of_le hmj with hlt | rfl
    · exact hbefore m hkm hlt
    · rw [← hlength]
      exact hbefore k (Nat.le_refl k) hkj
  · intro hempty
    obtain ⟨n, rfl⟩ := Nat.exists_eq_add_of_le hkj.le
    have hstart := startLba_of_empty hj fun m hm => hempty (k + m) (by omega) (by omega)
    have hfirst := hempty k (Nat.le_refl k) hkj.le
    exact ⟨hstart.symm, hfirst.trans (hempty _ hkj.le (Nat.le_refl _)).symm⟩

theorem extentByName_iff {lba : Nat} {files : List DirFile} {fs : Fs} (hcount : files.length ≤ 21)
    (hm : Mounted (entriesFrom lba files) fs) (hnamed : ∀ e ∈ entriesFrom lba files, Named e)
    (hpack : ∀ e ∈ entriesFrom lba files, Packable e) :
    ExtentByName (entriesFrom lba files) fs ↔ ClashesEmpty files := by
  have hlen := length_entriesFrom lba files
  rw [← hlen] at hcount
  constructor
  · intro hext i j k hij hj hkj hsame hik
    have hj' : j < (entriesFrom lba files).length := by rwa [hlen]
    obtain ⟨hnamei, -, -⟩ := entriesFrom_getElem lba (hij.trans hj') (hij.trans hj)
    obtain ⟨hnamej, -, -⟩ := entriesFrom_getElem lba hj' hj
    have hmatch : NameOf (asciiBytes (entriesFrom lba files)[j].name)
        (entriesFrom lba files)[i] := by
      rw [NameOf, hnamei, hnamej]
      exact hsame
    obtain ⟨n, hn, hni, -, hfirst⟩ := fsFind_first hcount hm hnamed
      (hnamed _ (List.getElem_mem hj')).zero_notMem (hij.trans hj') hmatch
    obtain ⟨found, hfound, hextent⟩ := hext _ (List.getElem_mem hj')
    rw [hfirst, Option.some_inj] at hfound
    rw [← hfound, onDisk_extent_inj (hpack _ (List.getElem_mem hn))
      (hpack _ (List.getElem_mem hj')), same_extent_iff (hni.trans_lt hij) hj'] at hextent
    exact (length_eq_zero_iff (hkj.trans_lt hj') (hkj.trans_lt hj)).mp
      (hextent k (hni.trans hik) hkj)
  · intro hempty e he
    obtain ⟨j, hj, rfl⟩ := List.mem_iff_getElem.mp he
    have hj' : j < files.length := by rwa [← hlen]
    obtain ⟨k, hk, hkj, hsame, hfound⟩ := fsFind_own hcount hm hnamed hj
    refine ⟨_, hfound, ?_⟩
    rcases Nat.lt_or_eq_of_le hkj with hlt | rfl
    · obtain ⟨hnamek, -, -⟩ := entriesFrom_getElem lba hk (hlt.trans hj')
      obtain ⟨hnamej, -, -⟩ := entriesFrom_getElem lba hj hj'
      rw [NameOf, hnamek, hnamej] at hsame
      rw [onDisk_extent_inj (hpack _ (List.getElem_mem hk)) (hpack _ (List.getElem_mem hj)),
        same_extent_iff hlt hj]
      exact fun m hkm hmj => (length_eq_zero_iff (hmj.trans_lt hj) (hmj.trans_lt hj')).mpr
        (hempty k j m hlt hj' hmj hsame hkm)
    · exact ⟨rfl, rfl⟩

theorem names_entriesFrom (lba : Nat) (fs : List DirFile) :
    (entriesFrom lba fs).map (·.name) = fs.map (·.name) := by
  induction fs generalizing lba with
  | nil => rfl
  | cons f fs ih => rw [entriesFrom, List.map_cons, List.map_cons, ih]

theorem files_nodup (dir : Directory) : ((files dir).map (·.name)).Nodup := by
  have hperm := (files_perm dir).map (·.name)
  have hsub : ((dir.listdir.filter (·.isFile)).map (·.name)).Sublist (dir.listdir.map (·.name)) :=
    List.filter_sublist.map _
  exact hperm.nodup_iff.mpr (dir.distinct.sublist hsub)

theorem named_built {dir : Directory} {mb : Int} {img : List Byte} (h : Built dir mb img)
    {e : DiskEntry} (he : e ∈ entriesFrom 1 (files dir)) : Named e := by
  obtain ⟨i, hi, rfl⟩ := List.mem_iff_getElem.mp he
  have hi' : i < (files dir).length := by rwa [length_entriesFrom] at hi
  obtain ⟨hname, -, -⟩ := entriesFrom_getElem 1 hi hi'
  have hshort := h.names _ (List.getElem_mem hi')
  exact ⟨by rwa [hname], (h.packable _ he).ascii, by rw [hname]; exact (files dir)[i].name_ne_nul⟩

theorem found_by_name_iff {δ : Type} [Ports δ] {v : Drive δ} (hv : v.HonoursReads)
    {dir : Directory} {mb : Int} {img : List Byte} (hbuild : buildDisk dir mb = .ok img) {d : δ}
    (hd : v.idle d) (himg : v.Holds d img) (fs : Fs) :
    ∃ fs' d', fsMount fs d = (0, fs', d') ∧
      (∀ name, 0 ∉ name → (∀ f ∈ files dir, ¬ SameName (asciiBytes f.name) name) →
        fs'.fsFind name = none) ∧
      (ReachedByName (entriesFrom 1 (files dir)) fs' ↔ NamesApart ((files dir).map (·.name))) ∧
      (ExtentByName (entriesFrom 1 (files dir)) fs' ↔ ClashesEmpty (files dir)) := by
  have hbuilt := buildDisk_ok hbuild
  have hcount := hbuilt.entries_count
  have hnamed : ∀ e ∈ entriesFrom 1 (files dir), Named e := fun e he => named_built hbuilt he
  obtain ⟨fs', d', hmount, hm, -, -⟩ := fsMount_built hv hbuilt hd himg fs
  refine ⟨fs', d', hmount, ?_, ?_, extentByName_iff hbuilt.count hm hnamed hbuilt.packable⟩
  · intro name hname hother
    refine fsFind_none hcount hm hnamed hname fun e he hmatch => ?_
    obtain ⟨i, hi, rfl⟩ := List.mem_iff_getElem.mp he
    have hi' : i < (files dir).length := by rwa [length_entriesFrom] at hi
    obtain ⟨heq, -, -⟩ := entriesFrom_getElem 1 hi hi'
    rw [NameOf, heq] at hmatch
    exact hother _ (List.getElem_mem hi') hmatch
  · rw [← names_entriesFrom 1]
    refine reachedByName_iff hcount hm hnamed ?_
    rw [names_entriesFrom]
    exact files_nodup dir

theorem found_by_name_iff_two_files : ∃ img fs' d', buildDisk twoFiles 1 = .ok img ∧
    fsMount Fs.zero (IdealDrive.holding img) = (0, fs', d') ∧
    ReachedByName (entriesFrom 1 (files twoFiles)) fs' := by
  obtain ⟨img, himg⟩ := buildDisk_twoFiles
  obtain ⟨fs', d', hmount, -, hreached, -⟩ := found_by_name_iff (IdealDrive.drive_reads _) himg
    (IdealDrive.holding_idle img) (IdealDrive.holding_holds img) Fs.zero
  have hapart : NamesApart ((files twoFiles).map (·.name)) := by
    unfold NamesApart
    decide
  exact ⟨img, fs', d', himg, hmount, hreached.mpr hapart⟩

-- `A.TXT` with one byte and `a.txt` with another
def sameNames : Directory where
  listdir :=
    [{ name := [0x41, 0x2E, 0x54, 0x58, 0x54], isFile := true, contents := [1]
       name_ne_nul := by decide },
      { name := [0x61, 0x2E, 0x74, 0x78, 0x74], isFile := true, contents := [2]
        name_ne_nul := by decide }]
  distinct := by decide

theorem not_clashesEmpty_sameNames : ¬ ClashesEmpty (files sameNames) := by
  intro h
  have hcontents := h 0 1 0 (by decide) (by decide) (by decide) (by decide) (Nat.le_refl 0)
  exact absurd hcontents (by decide)

theorem other_file_found : ¬ ∀ (dir : Directory) (mb : Int) (img : List Byte) (fs' : Fs)
    (d' : IdealDrive), buildDisk dir mb = .ok img →
      fsMount Fs.zero (IdealDrive.holding img) = (0, fs', d') →
        ExtentByName (entriesFrom 1 (files dir)) fs' := by
  intro hclaim
  obtain ⟨img, hbuilt⟩ : ∃ img, Built sameNames 1 img := by
    refine ⟨_, by decide, by decide, by decide, ?_, rfl⟩
    have hnames : ∀ e ∈ entriesFrom 1 (files sameNames), ∀ c ∈ e.name, c < 128 := by decide
    have hstarts : ∀ e ∈ entriesFrom 1 (files sameNames), e.startLba < 2 ^ 32 := by decide
    have hlengths : ∀ e ∈ entriesFrom 1 (files sameNames), e.length < 2 ^ 32 := by decide
    exact fun e he => ⟨hnames e he, hstarts e he, hlengths e he⟩
  obtain ⟨fs', d', hmount, hm, -, -⟩ := fsMount_built (IdealDrive.drive_reads _) hbuilt
    (IdealDrive.holding_idle img) (IdealDrive.holding_holds img) Fs.zero
  have hextent := hclaim sameNames 1 img fs' d' (buildDisk_ok_iff.mpr hbuilt) hmount
  exact not_clashesEmpty_sameNames ((extentByName_iff hbuilt.count hm
    (fun e he => named_built hbuilt he) hbuilt.packable).mp hextent)

end CDosX86
