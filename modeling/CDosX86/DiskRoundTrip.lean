import CDosX86.DiskImage
import CDosX86.IdealDrive

namespace CDosX86

open StoredBytes LittleEndian BuildDisk

theorem files_sorted (dir : Directory) : (files dir).Pairwise fun a b => a.name ≤ b.name := by
  have hsorted : (dir.listdir.insertionSort fun a b => a.name ≤ b.name).Pairwise
      fun a b => a.name ≤ b.name := by
    have htotal : Std.Total fun a b : DirFile => a.name ≤ b.name :=
      ⟨fun a b => le_total a.name b.name⟩
    have htrans : IsTrans DirFile fun a b => a.name ≤ b.name :=
      ⟨fun _ _ _ hab hbc => le_trans hab hbc⟩
    exact List.pairwise_insertionSort _ _
  exact hsorted.filter _

theorem files_perm (dir : Directory) : (files dir).Perm (dir.listdir.filter (·.isFile)) :=
  (List.perm_insertionSort _ _).filter _

theorem zero_notMem_asciiBytes {name : List Nat} (hascii : ∀ c ∈ name, c < 128)
    (hnul : 0 ∉ name) : 0 ∉ asciiBytes name := by
  intro h
  obtain ⟨c, hc, hzero⟩ := List.mem_map.mp h
  have hlt := hascii c hc
  have heq : c = 0 := by
    have := congrArg BitVec.toNat hzero
    rw [BitVec.toNat_ofNat] at this
    simp at this
    omega
  exact hnul (heq ▸ hc)

theorem nameBytes_onDisk {e : DiskEntry} (h : e.name.length ≤ 15) :
    (onDisk e).nameBytes = asciiBytes e.name ++ 0 :: List.replicate (15 - e.name.length) 0 := by
  have hlen : (asciiBytes e.name).length = e.name.length := List.length_map _
  have htake : (asciiBytes e.name).take BuildDisk.fsNameLen = asciiBytes e.name :=
    List.take_of_length_le (by rw [hlen, BuildDisk.fsNameLen]; omega)
  have hfield : ljust BuildDisk.fsNameLen (asciiBytes e.name) =
      asciiBytes e.name ++ 0 :: List.replicate (15 - e.name.length) 0 := by
    rw [ljust, hlen, BuildDisk.fsNameLen, ← List.replicate_succ]
    congr 2
    omega
  rw [← hfield]
  apply List.ext_getElem
  · rw [FsEntry.nameBytes, List.length_ofFn, length_ljust (by rw [hlen, BuildDisk.fsNameLen]; omega)]
    rfl
  · intro i _ hi
    simp only [FsEntry.nameBytes, List.getElem_ofFn]
    change ((ljust _ (List.take _ _)).getD i 0) = _
    rw [htake, List.getD_eq_getElem?_getD, List.getElem?_eq_getElem hi, Option.getD_some]

def imageByte (img : List Byte) (p : Nat) : Byte := img.getD p 0

theorem imageByte_of_lt {img : List Byte} {p : Nat} (h : p < img.length) :
    imageByte img p = img[p] := by
  rw [imageByte, List.getD_eq_getElem?_getD, List.getElem?_eq_getElem h, Option.getD_some]

theorem image_stored (img : List Byte) : Stored (imageByte img) 0 img := by
  intro k hk
  rw [Nat.zero_add, imageByte_of_lt hk]

theorem length_data (lba : Nat) (fs : List DirFile) :
    512 * lba + ((entriesFrom lba fs).map fun e => padded e.contents).flatten.length =
      512 * endLba lba fs := by
  induction fs generalizing lba with
  | nil => rfl
  | cons f fs ih =>
      have hrest := ih (lba + sectorsNeeded f.contents.length)
      rw [entriesFrom, List.map_cons, List.flatten_cons, List.length_append, length_padded,
        endLba_cons, ← hrest]
      dsimp only
      omega

section built

variable {dir : Directory} {mb : Int} {img : List Byte}

theorem BuildDisk.Built.entries_count (h : Built dir mb img) :
    (entriesFrom 1 (files dir)).length ≤ 21 := by
  rw [length_entriesFrom]
  exact h.count

theorem BuildDisk.Built.stored (h : Built dir mb img) :
    Stored (imageByte img) 0 (dirSector (files dir).length
        ((entriesFrom 1 (files dir)).map entryBytes)) ∧
      Stored (imageByte img) (512 * 1)
        ((entriesFrom 1 (files dir)).map fun e => padded e.contents).flatten := by
  have hall := image_stored img
  have hbytes := h.bytes
  rw [image] at hbytes
  have hlen : ((dirSector (files dir).length
      ((entriesFrom 1 (files dir)).map entryBytes))).length = 512 :=
    length_dirSector h.entries_count _
  generalize imageByte img = mem at hall ⊢
  rw [hbytes, stored_append, stored_append, hlen] at hall
  exact hall.1

theorem startLba_onDisk (h : Built dir mb img) {e : DiskEntry}
    (he : e ∈ entriesFrom 1 (files dir)) : (onDisk e).startLba.toNat = e.startLba :=
  Nat.mod_eq_of_lt (h.packable e he).startLba

theorem length_onDisk (h : Built dir mb img) {e : DiskEntry}
    (he : e ∈ entriesFrom 1 (files dir)) : (onDisk e).length.toNat = e.length :=
  Nat.mod_eq_of_lt (h.packable e he).length

theorem BuildDisk.Built.length_le (h : Built dir mb img) :
    512 * endLba 1 (files dir) ≤ img.length := by
  have hlen : ((dirSector (files dir).length
      ((entriesFrom 1 (files dir)).map entryBytes))).length = 512 :=
    length_dirSector h.entries_count _
  rw [h.bytes, image]
  rw [List.length_append, List.length_append, hlen, ← length_data]
  omega

theorem BuildDisk.Built.endLba_le (h : Built dir mb img) (hmb : mb ≤ 2048) :
    endLba 1 (files dir) ≤ 2 ^ 22 := by
  have hfits := h.fits
  omega

end built

section mounted

variable {δ : Type} [Ports δ] {v : Drive δ}

def Drive.Holds (v : Drive δ) (d : δ) (img : List Byte) : Prop :=
  ∀ p, (h : p < img.length) →
    p / 512 < v.sectors ∧ v.disk d (p / 512) (inSector p) = img[p]

structure Mounted (es : List DiskEntry) (fs : Fs) : Prop where
  mounted : fs.mounted = true
  count : fs.header.entryCount.toNat = es.length
  entries : ∀ (i : Fin 21) (hi : i.val < es.length), fs.header.entries i = onDisk es[i.val]

omit [Ports δ] in
theorem Drive.Holds.directory {dir : Directory} {mb : Int} {img : List Byte} {d : δ}
    (h : v.Holds d img) (hbuilt : Built dir mb img) :
    Stored (fill unwritten (v.disk d 0)) 0 (dirSector (entriesFrom 1 (files dir)).length
      ((entriesFrom 1 (files dir)).map entryBytes)) := by
  have hlen := hbuilt.length_le
  have hend : 1 ≤ endLba 1 (files dir) := Nat.le_add_right 1 _
  have hdir := hbuilt.stored.1
  rw [← length_entriesFrom 1 (files dir)] at hdir
  refine hdir.congr fun k hk => ?_
  rw [length_dirSector hbuilt.entries_count] at hk
  have hbyte := (h k (by omega)).2
  have hdiv : k / 512 = 0 := by omega
  rw [hdiv, inSector_of_lt hk] at hbyte
  rw [Nat.zero_add, imageByte_of_lt (by omega), ← hbyte]
  simp [fill, fillTo, hk]

theorem fsMount_built (hv : v.HonoursReads) {dir : Directory} {mb : Int} {img : List Byte}
    (hbuilt : Built dir mb img) {d : δ} (hd : v.idle d) (himg : v.Holds d img) (fs : Fs) :
    ∃ fs' d', fsMount fs d = (0, fs', d') ∧ Mounted (entriesFrom 1 (files dir)) fs' ∧
      v.idle d' ∧ v.disk d' = v.disk d := by
  have hlen := hbuilt.length_le
  have hend : 1 ≤ endLba 1 (files dir) := Nat.le_add_right 1 _
  have hzero : address 0 = 0 := rfl
  have hsector : 0 < v.sectors := (himg 0 (by omega)).1
  obtain ⟨d', hr, hd', hdisk⟩ := hv.ataReadSector 0 hd (by rwa [hzero]) unwritten
  rw [hzero] at hr
  have hcount := hbuilt.entries_count
  obtain ⟨hmagic, hentryCount, hentries⟩ :=
    headerAt_stored hcount hbuilt.packable (himg.directory hbuilt)
  have hnat : (headerAt (fill unwritten (v.disk d 0))).entryCount.toNat =
      (entriesFrom 1 (files dir)).length := by
    rw [hentryCount, BitVec.toNat_ofNat]
    omega
  refine ⟨_, d', fsMount_accepted hr hmagic fs, ⟨rfl, hnat, fun i hi => ?_⟩, hd', hdisk⟩
  dsimp only
  rw [if_pos (by rw [hnat]; exact hi)]
  exact hentries i hi

def listed (h : FsHeader) (i : Fin 21) (seen : List (List Byte × Nat)) : List (List Byte × Nat) :=
  seen ++ [(cString (h.entries i).nameBytes, (h.entries i).length.toNat)]

theorem scanned_indices {fs : Fs} {n : Nat} (hn : n ≤ 21)
    (hcount : fs.header.entryCount.toNat = n) : fs.scanned.map Fin.val = List.range n := by
  have hall : ∀ n : Fin 22,
      ((List.finRange 21).filter (·.val < n.val)).map Fin.val = List.range n.val := by decide
  rw [Fs.scanned, hcount]
  exact hall ⟨n, by omega⟩

theorem map_scanned {α : Type} {fs : Fs} {es : List DiskEntry} (hcount : es.length ≤ 21)
    (hm : Mounted es fs) (f : FsEntry → α) :
    fs.scanned.map (fun i => f (fs.header.entries i)) = es.map fun e => f (onDisk e) := by
  have hindices := scanned_indices hcount hm.count
  have hlen : fs.scanned.length = es.length := by
    simpa using congrArg List.length hindices
  apply List.ext_getElem
  · rw [List.length_map, List.length_map, hlen]
  · intro k hk hk'
    rw [List.length_map] at hk hk'
    have hval : (fs.scanned[k]).val = k := by
      have hget : (fs.scanned.map Fin.val)[k]? = (List.range es.length)[k]? := by rw [hindices]
      rw [List.getElem?_map, List.getElem?_eq_getElem hk, List.getElem?_range hk',
        Option.map_some] at hget
      exact Option.some_inj.mp hget
    rw [List.getElem_map, List.getElem_map, hm.entries _ (by rwa [hval])]
    exact congrArg (fun e => f (onDisk e)) (getElem_congr_idx hval)

theorem fsList_listed {fs : Fs} (h : fs.mounted = true) (seen : List (List Byte × Nat)) :
    fs.fsList listed seen = (0, seen ++ fs.scanned.map fun i =>
      (cString (fs.header.entries i).nameBytes, (fs.header.entries i).length.toNat)) := by
  rw [Fs.fsList, if_pos h]
  congr 1
  induction fs.scanned generalizing seen with
  | nil => simp
  | cons i is ih => rw [List.foldl_cons, ih, listed, List.map_cons, List.append_assoc]; rfl

theorem fsList_built {dir : Directory} {mb : Int} {img : List Byte} (hbuilt : Built dir mb img)
    {fs : Fs} (hm : Mounted (entriesFrom 1 (files dir)) fs) :
    fs.fsList listed [] =
      (0, (files dir).map fun f => (asciiBytes f.name, f.contents.length)) := by
  rw [fsList_listed hm.mounted, List.nil_append, map_scanned hbuilt.entries_count hm
    fun e => (cString e.nameBytes, e.length.toNat)]
  congr 1
  apply List.ext_getElem
  · rw [List.length_map, List.length_map, length_entriesFrom]
  · intro i hi hi'
    rw [List.length_map] at hi hi'
    obtain ⟨hname, hlength, -⟩ := entriesFrom_getElem 1 hi hi'
    have hmem := List.getElem_mem hi
    have hpack := hbuilt.packable _ hmem
    have hshort := hbuilt.names _ (List.getElem_mem hi')
    have hnul : 0 ∉ asciiBytes (entriesFrom 1 (files dir))[i].name :=
      zero_notMem_asciiBytes hpack.ascii (by rw [hname]; exact (files dir)[i].name_ne_nul)
    rw [List.getElem_map, List.getElem_map, nameBytes_onDisk (by rw [hname]; exact hshort),
      cString_terminated hnul, hname, onDisk, BitVec.toNat_ofNat, Nat.mod_eq_of_lt hpack.length,
      hlength]

theorem address_onDisk {dir : Directory} {mb : Int} {img : List Byte} (hmb : mb ≤ 2048)
    (hbuilt : Built dir mb img) {e : DiskEntry} (he : e ∈ entriesFrom 1 (files dir)) {k : Nat}
    (hk : 512 * k < e.length) :
    address ((onDisk e).startLba + BitVec.ofNat 32 k) = e.startLba + k := by
  obtain ⟨-, hend⟩ := entriesFrom_bounds he
  have hbound := hbuilt.endLba_le hmb
  have hneeded : sectorsNeeded e.length = (e.length + 512 - 1) / 512 := rfl
  rw [address, onDisk, ← BitVec.ofNat_add, BitVec.toNat_ofNat]
  omega

omit [Ports δ] in
theorem readable_onDisk {dir : Directory} {mb : Int} {img : List Byte} (hmb : mb ≤ 2048)
    (hbuilt : Built dir mb img) {d : δ} (himg : v.Holds d img) {e : DiskEntry}
    (he : e ∈ entriesFrom 1 (files dir)) : Readable v (onDisk e).startLba e.length := by
  obtain ⟨-, hend⟩ := entriesFrom_bounds he
  have himage := hbuilt.length_le
  have hneeded : sectorsNeeded e.length = (e.length + 512 - 1) / 512 := rfl
  intro k hk
  rw [address_onDisk hmb hbuilt he hk]
  have hsector := (himg (512 * (e.startLba + k)) (by omega)).1
  rwa [Nat.mul_div_cancel_left _ (by decide)] at hsector

omit [Ports δ] in
theorem fileByte_onDisk {dir : Directory} {mb : Int} {img : List Byte} (hmb : mb ≤ 2048)
    (hbuilt : Built dir mb img) {d : δ} (himg : v.Holds d img) {e : DiskEntry}
    (he : e ∈ entriesFrom 1 (files dir)) {p : Nat} (hp : p < e.contents.length) :
    fileByte (v.disk d) (onDisk e).startLba p = e.contents[p] := by
  obtain ⟨-, hend⟩ := entriesFrom_bounds he
  have himage := hbuilt.length_le
  have hfile : e.length = e.contents.length := length_eq_of_mem he
  have hneeded : sectorsNeeded e.length = (e.length + 512 - 1) / 512 := rfl
  have hstored := entriesFrom_stored hbuilt.stored.2 he
  rw [fileByte, address_onDisk hmb hbuilt he (by omega)]
  have hbyte := (himg (512 * e.startLba + p) (by omega)).2
  have hdiv : (512 * e.startLba + p) / 512 = e.startLba + p / 512 := by omega
  rw [hdiv, inSector_add] at hbyte
  rw [hbyte, ← hstored p hp, imageByte_of_lt]

theorem fsReadFile_built (hv : v.HonoursReads) {dir : Directory} {mb : Int} {img : List Byte}
    (hmb : mb ≤ 2048) (hbuilt : Built dir mb img) {d : δ} (hd : v.idle d) (himg : v.Holds d img)
    {e : DiskEntry} (he : e ∈ entriesFrom 1 (files dir)) (buffer : Buffer) {maxLen : BitVec 32}
    (hpos : 0 < maxLen.toNat) (hmax : maxLen.toNat < 2 ^ 31) :
    ∃ buffer' d', fsReadFile (onDisk e) buffer maxLen d =
        (((min e.length maxLen.toNat : Nat) : Int), buffer', d') ∧
      (∀ p, (h : p < e.contents.length) → p < maxLen.toNat → buffer' p = e.contents[p]) ∧
      (∀ p, min e.length maxLen.toNat ≤ p → buffer' p = buffer p) ∧
      v.idle d' ∧ v.disk d' = v.disk d := by
  obtain ⟨-, hend⟩ := entriesFrom_bounds he
  have hbound := hbuilt.endLba_le hmb
  have hfile : e.length = e.contents.length := length_eq_of_mem he
  have hneeded : sectorsNeeded e.length = (e.length + 512 - 1) / 512 := rfl
  have hlength := length_onDisk hbuilt he
  have hreadable : Readable v (onDisk e).startLba (min (onDisk e).length.toNat maxLen.toNat) := by
    intro k hk
    exact readable_onDisk hmb hbuilt himg he k (by omega)
  obtain ⟨d', hrun, hd', hdisk⟩ :=
    fsReadFile_spec hv buffer hd hpos hmax (by rw [hlength]; omega) hreadable
  rw [hlength] at hrun
  refine ⟨_, d', hrun, fun p hp hlt => ?_, fun p hp => if_neg (Nat.not_lt.mpr hp), hd', hdisk⟩
  rw [loaded, if_pos (by omega)]
  exact fileByte_onDisk hmb hbuilt himg he hp

theorem disk_round_trip (hv : v.HonoursReads) {dir : Directory} {mb : Int} {img : List Byte}
    (hmb : mb ≤ 2048) (hbuild : buildDisk dir mb = .ok img) {d : δ} (hd : v.idle d)
    (himg : v.Holds d img) (fs : Fs) :
    ((files dir).Pairwise fun a b => a.name ≤ b.name) ∧
      (files dir).Perm (dir.listdir.filter (·.isFile)) ∧
      ∃ fs' d', fsMount fs d = (0, fs', d') ∧
        fs'.fsList listed [] =
          (0, (files dir).map fun f => (asciiBytes f.name, f.contents.length)) ∧
        (∀ (i : Fin 21) (hi : i.val < (files dir).length) (buffer : Buffer) (maxLen : BitVec 32),
          0 < maxLen.toNat → maxLen.toNat < 2 ^ 31 → ∀ d₁, v.idle d₁ → v.disk d₁ = v.disk d' →
            ∃ buffer' d₂, fsReadFile (fs'.header.entries i) buffer maxLen d₁ =
                (((min (files dir)[i.val].contents.length maxLen.toNat : Nat) : Int), buffer', d₂) ∧
              (∀ p, (h : p < (files dir)[i.val].contents.length) → p < maxLen.toNat →
                buffer' p = (files dir)[i.val].contents[p]) ∧
              (∀ p, min (files dir)[i.val].contents.length maxLen.toNat ≤ p → buffer' p = buffer p) ∧
              v.idle d₂ ∧ v.disk d₂ = v.disk d') ∧
        (∀ i : Fin 21, i.val < (files dir).length → 1 ≤ (fs'.header.entries i).startLba.toNat) ∧
        (∀ i j : Fin 21, i < j → j.val < (files dir).length →
          (fs'.header.entries i).startLba.toNat +
              sectorsNeeded (fs'.header.entries i).length.toNat ≤
            (fs'.header.entries j).startLba.toNat) := by
  have hbuilt := buildDisk_ok hbuild
  obtain ⟨fs', d', hmount, hm, hd', hdisk⟩ := fsMount_built hv hbuilt hd himg fs
  refine ⟨files_sorted dir, files_perm dir, fs', d', hmount, fsList_built hbuilt hm, ?_, ?_, ?_⟩
  · intro i hi buffer maxLen hpos hmax d₁ hd₁ hdisk₁
    have hi' : i.val < (entriesFrom 1 (files dir)).length := by rwa [length_entriesFrom]
    obtain ⟨-, hlength, hcontents⟩ := entriesFrom_getElem 1 hi' hi
    have himg₁ : v.Holds d₁ img := by
      rw [Drive.Holds, hdisk₁, hdisk]
      exact himg
    obtain ⟨buffer', d₂, hrun, hread, hrest, hd₂, hdisk₂⟩ := fsReadFile_built hv hmb hbuilt hd₁
      himg₁ (List.getElem_mem hi') buffer hpos hmax
    rw [hlength] at hrun hrest
    rw [hcontents] at hread
    rw [hm.entries i hi']
    exact ⟨buffer', d₂, hrun, hread, hrest, hd₂, hdisk₂.trans hdisk₁⟩
  · intro i hi
    have hi' : i.val < (entriesFrom 1 (files dir)).length := by rwa [length_entriesFrom]
    rw [hm.entries i hi', startLba_onDisk hbuilt (List.getElem_mem hi')]
    exact (entriesFrom_bounds (List.getElem_mem hi')).1
  · intro i j hij hj
    have hj' : j.val < (entriesFrom 1 (files dir)).length := by rwa [length_entriesFrom]
    have hi' : i.val < (entriesFrom 1 (files dir)).length := Nat.lt_trans hij hj'
    rw [hm.entries i hi', hm.entries j hj', startLba_onDisk hbuilt (List.getElem_mem hi'),
      startLba_onDisk hbuilt (List.getElem_mem hj'), length_onDisk hbuilt (List.getElem_mem hi')]
    exact List.pairwise_iff_getElem.mp (entriesFrom_disjoint 1 (files dir)) _ _ hi' hj' hij

end mounted

namespace IdealDrive

def holding (img : List Byte) : IdealDrive where
  sectors := (img.length + 511) / 512
  content lba j := imageByte img (512 * lba + j)
  driveHead := 0
  lbaLo := 0
  lbaMid := 0
  lbaHi := 0
  transfer := .none

theorem holding_idle (img : List Byte) :
    (drive ((img.length + 511) / 512)).idle (holding img) := ⟨rfl, rfl⟩

theorem holding_holds (img : List Byte) :
    (drive ((img.length + 511) / 512)).Holds (holding img) img := by
  intro p hp
  refine ⟨(show p / 512 < (img.length + 511) / 512 by omega), ?_⟩
  change imageByte img (512 * (p / 512) + p % 512) = img[p]
  rw [Nat.div_add_mod, imageByte_of_lt hp]

end IdealDrive

def twoFiles : Directory where
  listdir :=
    [{ name := [0x42], isFile := true, contents := [1, 2, 3], name_ne_nul := by decide },
      { name := [0x41], isFile := true, contents := [], name_ne_nul := by decide }]
  distinct := by decide

theorem buildDisk_twoFiles : ∃ img, buildDisk twoFiles 1 = .ok img := by
  refine ⟨_, buildDisk_ok_iff.mpr ⟨by decide, by decide, by decide, ?_, rfl⟩⟩
  have hnames : ∀ e ∈ entriesFrom 1 (files twoFiles), ∀ c ∈ e.name, c < 128 := by decide
  have hstarts : ∀ e ∈ entriesFrom 1 (files twoFiles), e.startLba < 2 ^ 32 := by decide
  have hlengths : ∀ e ∈ entriesFrom 1 (files twoFiles), e.length < 2 ^ 32 := by decide
  exact fun e he => ⟨hnames e he, hstarts e he, hlengths e he⟩

theorem disk_round_trip_two_files : ∃ img fs' d', buildDisk twoFiles 1 = .ok img ∧
    fsMount Fs.zero (IdealDrive.holding img) = (0, fs', d') ∧
    fs'.fsList listed [] = (0, [([0x41], 0), ([0x42], 3)]) := by
  obtain ⟨img, himg⟩ := buildDisk_twoFiles
  obtain ⟨-, -, fs', d', hmount, hlist, -⟩ := disk_round_trip (IdealDrive.drive_reads _)
    (by decide) himg (IdealDrive.holding_idle img) (IdealDrive.holding_holds img) Fs.zero
  exact ⟨img, fs', d', himg, hmount, hlist⟩

end CDosX86
