import CDosX86.FsReadExact
import CDosX86.Printing
import CDosX86.RomDisk
import CDosX86.SingleFile
import Mathlib.Data.List.GetD

namespace CDosX86

-- Memory with `bytes` laid over it from `loadAddr` on.
def withRom (loadAddr : Word) (bytes : List Byte) (ram : Word → Byte) : Word → Byte :=
  fun a => bytes.getD (a - loadAddr).toNat (ram a)

def RomInRam (loadAddr : Word) (bytes : List Byte) (ram : Word → Byte) : Prop :=
  ∀ i, (h : i < bytes.length) → ram (loadAddr + BitVec.ofNat 16 i) = bytes[i]

theorem toNat_offset (loadAddr : Word) {i : Nat} (hi : i < 2 ^ 16) :
    (loadAddr + BitVec.ofNat 16 i - loadAddr).toNat = i := by
  have hoffset : loadAddr + BitVec.ofNat 16 i - loadAddr = BitVec.ofNat 16 i := by
    rw [BitVec.add_comm, BitVec.add_sub_cancel]
  rw [hoffset, BitVec.toNat_ofNat, Nat.mod_eq_of_lt hi]

theorem offset_add (loadAddr a : Word) :
    loadAddr + BitVec.ofNat 16 (a - loadAddr).toNat = a := by
  rw [BitVec.ofNat_toNat, BitVec.setWidth_eq, BitVec.add_comm, BitVec.sub_add_cancel]

theorem withRom_eq_self_iff {loadAddr : Word} {bytes : List Byte} (hlen : bytes.length ≤ 2 ^ 16)
    (ram : Word → Byte) : withRom loadAddr bytes ram = ram ↔ RomInRam loadAddr bytes ram := by
  constructor
  · intro h i hi
    have hbyte := congrFun h (loadAddr + BitVec.ofNat 16 i)
    rw [withRom, toNat_offset loadAddr (by omega), List.getD_eq_getElem _ _ hi] at hbyte
    exact hbyte.symm
  · intro h
    funext a
    rw [withRom]
    rcases Nat.lt_or_ge (a - loadAddr).toNat bytes.length with hin | hout
    · have hbyte := h _ hin
      rw [offset_add] at hbyte
      rw [List.getD_eq_getElem _ _ hin, hbyte]
    · exact List.getD_eq_default _ _ hout

theorem storeRom_ram (loadAddr : Word) (buffer : Buffer) {size : Nat} (hsize : size ≤ 2 ^ 16)
    (m : C64Mem) :
    (storeRom loadAddr buffer size m).ram =
      withRom loadAddr ((List.range size).map buffer) m.ram := by
  refine Loop.upto_invariant (I := fun n (m' : C64Mem) =>
    m'.ram = withRom loadAddr ((List.range n).map buffer) m.ram) ?_ ?_
  · rfl
  · intro i m' hi hm'
    rw [C64Mem.write_ram, hm']
    funext a
    rw [Function.update_apply]
    split
    · next heq =>
      rw [heq, withRom, toNat_offset loadAddr (by omega), List.getD_eq_getElem _ _ (by simp)]
      simp
    · next hne =>
      have hother : (a - loadAddr).toNat ≠ i := by
        intro hi'
        apply hne
        rw [← hi', offset_add]
      rw [withRom, withRom, List.range_succ, List.map_append]
      rcases Nat.lt_or_ge (a - loadAddr).toNat i with hin | hout
      · rw [List.getD_append _ _ _ _ (by simpa using hin)]
      · rw [List.getD_eq_default _ _ (by simpa using hout),
          List.getD_eq_default _ _ ?_]
        simp only [List.length_append, List.length_map, List.length_range, List.length_cons,
          List.length_nil]
        omega

theorem storeRom_raster (loadAddr : Word) (buffer : Buffer) (size : Nat) (m : C64Mem) :
    (storeRom loadAddr buffer size m).rasterCounter = m.rasterCounter :=
  Loop.upto_invariant (I := fun _ (m' : C64Mem) => m'.rasterCounter = m.rasterCounter) rfl
    fun _ m' _ hm' => (C64Mem.write_raster _ _ m').trans hm'

namespace Kernel

variable {δ : Type} [Ports δ]

-- The file `name` is in the directory, has the size of a ROM, and its sectors hold `bytes`.
def RomOn (name : List Byte) (k : Kernel δ) (bytes : List Byte) : Prop :=
  ∃ entry sectors, k.fs.fsFind name = some entry ∧ entry.length = 8192 ∧
    (readRun entry.startLba 16 0 k.dev).1 = some sectors ∧ (sectorBytes sectors).take 8192 = bytes

theorem romOn_iff {name : List Byte} {k : Kernel δ} {bytes : List Byte} :
    RomOn name k bytes ↔ ∃ entry buffer d, k.fs.fsFind name = some entry ∧ entry.length = 8192 ∧
      fsReadFile entry unwritten 8192 k.dev = (8192, buffer, d) ∧
        (List.range 8192).map buffer = bytes := by
  have hexact : ∀ {entry : FsEntry}, entry.length = 8192 →
      ReadsExactly entry 8192 unwritten k.dev ∧ wanted entry 8192 = 8192 := by
    intro entry hlen
    have hwanted : wanted entry 8192 = 8192 := by
      rw [wanted, hlen]
      rfl
    refine ⟨finishes_reads (fsReadFile_finishes (by decide) (by decide) ?_ _ _), hwanted⟩
    rw [hlen]
    decide
  constructor
  · rintro ⟨entry, sectors, hfind, hlen, hrun, rfl⟩
    obtain ⟨hread, hwanted⟩ := hexact hlen
    have hreturned := hread.returned sectors
    rw [hwanted] at hreturned
    obtain ⟨hr, hbytes⟩ := hreturned hrun
    exact ⟨entry, _, _, hfind, hlen, Prod.ext hr rfl, hbytes⟩
  · rintro ⟨entry, buffer, d, hfind, hlen, hfile, rfl⟩
    obtain ⟨hread, hwanted⟩ := hexact hlen
    cases hrun : (readRun entry.startLba 16 0 k.dev).1 with
    | none =>
        have hfailed := hread.failed
        rw [hwanted, hfile] at hfailed
        exact absurd (hfailed hrun) (show (8192 : Int) ≠ -1 by decide)
    | some sectors =>
        have hreturned := hread.returned sectors
        rw [hwanted, hfile] at hreturned
        exact ⟨entry, sectors, hfind, hlen, hrun, (hreturned hrun).2.symm⟩

structure Untouched (c c' : C64) : Prop where
  ram : c'.mem.ram = c.mem.ram
  raster : c'.mem.rasterCounter = c.mem.rasterCounter
  cpu : c'.cpu = c.cpu

omit [Ports δ] in
theorem Untouched.refl (c : C64) : Untouched c c := ⟨rfl, rfl, rfl⟩

omit [Ports δ] in
theorem untouched_print {c c' : C64} (s : List Byte) :
    Untouched c (c'.print s) ↔ Untouched c c' :=
  ⟨fun h => ⟨h.ram, h.raster, h.cpu⟩, fun h => ⟨h.ram, h.raster, h.cpu⟩⟩

structure RomStored (loadAddr : Word) (bytes : List Byte) (k k' : Kernel δ) : Prop where
  ram : k'.c64.mem.ram = withRom loadAddr bytes k.c64.mem.ram
  raster : k'.c64.mem.rasterCounter = k.c64.mem.rasterCounter
  cpu : k'.c64.cpu = k.c64.cpu
  fs : k'.fs = k.fs

omit [Ports δ] in
theorem RomStored.print {loadAddr : Word} {bytes : List Byte} {k k' : Kernel δ}
    (h : RomStored loadAddr bytes k k') (s : List Byte) :
    RomStored loadAddr bytes k (k'.print s) :=
  ⟨h.ram, h.raster, h.cpu, h.fs⟩

omit [Ports δ] in
theorem romStored_withMem (loadAddr : Word) (buffer : Buffer) {size : Nat} (hsize : size ≤ 2 ^ 16)
    (k : Kernel δ) (d : δ) :
    RomStored loadAddr ((List.range size).map buffer) k
      ({ k with dev := d }.onC64 fun c => c.withMem (storeRom loadAddr buffer size c.mem)) where
  ram := storeRom_ram loadAddr buffer hsize k.c64.mem
  raster := storeRom_raster loadAddr buffer size k.c64.mem
  cpu := rfl
  fs := rfl

theorem loadRom_stores {name : List Byte} {k : Kernel δ} {bytes : List Byte}
    (hrom : RomOn name k bytes) (loadAddr : Word) :
    (k.loadRom name loadAddr 8192).1 = 0 ∧
      RomStored loadAddr bytes k (k.loadRom name loadAddr 8192).2 := by
  obtain ⟨entry, buffer, d, hfind, hlen, hread, rfl⟩ := romOn_iff.mp hrom
  obtain ⟨s, hloaded⟩ := loadRom_read loadAddr hfind hlen hread
  rw [hloaded]
  exact ⟨rfl, (romStored_withMem loadAddr buffer (by decide) k d).print s⟩

theorem LoadRom.fails {name : List Byte} {loadAddr : Word} {k : Kernel δ} {out : Int × Kernel δ}
    (h : LoadRom name loadAddr 8192 k out) (hrom : ∀ bytes, ¬ RomOn name k bytes) :
    out.1 = -1 ∧ Untouched k.c64 out.2.c64 := by
  cases h with
  | missing s _ => exact ⟨rfl, (untouched_print s).mpr (.refl _)⟩
  | wrongSize s _ _ => exact ⟨rfl, (untouched_print s).mpr (.refl _)⟩
  | readFailed s _ _ _ => exact ⟨rfl, (untouched_print s).mpr (.refl _)⟩
  | stored s hfind hlen hread =>
      exact absurd (romOn_iff.mpr ⟨_, _, _, hfind, hlen, hread, rfl⟩) (hrom _)

theorem loadRom_fails {name : List Byte} {k : Kernel δ}
    (hrom : ∀ bytes, ¬ RomOn name k bytes) (loadAddr : Word) :
    (k.loadRom name loadAddr 8192).1 = -1 ∧
      Untouched k.c64 (k.loadRom name loadAddr 8192).2.c64 :=
  (loadRom_cases name loadAddr 8192 k).fails hrom

theorem c64Init_unmounted {k : Kernel δ} (hmount : k.mount.1 ≠ 0) :
    k.c64Init =
      (-1, k.mount.2.print (text "c64_init: disk not mounted, cannot load ROMs\n")) := by
  rw [c64Init]
  dsimp only
  rw [if_pos hmount]

omit [Ports δ] in
theorem resetVector_eq (k : Kernel δ) :
    k.resetVector = (k.c64.mem.ram 0xFFFD ++ k.c64.mem.ram 0xFFFC, k) := by
  have hlo : k.c64.mem.read 0xFFFC = (k.c64.mem.ram 0xFFFC, k.c64.mem) :=
    C64Mem.read_plain (by decide) (by decide) k.c64.mem
  have hhi : k.c64.mem.read 0xFFFD = (k.c64.mem.ram 0xFFFD, k.c64.mem) :=
    C64Mem.read_plain (by decide) (by decide) k.c64.mem
  rw [resetVector, hlo]
  dsimp only
  rw [hhi]
  dsimp only
  rw [LittleEndian.word_of_bytes]
  rfl

section mounted

variable {k : Kernel δ}

def kernalLoaded (k : Kernel δ) : Kernel δ := (k.mount.2.loadRom kernalRom kernalRomAddr 8192).2

theorem c64Init_no_kernal (hmount : k.mount.1 = 0)
    (hkernal : ∀ bytes, ¬ RomOn kernalRom k.mount.2 bytes) :
    k.c64Init = (-1, k.kernalLoaded) := by
  obtain ⟨hr, -⟩ := loadRom_fails hkernal kernalRomAddr
  rw [c64Init, kernalLoaded]
  dsimp only
  rw [if_neg (not_not.mpr hmount), kernalRomSize, hr, if_pos (show (-1 : Int) ≠ 0 by decide)]

theorem c64Init_no_basic (hmount : k.mount.1 = 0) {bytes : List Byte}
    (hkernal : RomOn kernalRom k.mount.2 bytes)
    (hbasic : ∀ bytes', ¬ RomOn basicRom k.kernalLoaded bytes') :
    k.c64Init = (-1, (k.kernalLoaded.loadRom basicRom basicRomAddr 8192).2) := by
  obtain ⟨hr, -⟩ := loadRom_stores hkernal kernalRomAddr
  obtain ⟨hr', -⟩ := loadRom_fails hbasic basicRomAddr
  rw [kernalLoaded] at hr' ⊢
  rw [c64Init]
  dsimp only
  rw [if_neg (not_not.mpr hmount), kernalRomSize, hr, if_neg (not_not.mpr rfl), basicRomSize, hr',
    if_pos (show (-1 : Int) ≠ 0 by decide)]

def romsLoaded (k : Kernel δ) : Kernel δ := (k.kernalLoaded.loadRom basicRom basicRomAddr 8192).2

theorem c64Init_reset (hmount : k.mount.1 = 0) {bytes bytes' : List Byte}
    (hkernal : RomOn kernalRom k.mount.2 bytes) (hbasic : RomOn basicRom k.kernalLoaded bytes') :
    ∃ s, k.c64Init = (0, (k.romsLoaded.print s).onC64 fun c =>
      { c with machine := resetM k.romsLoaded.resetVector.1 c.machine }) := by
  obtain ⟨hr, -⟩ := loadRom_stores hkernal kernalRomAddr
  obtain ⟨hr', -⟩ := loadRom_stores hbasic basicRomAddr
  rw [kernalLoaded] at hr'
  rw [c64Init]
  dsimp only
  rw [if_neg (not_not.mpr hmount), kernalRomSize, hr, if_neg (not_not.mpr rfl), basicRomSize, hr',
    if_neg (not_not.mpr rfl)]
  simp only [printHex_eq_print, putchar_eq_print, print_print, resetVector_eq]
  exact ⟨_, rfl⟩

theorem c64Init_loaded (hmount : k.mount.1 = 0) {bytes bytes' : List Byte}
    (hkernal : RomOn kernalRom k.mount.2 bytes) (hbasic : RomOn basicRom k.kernalLoaded bytes') :
    k.c64Init.1 = 0 := by
  obtain ⟨s, hinit⟩ := c64Init_reset hmount hkernal hbasic
  rw [hinit]

end mounted

theorem RomOn.unique {name : List Byte} {k : Kernel δ} {bytes bytes' : List Byte}
    (h : RomOn name k bytes) (h' : RomOn name k bytes') : bytes = bytes' := by
  obtain ⟨entry, sectors, hfind, -, hrun, rfl⟩ := h
  obtain ⟨entry', sectors', hfind', -, hrun', rfl⟩ := h'
  rw [hfind, Option.some_inj] at hfind'
  rw [← hfind', hrun, Option.some_inj] at hrun'
  rw [hrun']

theorem RomOn.length_le {name : List Byte} {k : Kernel δ} {bytes : List Byte}
    (h : RomOn name k bytes) : bytes.length ≤ 2 ^ 16 := by
  obtain ⟨entry, sectors, -, -, -, rfl⟩ := h
  exact (List.length_take_le _ _).trans (by decide)

theorem init_untouched {k : Kernel δ}
    (hkernal : ∀ bytes, k.mount.1 = 0 → ¬ RomOn kernalRom k.mount.2 bytes) :
    Untouched k.c64 k.c64Init.2.c64 := by
  by_cases hmount : k.mount.1 = 0
  · obtain ⟨-, hsame⟩ := loadRom_fails (fun bytes => hkernal bytes hmount) kernalRomAddr
    rw [c64Init_no_kernal hmount fun bytes => hkernal bytes hmount]
    exact hsame
  · rw [c64Init_unmounted hmount]
    exact (untouched_print _).mpr (Untouched.refl _)

theorem failed_init_kernal {k : Kernel δ} (hfail : k.c64Init.1 ≠ 0) (hmount : k.mount.1 = 0)
    {bytes : List Byte} (hkernal : RomOn kernalRom k.mount.2 bytes) :
    RomStored kernalRomAddr bytes k.mount.2 k.kernalLoaded ∧
      Untouched k.kernalLoaded.c64 k.c64Init.2.c64 := by
  have hbasic : ∀ bytes', ¬ RomOn basicRom k.kernalLoaded bytes' := fun bytes' hbasic =>
    hfail (c64Init_loaded hmount hkernal hbasic)
  obtain ⟨-, hsame⟩ := loadRom_fails hbasic basicRomAddr
  refine ⟨(loadRom_stores hkernal kernalRomAddr).2, ?_⟩
  rw [c64Init_no_basic hmount hkernal hbasic]
  exact hsame

theorem failed_init_ram {k : Kernel δ} (hfail : k.c64Init.1 ≠ 0) (hmount : k.mount.1 = 0)
    {bytes : List Byte} (hkernal : RomOn kernalRom k.mount.2 bytes) :
    Untouched k.c64 k.c64Init.2.c64 ↔ RomInRam kernalRomAddr bytes k.c64.mem.ram := by
  obtain ⟨hstored, hsame⟩ := failed_init_kernal hfail hmount hkernal
  rw [← withRom_eq_self_iff hkernal.length_le]
  constructor
  · intro h
    exact (hsame.ram.trans hstored.ram).symm.trans h.ram
  · intro h
    exact ⟨(hsame.ram.trans hstored.ram).trans h, hsame.raster.trans hstored.raster,
      hsame.cpu.trans hstored.cpu⟩

theorem failed_init_untouched_iff {k : Kernel δ} (hfail : k.c64Init.1 ≠ 0) :
    Untouched k.c64 k.c64Init.2.c64 ↔
      ∀ bytes, k.mount.1 = 0 → RomOn kernalRom k.mount.2 bytes →
        RomInRam kernalRomAddr bytes k.c64.mem.ram := by
  constructor
  · intro h bytes hmount hkernal
    exact (failed_init_ram hfail hmount hkernal).mp h
  · intro h
    by_cases hkernal : ∃ bytes, k.mount.1 = 0 ∧ RomOn kernalRom k.mount.2 bytes
    · obtain ⟨bytes, hmount, hrom⟩ := hkernal
      exact (failed_init_ram hfail hmount hrom).mpr (h bytes hmount hrom)
    · exact init_untouched fun bytes hmount hrom => hkernal ⟨bytes, hmount, hrom⟩

section built

open BuildDisk

variable {v : Drive δ}

theorem romOn_built (hv : v.HonoursReads) {dir : Directory} {mb : Int} {img : List Byte}
    (hmb : mb ≤ 2048) (hbuilt : Built dir mb img) {k : Kernel δ}
    (hm : Mounted (entriesFrom 1 (files dir)) k.fs) (hd : v.idle k.dev)
    (himg : v.Holds k.dev img) {name : List Byte} (hname : 0 ∉ name) {e : DiskEntry}
    (he : firstNamed dir name = some e) (hlen : e.length = 8192) : RomOn name k e.contents := by
  have hmem : e ∈ entriesFrom 1 (files dir) := List.mem_of_find?_eq_some he
  obtain ⟨buffer, d, hread, hbytes, -⟩ := fsReadFile_built hv hmb hbuilt hd himg hmem unwritten
    (show 0 < (8192 : BitVec 32).toNat by decide) (by decide)
  have hcontents : e.contents.length = 8192 := (length_eq_of_mem hmem).symm.trans hlen
  have hmin : min 8192 (8192 : BitVec 32).toNat = 8192 := Nat.min_self _
  rw [hlen, hmin] at hread
  have hfind := fsFind_firstNamed hbuilt hm hname he
  have hsize : (onDisk e).length = 8192 := by
    rw [onDisk, hlen]
    rfl
  refine romOn_iff.mpr ⟨_, buffer, d, hfind, hsize, hread, List.ext_getElem ?_ ?_⟩
  · rw [List.length_map, List.length_range, hcontents]
  · intro p hp hp'
    rw [List.length_map, List.length_range] at hp
    rw [List.getElem_map, List.getElem_range]
    exact hbytes p hp' hp

end built

end Kernel

-- KERNAL.ROM alone, 8192 times the byte `b`.
def kernalOnly (b : Byte) : OneFile where
  file :=
    { name := Kernel.kernalFile.name
      isFile := true
      contents := List.replicate 8192 b
      name_ne_nul := Kernel.kernalFile.name_ne_nul }
  isFile := rfl
  short := Nat.le_of_ble_eq_true rfl
  ascii := show ∀ c ∈ Kernel.kernalFile.name, c < 128 by decide
  fits := by rw [List.length_replicate]; decide

open Kernel IdealDrive BuildDisk

section kernalOnly

variable {b : Byte} {img : List Byte}

theorem romOn_kernalOnly (hbuilt : Built (kernalOnly b).directory 1 img) :
    RomOn kernalRom (holdingKernel img).mount.2 (List.replicate 8192 b) := by
  obtain ⟨-, hd, hdisk⟩ := mount_same (drive_reads _) (k := holdingKernel img) (holding_idle img)
  have himg : (drive ((img.length + 511) / 512)).Holds (holdingKernel img).mount.2.dev img := by
    rw [Drive.Holds, hdisk]
    exact holding_holds img
  have hm := OneFile.mounted hbuilt
  rw [← OneFile.entries_directory] at hm
  have hfirst : firstNamed (kernalOnly b).directory kernalRom = some (kernalOnly b).entry := by
    rw [firstNamed, OneFile.entries_directory]
    rfl
  exact romOn_built (drive_reads _) (by decide) hbuilt hm hd himg (by decide) hfirst
    List.length_replicate

theorem init_fails_kernalOnly (hbuilt : Built (kernalOnly b).directory 1 img) :
    (holdingKernel img).c64Init.1 ≠ 0 := by
  have hmount := mount_holdingKernel (buildDisk_ok_iff.mpr hbuilt)
  have hkernal := romOn_kernalOnly hbuilt
  have hother : ¬ NameOf basicRom (kernalOnly b).entry :=
    show ¬ SameName (asciiBytes kernalFile.name) basicRom by decide
  have hbasic : ∀ bytes, ¬ RomOn basicRom (holdingKernel img).kernalLoaded bytes := by
    rintro bytes ⟨entry, sectors, hfind, -⟩
    rw [kernalLoaded, (loadRom_stores hkernal kernalRomAddr).2.fs,
      OneFile.missing hbuilt (by decide) hother] at hfind
    cases hfind
  rw [c64Init_no_basic hmount hkernal hbasic]
  exact show (-1 : Int) ≠ 0 by decide

end kernalOnly

theorem failed_init_untouched_zeros : ∃ img, Built (kernalOnly 0).directory 1 img ∧
    Untouched (holdingKernel img).c64 (holdingKernel img).c64Init.2.c64 := by
  obtain ⟨img, hbuilt⟩ := (kernalOnly 0).built
  refine ⟨img, hbuilt, (failed_init_untouched_iff (init_fails_kernalOnly hbuilt)).mpr ?_⟩
  intro bytes _ hkernal i hi
  have hzeros := hkernal.unique (romOn_kernalOnly hbuilt)
  simp only [hzeros, List.getElem_replicate]
  rfl

theorem failed_init_changes_ram : ¬ ∀ img : List Byte, (holdingKernel img).c64Init.1 ≠ 0 →
    Untouched (holdingKernel img).c64 (holdingKernel img).c64Init.2.c64 := by
  intro hclaim
  obtain ⟨img, hbuilt⟩ := (kernalOnly 0x41).built
  have hfail := init_fails_kernalOnly hbuilt
  have hram := (failed_init_ram hfail (mount_holdingKernel (buildDisk_ok_iff.mpr hbuilt))
    (romOn_kernalOnly hbuilt)).mp (hclaim img hfail)
  have hfirst := hram 0 (by rw [List.length_replicate]; decide)
  rw [List.getElem_replicate] at hfirst
  exact absurd hfirst (show (0 : Byte) ≠ 0x41 by decide)

end CDosX86
