import CDosX86.MountHistory

namespace CDosX86

theorem length_sectorBytes (sectors : List Buffer) :
    (sectorBytes sectors).length = 512 * sectors.length := by
  induction sectors with
  | nil => rfl
  | cons sector sectors ih =>
      rw [sectorBytes, List.flatMap_cons, List.length_append, List.length_map, List.length_range,
        List.length_cons, Nat.mul_succ, Nat.add_comm]
      exact congrArg (· + 512) ih

-- The first file of a directory that is called `name`, but for the case of letters.
def firstFile (name : List Byte) (dir : List FsEntry) : Option FsEntry :=
  dir.find? fun e => SameName (cString e.nameBytes) name

theorem Fs.Answers.firstFile {dir : List FsEntry} {fs : Fs} (h : fs.Answers dir)
    {name : List Byte} (hzero : 0 ∉ name) (hlen : name.length < fsNameLen) :
    fs.fsFind name = firstFile name dir := by
  rw [h.fsFind, CDosX86.firstFile]
  congr 1
  funext e
  exact decide_eq_decide.mpr (kStrncasecmp_cString hzero (by omega))

section

variable {δ : Type} [Ports δ]

theorem length_readRun {start : BitVec 32} {n k : Nat} {d : δ} {sectors : List Buffer}
    (h : (readRun start n k d).1 = some sectors) : sectors.length = n := by
  induction n generalizing k d sectors with
  | zero =>
      rw [← Option.some_inj.mp h]
      rfl
  | succ n ih =>
      rw [readRun] at h
      dsimp only at h
      split at h
      · cases h
      · obtain ⟨rest, hrest, rfl⟩ := Option.map_eq_some_iff.mp h
        rw [List.length_cons, ih hrest]

-- The directory calls `name` first a file of 8192 bytes, and its sectors, read from `d` on, are
-- `bytes`.
def RomFile (name : List Byte) (dir : List FsEntry) (d : δ) (bytes : List Byte) (d' : δ) : Prop :=
  ∃ entry sectors, firstFile name dir = some entry ∧ entry.length = 8192 ∧
    readRun entry.startLba 16 0 d = (some sectors, d') ∧ sectorBytes sectors = bytes

theorem RomFile.length {name : List Byte} {dir : List FsEntry} {d d' : δ} {bytes : List Byte}
    (h : RomFile name dir d bytes d') : bytes.length = 8192 := by
  obtain ⟨entry, sectors, -, -, hrun, rfl⟩ := h
  rw [length_sectorBytes, length_readRun (congrArg Prod.fst hrun)]

def ProperDisk (d : δ) (kernal basic : List Byte) : Prop :=
  ∃ sector d₁ d₂ d₃, ataReadSector 0 unwritten d = (0, sector, d₁) ∧
    (headerAt sector).magic = fsMagic ∧ RomFile kernalRom (directoryAt sector) d₁ kernal d₂ ∧
    RomFile basicRom (directoryAt sector) d₂ basic d₃

end

namespace Kernel

variable {δ : Type} [Ports δ]

structure RomsLoaded (kernal basic : List Byte) (c c' : C64) : Prop where
  kernal_size : kernal.length = 8192
  basic_size : basic.length = 8192
  kernal_stored : RomInRam 0xE000 kernal c'.mem.ram
  basic_stored : RomInRam 0xA000 basic c'.mem.ram
  elsewhere : ∀ a : Word, a < 0xA000 ∨ 0xBFFF < a ∧ a < 0xE000 → c'.mem.ram a = c.mem.ram a
  cpu : c'.cpu = (resetM (kernal.getD 0x1FFD 0 ++ kernal.getD 0x1FFC 0) c.machine).cpu

theorem romOn_of_romFile {name : List Byte} {dir : List FsEntry} {k : Kernel δ}
    (hfind : k.fs.fsFind name = firstFile name dir) {bytes : List Byte} {d' : δ}
    (h : RomFile name dir k.dev bytes d') : RomOn name k bytes := by
  have hlength := h.length
  obtain ⟨entry, sectors, hfirst, hlen, hrun, rfl⟩ := h
  refine ⟨entry, sectors, hfind.trans hfirst, hlen, congrArg Prod.fst hrun, ?_⟩
  rw [← hlength, List.take_length]

theorem romFile_of_romOn {name : List Byte} {dir : List FsEntry} {k : Kernel δ}
    (hfind : k.fs.fsFind name = firstFile name dir) {bytes : List Byte} (h : RomOn name k bytes) :
    ∃ d', RomFile name dir k.dev bytes d' := by
  obtain ⟨entry, sectors, hentry, hlen, hrun, rfl⟩ := h
  refine ⟨_, entry, sectors, hfind.symm.trans hentry, hlen, Prod.ext hrun rfl, ?_⟩
  rw [List.take_of_length_le]
  rw [length_sectorBytes, length_readRun hrun]

theorem loadRom_dev {name : List Byte} {dir : List FsEntry} {k : Kernel δ}
    (hfind : k.fs.fsFind name = firstFile name dir) {bytes : List Byte} {d' : δ}
    (h : RomFile name dir k.dev bytes d') (loadAddr : Word) :
    (k.loadRom name loadAddr 8192).2.dev = d' := by
  obtain ⟨entry, buffer, d, hentry, hlen, hread, -⟩ := romOn_iff.mp (romOn_of_romFile hfind h)
  obtain ⟨entry', sectors, hfirst, -, hrun, -⟩ := h
  obtain rfl : entry = entry' := Option.some_inj.mp (hentry.symm.trans (hfind.trans hfirst))
  obtain ⟨s, hloaded⟩ := loadRom_read loadAddr hentry hlen hread
  have hexact : ReadsExactly entry 8192 unwritten k.dev :=
    (fs_read_file_exact entry (by decide) (by decide) unwritten k.dev).mpr (by rw [hlen]; decide)
  have hwanted : wanted entry 8192 = 8192 := by
    rw [wanted, hlen]
    rfl
  have hdev := hexact.requests
  rw [hread, hwanted, show (8192 + 511) / 512 = 16 from rfl, hrun] at hdev
  rw [hloaded]
  simpa using hdev

theorem withRom_outside {loadAddr : Word} {bytes : List Byte} {ram : Word → Byte} {a : Word}
    (h : bytes.length ≤ (a - loadAddr).toNat) : withRom loadAddr bytes ram a = ram a :=
  List.getD_eq_default _ _ h

theorem withRom_stored {loadAddr : Word} {bytes : List Byte} (hlen : bytes.length ≤ 2 ^ 16)
    (ram : Word → Byte) : RomInRam loadAddr bytes (withRom loadAddr bytes ram) := by
  intro i hi
  rw [withRom, toNat_offset loadAddr (by omega), List.getD_eq_getElem _ _ hi]

theorem romsLoaded_stored {k : Kernel δ} {kernal basic : List Byte}
    (hkernal : RomOn kernalRom k.mount.2 kernal) (hbasic : RomOn basicRom k.kernalLoaded basic) :
    k.romsLoaded.c64.mem.ram = withRom 0xA000 basic (withRom 0xE000 kernal k.c64.mem.ram) := by
  obtain ⟨-, hfirst⟩ := loadRom_stores hkernal kernalRomAddr
  obtain ⟨-, hsecond⟩ := loadRom_stores hbasic basicRomAddr
  have hram := hfirst.ram
  rw [← kernalLoaded] at hram
  rw [romsLoaded, hsecond.ram, hram]
  rfl

theorem init_loads {k : Kernel δ} (hmount : k.mount.1 = 0) {kernal basic : List Byte}
    (hkernal : RomOn kernalRom k.mount.2 kernal) (hbasic : RomOn basicRom k.kernalLoaded basic)
    (hkernalLen : kernal.length = 8192) (hbasicLen : basic.length = 8192) :
    RomsLoaded kernal basic k.c64 k.c64Init.2.c64 := by
  obtain ⟨s, hinit⟩ := c64Init_reset hmount hkernal hbasic
  have hloaded := romsLoaded_stored hkernal hbasic
  have hram : k.c64Init.2.c64.mem.ram =
      withRom 0xA000 basic (withRom 0xE000 kernal k.c64.mem.ram) := by
    rw [hinit, ← hloaded]
    rfl
  have hstored : RomInRam 0xE000 kernal k.c64Init.2.c64.mem.ram := by
    intro i hi
    rw [hram, withRom_outside, withRom_stored (by omega) _ i hi]
    rw [hbasicLen, BitVec.toNat_sub, BitVec.toNat_add, BitVec.toNat_ofNat]
    simp only [BitVec.reduceToNat]
    omega
  refine ⟨hkernalLen, hbasicLen, hstored, ?_, ?_, ?_⟩
  · rw [hram]
    exact withRom_stored (by omega) _
  · intro a ha
    simp only [BitVec.lt_def, BitVec.reduceToNat] at ha
    rw [hram, withRom_outside, withRom_outside]
    · rw [hkernalLen, BitVec.toNat_sub]
      simp only [BitVec.reduceToNat]
      omega
    · rw [hbasicLen, BitVec.toNat_sub]
      simp only [BitVec.reduceToNat]
      omega
  · have hvector (i : Nat) (hi : i < kernal.length) :
        k.romsLoaded.c64.mem.ram (0xE000 + BitVec.ofNat 16 i) = kernal.getD i 0 := by
      rw [hloaded, ← hram, hstored i hi, List.getD_eq_getElem _ _ hi]
    rw [hinit, resetVector_eq, ← hvector 0x1FFD (by omega), ← hvector 0x1FFC (by omega)]
    rfl

theorem mount_accepts_iff {k : Kernel δ} :
    k.mount.1 = 0 ↔ (ataReadSector 0 unwritten k.dev).1 = 0 ∧
      (headerAt (sectorRead k.dev)).magic = fsMagic := by
  rw [mount, fsMount, sectorRead]
  dsimp only
  split_ifs with hread hmagic
  · exact iff_of_false (show (-1 : Int) ≠ 0 by decide) fun h => hread h.1
  · exact iff_of_false (show (-2 : Int) ≠ 0 by decide) fun h => hmagic h.2
  · exact iff_of_true rfl ⟨not_not.mp hread, not_not.mp hmagic⟩

theorem mount_finds {k : Kernel δ} (hmount : k.mount.1 = 0) {name : List Byte} (hzero : 0 ∉ name)
    (hlen : name.length < fsNameLen) :
    k.mount.2.fs.fsFind name = firstFile name (directoryAt (sectorRead k.dev)) := by
  have hanswers : (mountAll k.fs ([] ++ [k.dev])).Answers (directoryAt (sectorRead k.dev)) :=
    mountAll_answers hmount
  exact hanswers.firstFile hzero hlen

theorem mount_dev (k : Kernel δ) : k.mount.2.dev = (ataReadSector 0 unwritten k.dev).2.2 := by
  rw [mount, fsMount]
  dsimp only
  split_ifs <;> rfl

section mounted

variable {k : Kernel δ} (hmount : k.mount.1 = 0)

include hmount

theorem kernal_found :
    k.mount.2.fs.fsFind kernalRom = firstFile kernalRom (directoryAt (sectorRead k.dev)) :=
  mount_finds hmount (by decide) (by decide)

theorem basic_found {kernal : List Byte} (hkernal : RomOn kernalRom k.mount.2 kernal) :
    k.kernalLoaded.fs.fsFind basicRom = firstFile basicRom (directoryAt (sectorRead k.dev)) := by
  rw [kernalLoaded, (loadRom_stores hkernal kernalRomAddr).2.fs]
  exact mount_finds hmount (by decide) (by decide)

end mounted

theorem properDisk_iff {k : Kernel δ} {kernal basic : List Byte} :
    ProperDisk k.dev kernal basic ↔ k.mount.1 = 0 ∧ RomOn kernalRom k.mount.2 kernal ∧
      RomOn basicRom k.kernalLoaded basic := by
  constructor
  · rintro ⟨sector, d₁, d₂, d₃, hread, hmagic, hkernal, hbasic⟩
    have hsector : sectorRead k.dev = sector := congrArg (fun t => t.2.1) hread
    have hmount : k.mount.1 = 0 :=
      mount_accepts_iff.mpr ⟨congrArg Prod.fst hread, hsector ▸ hmagic⟩
    have hdev : k.mount.2.dev = d₁ := (mount_dev k).trans (congrArg (fun t => t.2.2) hread)
    rw [← hsector, ← hdev] at hkernal
    have hkernalOn := romOn_of_romFile (kernal_found hmount) hkernal
    have hdev' : k.kernalLoaded.dev = d₂ := loadRom_dev (kernal_found hmount) hkernal kernalRomAddr
    rw [← hsector, ← hdev'] at hbasic
    exact ⟨hmount, hkernalOn, romOn_of_romFile (basic_found hmount hkernalOn) hbasic⟩
  · rintro ⟨hmount, hkernalOn, hbasicOn⟩
    obtain ⟨hread, hmagic⟩ := mount_accepts_iff.mp hmount
    obtain ⟨d₂, hkernal⟩ := romFile_of_romOn (kernal_found hmount) hkernalOn
    have hdev : k.kernalLoaded.dev = d₂ := loadRom_dev (kernal_found hmount) hkernal kernalRomAddr
    obtain ⟨d₃, hbasic⟩ := romFile_of_romOn (basic_found hmount hkernalOn) hbasicOn
    rw [hdev] at hbasic
    rw [mount_dev] at hkernal
    exact ⟨sectorRead k.dev, _, d₂, d₃, Prod.ext hread rfl, hmagic, hkernal, hbasic⟩

theorem ProperDisk.loads {k : Kernel δ} {kernal basic : List Byte}
    (h : ProperDisk k.dev kernal basic) :
    k.c64Init.1 = 0 ∧ RomsLoaded kernal basic k.c64 k.c64Init.2.c64 := by
  obtain ⟨hmount, hkernal, hbasic⟩ := properDisk_iff.mp h
  obtain ⟨_, _, _, _, -, -, hfirst, hsecond⟩ := h
  exact ⟨c64Init_loaded hmount hkernal hbasic,
    init_loads hmount hkernal hbasic hfirst.length hsecond.length⟩

end Kernel

end CDosX86
