import CDosX86.DirListing
import CDosX86.DriverRuns
import CDosX86.RomPair
import CDosX86.TypedLines

namespace CDosX86

open BuildDisk Kernel

-- Selecting the drive leaves its sectors alone.
def Drive.HonoursSelect {δ : Type} [Ports δ] (v : Drive δ) : Prop :=
  ∀ d, v.idle d → SameDisk v d (CDosX86.ataInit d)

def keepsDisk (c : Command) : Prop := c ≠ .disktest ∧ c ≠ .poke

section

variable {δ : Type} [Ports δ] {v : Drive δ}

namespace Kernel

variable {k k' : Kernel δ}

theorem keyboardHandler_same (hr : v.HonoursReads) (hd : v.idle k.dev) {scancode : Byte}
    {polls : List (Option Byte)}
    (hentered : ∀ c k₁, k.entersCommand scancode = some (c, k₁) → c ≠ .disktest)
    (hrun : k.keyboardHandler scancode polls = some k') : SameDisk v k.dev k'.dev := by
  obtain hsame | ⟨c, k₁, k₂, henter, hdev, hcommand, hdone⟩ := keyboardHandler_dev hrun
  · rw [hsame]
    exact SameDisk.refl hd
  · rw [← hdev] at hd
    rw [hdone, ← hdev]
    exact runCommand_same hr hd (hentered c k₁ henter) hcommand

end Kernel

theorem Serial.sameDisk (hr : v.HonoursReads) (hs : v.HonoursSelect) {h : Hardware δ}
    (hd : v.idle h.dev) {p : MainPoint} {k : Kernel δ} (hk : Serial h keepsDisk p k) :
    SameDisk v h.dev k.dev := by
  induction hk with
  | start => exact SameDisk.refl hd
  | @main p k _ ih =>
      obtain hinit | hsame := main_calls p k
      · rw [hinit]
        exact ih.trans (hs k.dev ih.idle')
      · rwa [hsame]
  | key _ _ _ _ hallowed hrun ih =>
      exact ih.trans (keyboardHandler_same hr ih.idle'
        (fun c k₁ henter => (hallowed c k₁ henter).1) hrun)

-- What the kernel gives out of the files that `build_disk` was given.
structure Serves (dir : Directory) (k : Kernel δ) : Prop where
  listing : k.cmdDir.console =
    k.console.print ((listingLines (entriesFrom 1 (files dir))).flatMap (· ++ [newline]))
  found : ∀ name, 0 ∉ name → k.mount.2.fs.fsFind name = (firstNamed dir name).map onDisk
  contents : ∀ e ∈ entriesFrom 1 (files dir), ∀ (buffer : Buffer) (maxLen : BitVec 32),
    0 < maxLen.toNat → maxLen.toNat < 2 ^ 31 →
      ∃ buffer' d', fsReadFile (onDisk e) buffer maxLen k.mount.2.dev =
          (((min e.contents.length maxLen.toNat : Nat) : Int), buffer', d') ∧
        (∀ p, (h : p < e.contents.length) → p < maxLen.toNat → buffer' p = e.contents[p])
  boots : ∀ kernal basic, firstNamed dir kernalRom = some kernal → kernal.length = 8192 →
    firstNamed dir basicRom = some basic → basic.length = 8192 →
      k.bootStart.1 = 0 ∧ RomsLoaded kernal.contents basic.contents k.c64 k.bootStart.2.c64

namespace Kernel

variable {k : Kernel δ}

theorem mount_built (hr : v.HonoursReads) {dir : Directory} {mb : Int} {img : List Byte}
    (hbuilt : Built dir mb img) (hd : v.idle k.dev) (himg : v.Holds k.dev img) :
    k.mount.1 = 0 ∧ Mounted (entriesFrom 1 (files dir)) k.mount.2.fs ∧
      v.idle k.mount.2.dev ∧ v.Holds k.mount.2.dev img := by
  obtain ⟨fs, d, hmount, hm, hd', hdisk⟩ := fsMount_built hr hbuilt hd himg k.fs
  have hk : k.mount = (0, { k with fs := fs, dev := d }) := by rw [mount, hmount]
  rw [hk]
  refine ⟨rfl, hm, hd', ?_⟩
  rw [Drive.Holds, hdisk]
  exact himg

theorem properDisk_built (hr : v.HonoursReads) {dir : Directory} {mb : Int} {img : List Byte}
    (hmb : mb ≤ 2048) (hbuilt : Built dir mb img) (hd : v.idle k.dev) (himg : v.Holds k.dev img)
    {kernal basic : DiskEntry} (hkernal : firstNamed dir kernalRom = some kernal)
    (hkernalLen : kernal.length = 8192) (hbasic : firstNamed dir basicRom = some basic)
    (hbasicLen : basic.length = 8192) : ProperDisk k.dev kernal.contents basic.contents := by
  obtain ⟨hmount, hm, hd₁, himg₁⟩ := mount_built hr hbuilt hd himg
  obtain ⟨-, hfs, hd₂, himg₂⟩ := loadRom_built hr hmb hbuilt hm hd₁ himg₁ (by decide) hkernal
    hkernalLen kernalRomAddr
  exact properDisk_iff.mpr ⟨hmount,
    romOn_built hr hmb hbuilt hm hd₁ himg₁ (by decide) hkernal hkernalLen,
    romOn_built hr hmb hbuilt (hfs ▸ hm) hd₂ himg₂ (by decide) hbasic hbasicLen⟩

theorem bootStart_loads {kernal basic : List Byte} (h : ProperDisk k.dev kernal basic) :
    k.bootStart.1 = 0 ∧ RomsLoaded kernal basic k.c64 k.bootStart.2.c64 := by
  obtain ⟨hinit, hloaded⟩ := ProperDisk.loads h
  rw [bootStart]
  dsimp only
  rw [if_neg (not_not.mpr hinit)]
  exact ⟨rfl, hloaded.kernal_size, hloaded.basic_size, hloaded.kernal_stored,
    hloaded.basic_stored, hloaded.elsewhere, hloaded.cpu⟩

theorem serves_built (hr : v.HonoursReads) {dir : Directory} {mb : Int} {img : List Byte}
    (hmb : mb ≤ 2048) (hbuilt : Built dir mb img) (hd : v.idle k.dev) (himg : v.Holds k.dev img) :
    Serves dir k := by
  obtain ⟨-, hm, hd', himg'⟩ := mount_built hr hbuilt hd himg
  refine ⟨cmdDir_built hr hbuilt hd himg, fun name hname => ?_,
    fun e he buffer maxLen hpos hmax => ?_,
    fun kernal basic hkernal hkernalLen hbasic hbasicLen => ?_⟩
  · exact fsFind_mounted hbuilt.entries_count hm (fun e he => named_built hbuilt he) hname
  · obtain ⟨buffer', d', hread, hbytes, -⟩ :=
      fsReadFile_built hr hmb hbuilt hd' himg' he buffer hpos hmax
    rw [length_eq_of_mem he] at hread
    exact ⟨buffer', d', hread, hbytes⟩
  · exact bootStart_loads
      (properDisk_built hr hmb hbuilt hd himg hkernal hkernalLen hbasic hbasicLen)

end Kernel

theorem IdealDrive.drive_selects (sectors : Nat) : (drive sectors).HonoursSelect :=
  fun _ hd => ⟨hd, hd, rfl⟩

-- All that the calls of the driver can have done to the sectors.
structure KeptOrWiped (v : Drive δ) (d d' : δ) : Prop where
  idle : v.idle d'
  disk : v.disk d' = v.disk d ∨
    v.disk d' = Function.update (v.disk d) 0 (sectorOf testPattern)

namespace KeptOrWiped

variable {d d' d'' : δ}

omit [Ports δ] in
theorem same (h : KeptOrWiped v d d') (hs : SameDisk v d' d'') : KeptOrWiped v d d'' := by
  refine ⟨hs.idle', ?_⟩
  rw [hs.disk]
  exact h.disk

theorem wipe (hr : v.HonoursReads) (hw : v.HonoursWrites) (hsectors : 0 < v.sectors)
    (h : KeptOrWiped v d d') : KeptOrWiped v d (ataWriteSector 0 testPattern d').2 := by
  obtain ⟨e, hwrite, he, hdisk⟩ := hw.ataWriteSector hr 0 h.idle hsectors testPattern
  have hzero : address 0 = 0 := rfl
  rw [hzero] at hdisk
  rw [hwrite]
  refine ⟨he, Or.inr ?_⟩
  obtain hkept | hwiped := h.disk
  · rw [hdisk, hkept]
  · rw [hdisk, hwiped, Function.update_idem]

theorem calls (hr : v.HonoursReads) (hw : v.HonoursWrites) (hsectors : 0 < v.sectors)
    (h : KeptOrWiped v d d') (hcalls : SectorCalls d' d'') : KeptOrWiped v d d'' := by
  induction hcalls with
  | refl => exact h
  | tail _ hcall ih =>
      cases hcall with
      | read lba buffer =>
          obtain ⟨_, _, e, -, hread, -, he, -⟩ :=
            (SameDisk.refl ih.idle).ataReadSector hr lba buffer
          rw [hread]
          exact ih.same he
      | write => exact ih.wipe hr hw hsectors

end KeptOrWiped

theorem Serial.keptOrWiped (hr : v.HonoursReads) (hw : v.HonoursWrites) (hs : v.HonoursSelect)
    (hsectors : 0 < v.sectors) {h : Hardware δ} (hd : v.idle h.dev)
    {allowed : Command → Prop} {p : MainPoint} {k : Kernel δ} (hk : Serial h allowed p k) :
    KeptOrWiped v h.dev k.dev := by
  induction hk with
  | start => exact ⟨hd, Or.inl rfl⟩
  | @main p k _ ih =>
      obtain hinit | hsame := main_calls p k
      · rw [hinit]
        exact ih.same (hs k.dev ih.idle)
      · rwa [hsame]
  | key _ _ _ _ _ hrun ih => exact ih.calls hr hw hsectors (keyboardHandler_calls hrun)

theorem mount_wiped (hr : v.HonoursReads) (hsectors : 0 < v.sectors) {k : Kernel δ}
    (hd : v.idle k.dev) (hwiped : v.disk k.dev 0 = sectorOf testPattern) : k.mount.1 = -2 := by
  obtain ⟨d', hread, -, -⟩ := hr.ataReadSector 0 hd hsectors unwritten
  have hzero : address 0 = 0 := rfl
  rw [hzero, hwiped] at hread
  rw [mount, fsMount, hread]
  dsimp only
  rw [if_neg (not_not.mpr rfl), if_pos testPattern_not_formatted]

-- Either all of the files are there or none, and none of their sectors is ever written.
theorem disk_served_or_wiped (hr : v.HonoursReads) (hw : v.HonoursWrites) (hs : v.HonoursSelect)
    {dir : Directory} {mb : Int} {img : List Byte} (hmb : mb ≤ 2048)
    (hbuild : buildDisk dir mb = .ok img) {h : Hardware δ} (hd : v.idle h.dev)
    (himg : v.Holds h.dev img) {p : MainPoint} {k : Kernel δ} (hk : Serial h notPoke p k) :
    (∀ s, s ≠ 0 → v.disk k.dev s = v.disk h.dev s) ∧
      (Serves dir k ∨ k.mount.1 = -2 ∧ v.disk k.dev 0 = sectorOf testPattern) := by
  have hbuilt := buildDisk_ok hbuild
  have hmount := (mount_built (k := Kernel.loaded h) hr hbuilt hd himg).1
  have hsectors := (mount_ok (k := Kernel.loaded h) hr hd hmount).1
  obtain ⟨hidle, hkept | hwiped⟩ := hk.keptOrWiped hr hw hs hsectors hd
  · have hholds : v.Holds k.dev img := by
      rw [Drive.Holds, hkept]
      exact himg
    exact ⟨fun s _ => by rw [hkept], Or.inl (serves_built hr hmb hbuilt hidle hholds)⟩
  · have hzero : v.disk k.dev 0 = sectorOf testPattern := by
      rw [hwiped, Function.update_self]
    refine ⟨fun s hne => ?_, Or.inr ⟨mount_wiped hr hsectors hidle hzero, hzero⟩⟩
    rw [hwiped, Function.update_of_ne hne]

theorem Unshifted.typesDisktest (hr : v.HonoursReads) (hw : v.HonoursWrites) {h : Hardware δ}
    (hsectors : 0 < v.sectors) {k : Kernel δ} (hk : Unshifted h notPoke k)
    (hempty : k.lineBuf = []) (hidle : ∀ r, Serial h notPoke .hlt r → v.idle r.dev) :
    ∃ k', Serial h notPoke .hlt k' ∧ v.disk k'.dev 0 = sectorOf testPattern := by
  obtain ⟨r, hr', hline, -⟩ := hk.typesLine (text "disktest") (by decide)
    (by rw [hempty]; decide)
  rw [hempty, List.nil_append] at hline
  have hdone := hr'.command (c := .disktest) (by rw [hline]; decide) nofun [] rfl
  have hdisk := (cmdDisktest_disk (k := entered r) hr hw (hidle r hr'.serial) hsectors).2
  refine ⟨_, hdone, ?_⟩
  rw [dev_lineDone, hdisk, Function.update_self]

-- The booted kernel serves the ROM files; DISKTEST at its prompt takes all of them away.
theorem disk_served_or_wiped_disktest : ∃ img, ∃ k : Kernel IdealDrive,
    buildDisk romFiles 1 = .ok img ∧
    Serves romFiles (booted (Hardware.plain (IdealDrive.holding img))) ∧
    Serial (Hardware.plain (IdealDrive.holding img)) notPoke .hlt k ∧
    (∀ s, s ≠ 0 → k.dev.content s = (IdealDrive.holding img).content s) ∧
    k.mount.1 = -2 ∧ k.dev.content 0 = sectorOf testPattern := by
  obtain ⟨img, hbuilt⟩ := built_romFiles
  have hbuild := buildDisk_ok_iff.mpr hbuilt
  have hr := IdealDrive.drive_reads ((img.length + 511) / 512)
  have hw := IdealDrive.drive_writes ((img.length + 511) / 512)
  have hs := IdealDrive.drive_selects ((img.length + 511) / 512)
  have hd := IdealDrive.holding_idle img
  have himg := IdealDrive.holding_holds img
  have hkept := (serial_booted (Hardware.plain (IdealDrive.holding img)) keepsDisk).sameDisk hr hs
    hd
  have hholds : (IdealDrive.drive ((img.length + 511) / 512)).Holds
      (booted (Hardware.plain (IdealDrive.holding img))).dev img := by
    rw [Drive.Holds, hkept.disk]
    exact himg
  have hmount := (mount_built hr hbuilt hkept.idle' hholds).1
  have hsectors := (mount_ok hr hkept.idle' hmount).1
  have hidle : ∀ k, Serial (Hardware.plain (IdealDrive.holding img)) notPoke .hlt k →
      (IdealDrive.drive ((img.length + 511) / 512)).idle k.dev :=
    fun _ hk => (hk.keptOrWiped hr hw hs hsectors hd).idle
  obtain ⟨-, hserved | ⟨hlost, -⟩⟩ := disk_served_or_wiped hr hw hs (by decide) hbuild
    (h := Hardware.plain (IdealDrive.holding img)) hd himg (serial_booted _ notPoke)
  · obtain ⟨k, hk, hzero⟩ := (unshifted_booted (Hardware.plain (IdealDrive.holding img))
      notPoke).typesDisktest hr hw hsectors (typed_booted _).lineBuf hidle
    obtain ⟨hrest, -⟩ := disk_served_or_wiped hr hw hs (by decide) hbuild hd himg hk
    exact ⟨img, k, hbuild, hserved, hk, hrest, mount_wiped hr hsectors (hidle k hk) hzero, hzero⟩
  · rw [hmount] at hlost
    exact absurd hlost (by decide)

end

end CDosX86
