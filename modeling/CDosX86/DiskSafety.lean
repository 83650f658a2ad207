import CDosX86.SameDisk
import CDosX86.Boot
import CDosX86.DiskRoundTrip

namespace CDosX86

namespace Kernel

variable {δ : Type} [Ports δ] {v : Drive δ}

theorem mount_same (h : v.HonoursReads) {k : Kernel δ} (hd : v.idle k.dev) :
    SameDisk v k.dev k.mount.2.dev := by
  obtain ⟨r, f, -, e, -, hr, -, -, he, -⟩ := (SameDisk.refl hd).fsMount h k.fs k.fs
  rw [mount, hr]
  exact he

theorem LoadRom.same (h : v.HonoursReads) {filename : List Byte} {loadAddr : Word}
    {size : BitVec 32} {k : Kernel δ} (hd : v.idle k.dev) {out : Int × Kernel δ}
    (hout : LoadRom filename loadAddr size k out) : SameDisk v k.dev out.2.dev := by
  have hread (entry : FsEntry) :
      SameDisk v k.dev (fsReadFile entry unwritten 8192 k.dev).2.2 := by
    obtain ⟨r, b, e, -, hr, -, he, -⟩ := (SameDisk.refl hd).fsReadFile h entry 8192 unwritten
    rwa [hr]
  cases hout with
  | missing s _ => simpa using SameDisk.refl hd
  | wrongSize s _ _ => simpa using SameDisk.refl hd
  | @readFailed s entry _ _ _ => simpa using hread entry
  | @stored s entry buffer d _ _ hfile =>
      have hsame := hread entry
      rw [hfile] at hsame
      simpa using hsame

theorem loadRom_same (h : v.HonoursReads) (filename : List Byte) (loadAddr : Word)
    (size : BitVec 32) {k : Kernel δ} (hd : v.idle k.dev) :
    SameDisk v k.dev (k.loadRom filename loadAddr size).2.dev :=
  (loadRom_cases filename loadAddr size k).same h hd

theorem c64Init_same (h : v.HonoursReads) {k : Kernel δ} (hd : v.idle k.dev) :
    SameDisk v k.dev k.c64Init.2.dev := by
  have hmount := mount_same h hd
  have hkernal := loadRom_same h kernalRom kernalRomAddr kernalRomSize hmount.idle'
  have hbasic := loadRom_same h basicRom basicRomAddr basicRomSize hkernal.idle'
  rw [c64Init]
  dsimp only
  split_ifs
  · simpa using hmount
  · exact hmount.trans hkernal
  · exact hmount.trans (hkernal.trans hbasic)
  · simpa [resetVector] using hmount.trans (hkernal.trans hbasic)

theorem cmdDir_same (h : v.HonoursReads) {k : Kernel δ} (hd : v.idle k.dev) :
    SameDisk v k.dev k.cmdDir.dev := by
  have hmount := mount_same h hd
  rw [cmdDir]
  dsimp only
  split
  · simpa using hmount
  · simpa using hmount

theorem cmdType_same (h : v.HonoursReads) (tokens : List (List Byte)) {k : Kernel δ}
    (hd : v.idle k.dev) : SameDisk v k.dev (k.cmdType tokens).dev := by
  have hmount := mount_same h hd
  obtain ⟨s, heq⟩ | ⟨s, heq⟩ | ⟨entry, s, heq⟩ := cmdType_cases tokens k
  · simpa [heq] using SameDisk.refl hd
  · simpa [heq] using hmount
  · obtain ⟨r, b, e, -, hr, -, he, -⟩ :=
      (SameDisk.refl hmount.idle').fsReadFile h entry 512 unwritten
    have hread : SameDisk v k.dev (fsReadFile entry unwritten 512 k.mount.2.dev).2.2 := by
      rw [hr]
      exact hmount.trans he
    simpa [heq] using hread

omit [Ports δ] in
theorem cmdPoke_dev (tokens : List (List Byte)) (k : Kernel δ) :
    (k.cmdPoke tokens).dev = k.dev := by
  obtain ⟨memory, s, heq⟩ := cmdPoke_cases tokens k
  simp [heq]

omit [Ports δ] in
theorem cmdC64resume_dev (k : Kernel δ) : k.cmdC64resume.dev = k.dev := by
  simp only [cmdC64resume, resumeEnd]
  split
  · simp [resumeStart]
  · simp [resumeStart]

omit [Ports δ] in
theorem bootEnd_dev (e : BootExit) (k : Kernel δ) : (k.bootEnd e).dev = k.dev := by
  simp only [bootEnd]
  split_ifs
  · simp
  · simp
  · simp

theorem bootStart_same (h : v.HonoursReads) {k : Kernel δ} (hd : v.idle k.dev) :
    SameDisk v k.dev k.bootStart.2.dev := by
  have hinit := c64Init_same h hd
  rw [bootStart]
  dsimp only
  split
  · simpa using hinit
  · simpa using hinit

theorem cmdC64boot_same (h : v.HonoursReads) {polls : List (Option Byte)} {k k' : Kernel δ}
    (hd : v.idle k.dev) (hrun : k.cmdC64boot polls = some k') : SameDisk v k.dev k'.dev := by
  have hstart := bootStart_same h hd
  obtain ⟨-, rfl⟩ | ⟨e, rest, s, -, rfl⟩ := cmdC64boot_cases hrun
  · exact hstart
  · rw [bootEnd_dev]
    exact hstart

theorem runCommand_same (h : v.HonoursReads) {c : Command} {tokens : List (List Byte)}
    {polls : List (Option Byte)} {k k' : Kernel δ} (hd : v.idle k.dev) (hc : c ≠ .disktest)
    (hrun : k.runCommand c tokens polls = some k') : SameDisk v k.dev k'.dev := by
  cases c with
  | c64boot => exact cmdC64boot_same h hd hrun
  | disktest => exact absurd rfl hc
  | _ =>
      rw [runCommand, Option.some_inj] at hrun
      rw [← hrun]
      simp [cmdPoke_dev, cmdC64resume_dev, cmdDir_same h hd, cmdType_same h _ hd,
        SameDisk.refl hd]

theorem shellExecute_same (h : v.HonoursReads) {line : List Byte} {polls : List (Option Byte)}
    {k k' : Kernel δ} (hd : v.idle k.dev) (hline : commandOf line ≠ some .disktest)
    (hrun : k.shellExecute line polls = some k') : SameDisk v k.dev k'.dev := by
  have hsame := SameDisk.refl hd
  obtain rfl | rfl | ⟨s, rfl⟩ | ⟨c, hcommand, hrun⟩ := shellExecute_cases hrun
  · simpa using hsame
  · exact hsame
  · simpa using hsame
  · exact runCommand_same h hd (fun hc => hline (hc ▸ hcommand)) hrun

theorem cmdDisktest_disk (hr : v.HonoursReads) (hw : v.HonoursWrites) {k : Kernel δ}
    (hd : v.idle k.dev) (hsectors : 0 < v.sectors) :
    v.idle k.cmdDisktest.dev ∧
      v.disk k.cmdDisktest.dev = Function.update (v.disk k.dev) 0 (sectorOf testPattern) := by
  obtain ⟨d, hwrite, hd', hdisk⟩ := hw.ataWriteSector hr 0 hd hsectors testPattern
  obtain ⟨r, b, e, -, hread, -, he, -⟩ := (SameDisk.refl hd').ataReadSector hr 0 fun _ => 0
  have hdev : k.cmdDisktest.dev = e := by
    rw [cmdDisktest]
    dsimp only
    rw [show (k.print (text "Writing test pattern to LBA 0...\n")).dev = k.dev by simp, hwrite]
    dsimp only
    rw [if_neg (not_not.mpr rfl)]
    simp only [print_eq, dev_onC64, hread]
    split_ifs
    · simp
    · simp
    · simp
  rw [hdev]
  exact ⟨he.idle', he.disk.trans hdisk⟩

def runLines : List (List Byte × List (Option Byte)) → Kernel δ → Option (Kernel δ)
  | [], k => some k
  | (line, polls) :: lines, k =>
      match k.shellExecute line polls with
      | some k => runLines lines k
      | none => none

def testsDisk (lines : List (List Byte × List (Option Byte))) : Bool :=
  lines.any fun l => commandOf l.1 = some .disktest

theorem runLines_disk (hr : v.HonoursReads) (hw : v.HonoursWrites) (hsectors : 0 < v.sectors)
    {lines : List (List Byte × List (Option Byte))} {k k' : Kernel δ} (hd : v.idle k.dev)
    (hrun : k.runLines lines = some k') :
    v.idle k'.dev ∧ v.disk k'.dev =
      if testsDisk lines then Function.update (v.disk k.dev) 0 (sectorOf testPattern)
      else v.disk k.dev := by
  induction lines generalizing k with
  | nil =>
      rw [runLines, Option.some_inj] at hrun
      rw [← hrun]
      exact ⟨hd, rfl⟩
  | cons l lines ih =>
      obtain ⟨line, polls⟩ := l
      rw [runLines] at hrun
      by_cases hline : commandOf line = some .disktest
      · obtain ⟨hd₁, hdisk⟩ := cmdDisktest_disk hr hw hd hsectors
        rw [shellExecute_command polls k hline, runCommand] at hrun
        obtain ⟨hd', hdisk'⟩ := ih hd₁ hrun
        refine ⟨hd', ?_⟩
        have htests : testsDisk ((line, polls) :: lines) = true := by
          rw [testsDisk, List.any_cons, hline]
          rfl
        rw [htests, hdisk', hdisk, Function.update_idem, ite_self, if_pos rfl]
      · cases hone : k.shellExecute line polls with
        | none =>
            rw [hone] at hrun
            cases hrun
        | some k₁ =>
            rw [hone] at hrun
            have hsame := shellExecute_same hr hd hline hone
            obtain ⟨hd', hdisk'⟩ := ih hsame.idle' hrun
            have htests : testsDisk ((line, polls) :: lines) = testsDisk lines := by
              rw [testsDisk, List.any_cons, decide_eq_false hline]
              rfl
            rw [htests, ← hsame.disk]
            exact ⟨hd', hdisk'⟩

theorem mount_ok (hr : v.HonoursReads) {k : Kernel δ} (hd : v.idle k.dev) (hmount : k.mount.1 = 0) :
    0 < v.sectors ∧ (headerAt (fill unwritten (v.disk k.dev 0))).magic = fsMagic := by
  have hzero : address 0 = 0 := rfl
  by_cases hsectors : 0 < v.sectors
  · obtain ⟨d', hread, -, -⟩ := hr.ataReadSector 0 hd (by rwa [hzero]) unwritten
    rw [hzero] at hread
    by_contra hmagic
    rw [mount, fsMount, hread] at hmount
    dsimp only at hmount
    rw [if_neg (not_not.mpr rfl), if_pos fun h => hmagic ⟨hsectors, h⟩] at hmount
    exact absurd hmount (show (-2 : Int) ≠ 0 by decide)
  · obtain ⟨d', hread, -, -⟩ :=
      hr.ataReadSector_beyond 0 hd (by rw [hzero]; omega) unwritten
    rw [mount, fsMount, hread] at hmount
    dsimp only at hmount
    rw [if_pos (by decide)] at hmount
    exact absurd hmount (show (-1 : Int) ≠ 0 by decide)

theorem testPattern_not_formatted :
    (headerAt (fill unwritten (sectorOf testPattern))).magic ≠ fsMagic := by decide

-- What holds of a disk whose file system came through: the sectors, and what the commands find.
structure FsIntact (v : Drive δ) (k k' : Kernel δ) : Prop where
  directory : v.disk k'.dev 0 = v.disk k.dev 0
  files : ∀ e ∈ k.mount.2.fs.visible, ∀ i < BuildDisk.sectorsNeeded e.length.toNat,
    v.disk k'.dev (address (e.startLba + BitVec.ofNat 32 i)) =
      v.disk k.dev (address (e.startLba + BitVec.ofNat 32 i))
  mounts : k'.mount.1 = 0
  visible : k'.mount.2.fs.visible = k.mount.2.fs.visible
  found : ∀ name, k'.mount.2.fs.fsFind name = k.mount.2.fs.fsFind name
  contents : ∀ e ∈ k.mount.2.fs.visible, ∀ (buffer : Buffer) (maxLen : BitVec 32),
    (fsReadFile e buffer maxLen k'.mount.2.dev).1 = (fsReadFile e buffer maxLen k.mount.2.dev).1 ∧
      (fsReadFile e buffer maxLen k'.mount.2.dev).2.1 =
        (fsReadFile e buffer maxLen k.mount.2.dev).2.1

theorem fsIntact_of_same (hr : v.HonoursReads) {k k' : Kernel δ} (hs : SameDisk v k.dev k'.dev)
    (hmount : k.mount.1 = 0) : FsIntact v k k' := by
  obtain ⟨r, f, f', e, e', hone, hone', hvisible, he, he'⟩ := hs.fsMount hr k.fs k'.fs
  have hk : k.mount = (r, { k with fs := f, dev := e }) := by rw [mount, hone]
  have hk' : k'.mount = (r, { k' with fs := f', dev := e' }) := by rw [mount, hone']
  rw [hk] at hmount
  have hsame : k'.mount.2.fs.visible = k.mount.2.fs.visible := by
    rw [hk, hk']
    exact hvisible.symm
  refine ⟨by rw [hs.disk], fun e _ i _ => by rw [hs.disk], by rw [hk']; exact hmount, hsame, ?_, ?_⟩
  · intro name
    rw [Fs.fsFind_visible, hsame, Fs.fsFind_visible]
  · intro entry _ buffer maxLen
    obtain ⟨r', b, g, g', hread, hread', -, -⟩ := he'.fsReadFile hr entry maxLen buffer
    rw [hk, hk', hread, hread']
    exact ⟨rfl, rfl⟩

theorem directory_destroyed (hr : v.HonoursReads) (hw : v.HonoursWrites)
    {lines : List (List Byte × List (Option Byte))} {k k' : Kernel δ} (hd : v.idle k.dev)
    (hmount : k.mount.1 = 0) (hrun : k.runLines lines = some k')
    (htests : testsDisk lines = true) : v.disk k'.dev 0 ≠ v.disk k.dev 0 := by
  obtain ⟨hsectors, hmagic⟩ := mount_ok hr hd hmount
  obtain ⟨-, hdisk⟩ := runLines_disk hr hw hsectors hd hrun
  rw [if_pos htests] at hdisk
  intro hsame
  rw [hdisk, Function.update_self] at hsame
  rw [← hsame] at hmagic
  exact testPattern_not_formatted hmagic

-- POKE is left out because it may write over the kernel itself, which `memory` does not show.
theorem fs_survives_iff (hr : v.HonoursReads) (hw : v.HonoursWrites)
    {lines : List (List Byte × List (Option Byte))} {k k' : Kernel δ} (hd : v.idle k.dev)
    (hmount : k.mount.1 = 0) (hrun : k.runLines lines = some k') :
    (∀ l ∈ lines, commandOf l.1 ≠ some .poke) →
      (FsIntact v k k' ↔ ∀ l ∈ lines, commandOf l.1 ≠ some .disktest) := by
  intro _
  have htests : (∀ l ∈ lines, commandOf l.1 ≠ some .disktest) ↔ ¬ testsDisk lines = true := by
    simp [testsDisk]
  rw [htests]
  constructor
  · intro hintact htests
    exact directory_destroyed hr hw hd hmount hrun htests hintact.directory
  · intro hnone
    obtain ⟨hsectors, -⟩ := mount_ok hr hd hmount
    obtain ⟨hd', hdisk⟩ := runLines_disk hr hw hsectors hd hrun
    rw [if_neg hnone] at hdisk
    exact fsIntact_of_same hr ⟨hd, hd', hdisk⟩ hmount

def holdingKernel (img : List Byte) : Kernel IdealDrive :=
  loaded (Hardware.plain (IdealDrive.holding img))

theorem mount_holdingKernel {dir : Directory} {mb : Int} {img : List Byte}
    (hbuild : BuildDisk.buildDisk dir mb = .ok img) : (holdingKernel img).mount.1 = 0 := by
  obtain ⟨fs', d', hmount, -⟩ := fsMount_built (IdealDrive.drive_reads _)
    (BuildDisk.buildDisk_ok hbuild) (IdealDrive.holding_idle img) (IdealDrive.holding_holds img)
    Fs.zero
  rw [mount, show fsMount (holdingKernel img).fs (holdingKernel img).dev = (0, fs', d') from hmount]

theorem fs_survives_iff_dir : ∃ img k', BuildDisk.buildDisk twoFiles 1 = .ok img ∧
    (holdingKernel img).runLines [(text "DIR", [])] = some k' ∧
    FsIntact (IdealDrive.drive ((img.length + 511) / 512)) (holdingKernel img) k' := by
  obtain ⟨img, hbuild⟩ := buildDisk_twoFiles
  have hdir : commandOf (text "DIR") = some .dir := by decide
  have hrun : (holdingKernel img).runLines [(text "DIR", [])] = some (holdingKernel img).cmdDir := by
    rw [runLines, shellExecute_command [] _ hdir, runCommand]
    rfl
  refine ⟨img, _, hbuild, hrun, ?_⟩
  refine (fs_survives_iff (IdealDrive.drive_reads _) (IdealDrive.drive_writes _)
    (IdealDrive.holding_idle img) (mount_holdingKernel hbuild) hrun ?_).mpr ?_
  · simp [hdir]
  · simp [hdir]

theorem disktest_destroys : ¬ ∀ (img : List Byte) (lines : List (List Byte × List (Option Byte)))
    (k' : Kernel IdealDrive), (holdingKernel img).mount.1 = 0 →
      (∀ l ∈ lines, commandOf l.1 ≠ some .poke) → (holdingKernel img).runLines lines = some k' →
        FsIntact (IdealDrive.drive ((img.length + 511) / 512)) (holdingKernel img) k' := by
  intro hclaim
  obtain ⟨img, hbuild⟩ := buildDisk_twoFiles
  have htest : commandOf (text "DISKTEST") = some .disktest := by decide
  have hmount := mount_holdingKernel hbuild
  have hrun : (holdingKernel img).runLines [(text "DISKTEST", [])] =
      some (holdingKernel img).cmdDisktest := by
    rw [runLines, shellExecute_command [] _ htest, runCommand]
    rfl
  have hintact := hclaim img [(text "DISKTEST", [])] _ hmount (by simp [htest]) hrun
  refine directory_destroyed (IdealDrive.drive_reads _) (IdealDrive.drive_writes _)
    (IdealDrive.holding_idle img) hmount hrun ?_ hintact.directory
  simp [testsDisk, htest]

end Kernel

end CDosX86
