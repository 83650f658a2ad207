import CDosX86.DirNames
import CDosX86.HexDump
import CDosX86.FileNames

namespace CDosX86

open Scanner

-- Read from the right: the length has no space in it, the name may have some.
def tailScanner : Scanner Byte (Nat × List Byte) := do
  literal (text " bytes").reverse
  let digits ← field space
  literal [space]
  let name ← rest
  let length ← StateT.lift (Numeral.scan decimalDigit (Numeral.horner 10) 0 digits.reverse)
  pure (length, name.reverse)

def nameScanner : Scanner Byte (List Byte) := do
  literal (text "  ")
  rest

def readEntry (s : List Byte) : Option (List Byte × Nat) := do
  let (length, name) ← whole tailScanner s.reverse
  let name ← whole nameScanner name
  pure (name, length)

-- The names and lengths that one reads off the screen after DIR.
def readListing : List (List Byte) → Option (List (List Byte × Nat))
  | [] => none
  | header :: lines =>
      if trimmed header = text "Directory listing:" then
        lines.mapM fun s => readEntry (trimmed s)
      else none

def entryLine (name : List Byte) (length : BitVec 32) : List Byte :=
  text "  " ++ name ++ text "  " ++ decText length ++ text " bytes"

theorem dirLine_eq (name : List Byte) (length : BitVec 32) :
    dirLine name length = entryLine name length ++ [newline] := by
  rw [entryLine, List.append_assoc]
  rfl

theorem readEntry_entryLine (name : List Byte) (length : BitVec 32) :
    readEntry (entryLine name length) = some (name, length.toNat) := by
  have hdenotes := (denotes_decText length).2
  have hspace : space ∉ (decText length).reverse := by
    rw [List.mem_reverse]
    exact not_mem_of_denotes hdenotes (by decide)
  have hreverse : (entryLine name length).reverse =
      (text " bytes").reverse ++ ((decText length).reverse ++ [space] ++
        ([space] ++ (text "  " ++ name).reverse)) := by
    simp [entryLine, text, space]
  have htail : whole tailScanner (entryLine name length).reverse =
      some (length.toNat, text "  " ++ name) := by
    rw [hreverse, tailScanner]
    apply (reads_literal (text " bytes").reverse).whole_bind
    apply (reads_field hspace).whole_bind
    apply (reads_literal [space]).whole_bind
    simp [whole, run_rest, Numeral.scan_eq_some_iff.mpr hdenotes]
  have hname : whole nameScanner (text "  " ++ name) = some name :=
    (reads_literal (text "  ")).whole_bind rfl
  rw [readEntry, htail]
  simp [hname]

theorem entryLine_last (name : List Byte) (length : BitVec 32) :
    ∀ c ∈ (entryLine name length).getLast?, c ≠ space := by
  have hlast : (text " bytes").getLast? = some 0x73 := rfl
  rw [entryLine, List.getLast?_append, hlast]
  simp [space]

theorem readEntry_padded (name : List Byte) (length : BitVec 32) :
    readEntry (trimmed (padded (entryLine name length))) = some (name, length.toNat) := by
  rw [padded, trimmed_blanks (entryLine_last name length), readEntry_entryLine]

theorem length_decDigits (n : Nat) (val : BitVec 32) : (decDigits n val).length ≤ n := by
  induction n generalizing val with
  | zero => exact Nat.le_refl 0
  | succ n ih =>
      rw [decDigits]
      split
      · rw [List.length_append, List.length_singleton]
        exact Nat.succ_le_succ (ih _)
      · exact Nat.zero_le _

theorem entryLine_fits {name : List Byte} (hname : newline ∉ name) (hshort : name.length ≤ 15)
    (length : BitVec 32) :
    newline ∉ entryLine name length ∧ (entryLine name length).length < 80 := by
  have hdigits : (decText length).length ≤ 10 := by
    rw [decText]
    split
    · decide
    · exact length_decDigits 10 length
  have hnewline : newline ∉ decText length :=
    not_mem_of_denotes (denotes_decText length).2 (by decide)
  refine ⟨?_, ?_⟩
  · simp only [entryLine, List.mem_append, not_or]
    exact ⟨⟨⟨⟨by decide, hname⟩, by decide⟩, hnewline⟩, by decide⟩
  · simp only [entryLine, List.length_append]
    simp only [text]
    simp
    omega

open BuildDisk

def listingLines (es : List DiskEntry) : List (List Byte) :=
  text "Directory listing:" :: es.map fun e => entryLine (asciiBytes e.name) (onDisk e).length

theorem readListing_lines (es : List DiskEntry) :
    readListing ((listingLines es).map padded) =
      some (es.map fun e => (asciiBytes e.name, (onDisk e).length.toNat)) := by
  have hheader : trimmed (padded (text "Directory listing:")) = text "Directory listing:" :=
    trimmed_blanks (by decide) _
  rw [listingLines, List.map_cons, readListing, if_pos hheader, List.map_map, List.mapM_map]
  simp only [Function.comp_def, readEntry_padded]
  exact List.mapM_pure

theorem listed_entries (lba : Nat) (fs : List DirFile) :
    (entriesFrom lba fs).map (fun e => (asciiBytes e.name, e.length)) =
      fs.map fun f => (asciiBytes f.name, f.contents.length) := by
  induction fs generalizing lba with
  | nil => rfl
  | cons f fs ih => rw [entriesFrom, List.map_cons, List.map_cons, ih]

theorem newline_notMem_asciiBytes {name : List Nat} (hascii : ∀ c ∈ name, c < 128)
    (hname : 10 ∉ name) : newline ∉ asciiBytes name := by
  intro h
  obtain ⟨c, hc, heq⟩ := List.mem_map.mp h
  have hlt := hascii c hc
  have hcode : c = 10 := by
    have hnat := congrArg BitVec.toNat heq
    rw [BitVec.toNat_ofNat, Nat.mod_eq_of_lt (by omega)] at hnat
    exact hnat
  exact hname (hcode ▸ hc)

theorem listingLines_fit {es : List DiskEntry} (hnamed : ∀ e ∈ es, Named e)
    (hnames : ∀ e ∈ es, 10 ∉ e.name) : ∀ s ∈ listingLines es, newline ∉ s ∧ s.length < 80 := by
  intro s hs
  rcases List.mem_cons.mp hs with rfl | hentry
  · decide
  · obtain ⟨e, he, rfl⟩ := List.mem_map.mp hentry
    refine entryLine_fits (newline_notMem_asciiBytes (hnamed e he).ascii (hnames e he)) ?_ _
    rw [asciiBytes, List.length_map]
    exact (hnamed e he).short

namespace Kernel

variable {δ : Type} [Ports δ] {v : Drive δ}

theorem cmdDir_built (hv : v.HonoursReads) {dir : Directory} {mb : Int} {img : List Byte}
    (hbuilt : Built dir mb img) {k : Kernel δ} (hd : v.idle k.dev) (himg : v.Holds k.dev img) :
    k.cmdDir.console =
      k.console.print ((listingLines (entriesFrom 1 (files dir))).flatMap (· ++ [newline])) := by
  obtain ⟨fs', d', hmount, hm, -, -⟩ := fsMount_built hv hbuilt hd himg k.fs
  have hk : k.mount = (0, { k with fs := fs', dev := d' }) := by rw [mount, hmount]
  have hline : ∀ i ∈ fs'.scanned,
      dirLine (cString (namePointer k.behindHeader fs'.header i)) (fs'.header.entries i).length =
        (fun e : FsEntry => dirLine (cString e.nameBytes) e.length) (fs'.header.entries i) := by
    intro i hi
    have hlt : i.val < (entriesFrom 1 (files dir)).length := by
      rw [← hm.count]
      simpa [Fs.scanned] using hi
    have hnamed := named_built hbuilt (List.getElem_mem hlt)
    have hzero : 0 ∈ (fs'.header.entries i).nameBytes := by
      rw [hm.entries i hlt, nameBytes_onDisk hnamed.short]
      simp
    rw [namePointer_eq, cString_append_of_mem hzero]
  have hlines : (fs'.scanned.flatMap fun i =>
      dirLine (cString (namePointer k.behindHeader fs'.header i)) (fs'.header.entries i).length) =
      ((entriesFrom 1 (files dir)).map fun e =>
        entryLine (asciiBytes e.name) (onDisk e).length).flatMap (· ++ [newline]) := by
    rw [List.flatMap_congr hline, List.flatMap_def, map_scanned hbuilt.entries_count hm
      (fun e => dirLine (cString e.nameBytes) e.length), List.flatMap_map, List.flatMap_def]
    congr 1
    refine List.map_congr_left fun e he => ?_
    rw [(named_built hbuilt he).cString_onDisk, dirLine_eq]
  have hout : k.dirOutput =
      (listingLines (entriesFrom 1 (files dir))).flatMap (· ++ [newline]) := by
    have hheader : text "Directory listing:\n" = text "Directory listing:" ++ [newline] := by decide
    rw [dirOutput, hk, listingLines, List.flatMap_cons, ← hlines, ← hheader]
    exact if_neg (not_not.mpr rfl)
  rw [console, cmdDir_output (fun _ => by rw [hk]; exact hm.mounted), hout, C64.console_print,
    console]

theorem dir_reads_back (hv : v.HonoursReads) {dir : Directory} {mb : Int} {img : List Byte}
    (hbuild : buildDisk dir mb = .ok img) (hnames : ∀ f ∈ files dir, 10 ∉ f.name)
    {k : Kernel δ} (hd : v.idle k.dev) (himg : v.Holds k.dev img) {p : Page}
    (hshows : Shows p k.console) (hline : commandOf k.lineBuf = some .dir)
    (polls : List (Option Byte)) :
    ∃ k' top rows, k.shellInputChar newline polls = some k' ∧ top + rows < 25 ∧
      readListing ((List.range rows).map fun row => displayed k'.console (top + row)) =
        some ((files dir).map fun f => (asciiBytes f.name, f.contents.length)) := by
  have hbuilt := buildDisk_ok hbuild
  have hcount : (listingLines (entriesFrom 1 (files dir))).length < 25 := by
    have hfew := hbuilt.entries_count
    rw [listingLines, List.length_cons, List.length_map]
    omega
  have hentry : ∀ e ∈ entriesFrom 1 (files dir), 10 ∉ e.name := by
    intro e he
    have hmem := List.mem_map_of_mem (f := (·.name)) he
    rw [names_entriesFrom] at hmem
    obtain ⟨f, hf, hname⟩ := List.mem_map.mp hmem
    rw [← hname]
    exact hnames f hf
  have hfit := listingLines_fit (fun e he => named_built hbuilt he) hentry
  have hcommand : (k.putchar newline).runCommand .dir (tokens k.lineBuf) polls =
      some (k.putchar newline).cmdDir := rfl
  have hcon := cmdDir_built hv hbuilt (k := k.putchar newline) hd himg
  obtain ⟨k', top, hrun, htop, hrows, -⟩ := typed_lines hshows hline hcommand hcon hfit hcount
  refine ⟨k', top, _, hrun, htop, ?_⟩
  have hlengths : (entriesFrom 1 (files dir)).map
      (fun e => (asciiBytes e.name, (onDisk e).length.toNat)) =
      (files dir).map fun f => (asciiBytes f.name, f.contents.length) := by
    rw [← listed_entries 1]
    exact List.map_congr_left fun e he => by rw [length_onDisk hbuilt he]
  rw [hrows, readListing_lines, hlengths]

end Kernel

def dirTyped (img : List Byte) : Kernel IdealDrive :=
  { (Kernel.holdingKernel img).onConsole Console.clear with lineBuf := text "dir" }

theorem dir_reads_back_two_files :
    ∃ img k' top rows, buildDisk twoFiles 1 = .ok img ∧
      (dirTyped img).shellInputChar newline [] = some k' ∧ top + rows < 25 ∧
      readListing ((List.range rows).map fun row => displayed k'.console (top + row)) =
        some ((files twoFiles).map fun f => (asciiBytes f.name, f.contents.length)) := by
  obtain ⟨img, himg⟩ := buildDisk_twoFiles
  have hline : commandOf (text "dir") = some .dir := by decide
  have hnames : ∀ f ∈ files twoFiles, 10 ∉ f.name := by decide
  obtain ⟨k', top, rows, h⟩ := Kernel.dir_reads_back (IdealDrive.drive_reads _) himg hnames
    (k := dirTyped img) (IdealDrive.holding_idle img) (IdealDrive.holding_holds img)
    (shows_clear (Kernel.holdingKernel img).console) hline []
  exact ⟨img, k', top, rows, himg, h⟩

end CDosX86
