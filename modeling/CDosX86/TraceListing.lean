import CDosX86.CpuTestPasses
import CDosX86.DumpDisplay
import CDosX86.GuestActs
import CDosX86.TypedLines

namespace CDosX86

open Scanner LabelledRuns

def traceCell (e : Word × Byte) : List Byte :=
  hexDigits (e.1.setWidth 32) 4 ++ (text ":" ++ (hexDigits (e.2.setWidth 32) 2 ++ text "  "))

def traceScanner : Scanner Byte (Word × Byte) := do
  let pc ← hexNumber 4
  literal (text ":")
  let op ← hexNumber 2
  literal (text "  ")
  pure (BitVec.ofNat 16 pc, BitVec.ofNat 8 op)

def traceHeader : List Byte := text "Trace (oldest to newest):"

-- The instructions that one reads off the screen after C64TRACEDUMP.
def readTrace : List (List Byte) → Option (List (Word × Byte))
  | [] => none
  | header :: lines =>
      if trimmed header = traceHeader then
        (lines.mapM fun s => whole (many traceScanner) (trimmed s ++ text "  ")).map List.flatten
      else none

theorem reads_traceCell (e : Word × Byte) : Reads traceScanner (traceCell e) e := by
  have hpc : BitVec.ofNat 16 ((e.1.setWidth 32).toNat % 16 ^ 4) = e.1 := by
    rw [BitVec.toNat_setWidth_of_le (by decide)]
    exact ofNat_toNat_mod e.1.isLt
  have hop : BitVec.ofNat 8 ((e.2.setWidth 32).toNat % 16 ^ 2) = e.2 := by
    rw [toNat_widened]
    exact ofNat_toNat_mod e.2.isLt
  have h : Reads traceScanner (traceCell e)
      (BitVec.ofNat 16 ((e.1.setWidth 32).toNat % 16 ^ 4),
        BitVec.ofNat 8 ((e.2.setWidth 32).toNat % 16 ^ 2)) :=
    (reads_hexDigits 4 _).bind ((reads_literal _).bind ((reads_hexDigits 2 _).bind
      ((reads_literal _).ret _)))
  rwa [hpc, hop] at h

def traceRow (g : Nat → Word × Byte) (row : Nat) : List (Word × Byte) :=
  (List.range (min 6 (64 - 6 * row))).map fun j => g (6 * row + j)

def traceLines (g : Nat → Word × Byte) : List (List Byte) :=
  traceHeader :: (List.range 11).map fun row => (traceRow g row).flatMap traceCell

section printed

variable (g : Nat → Word × Byte)

def printedCell (i : Nat) : List Byte :=
  traceCell (g i) ++ if (i + 1) % 6 = 0 then [newline] else []

theorem printed_plain (start : Nat) {n : Nat} (h : ∀ j < n, (start + j + 1) % 6 ≠ 0) :
    ((List.range n).map (start + ·)).flatMap (printedCell g) =
      ((List.range n).map fun j => g (start + j)).flatMap traceCell := by
  rw [List.flatMap_map, List.flatMap_map]
  refine List.flatMap_congr fun j hj => ?_
  rw [printedCell, if_neg (h j (List.mem_range.mp hj)), List.append_nil]

theorem printed_row {row : Nat} (hrow : row < 10) :
    ((List.range 6).map (6 * row + ·)).flatMap (printedCell g) =
      (traceRow g row).flatMap traceCell ++ [newline] := by
  have hfull : min 6 (64 - 6 * row) = 5 + 1 := by omega
  have hlast : printedCell g (6 * row + 5) = traceCell (g (6 * row + 5)) ++ [newline] := by
    rw [printedCell, if_pos (by omega)]
  rw [traceRow, hfull, List.range_succ, List.map_append, List.flatMap_append,
    printed_plain g (6 * row) (by omega), List.map_append, List.flatMap_append, List.map_singleton,
    List.flatMap_singleton, hlast, List.map_singleton, List.flatMap_singleton, List.append_assoc]

theorem printed_rows {rows : Nat} (hrows : rows ≤ 10) :
    (List.range (6 * rows)).flatMap (printedCell g) =
      (List.range rows).flatMap fun row => (traceRow g row).flatMap traceCell ++ [newline] := by
  induction rows with
  | zero => rfl
  | succ rows ih =>
      rw [Nat.mul_succ, List.range_add, List.flatMap_append, ih (by omega),
        printed_row g (by omega), List.range_succ (n := rows), List.flatMap_append,
        List.flatMap_singleton]

theorem printed_trace :
    text "Trace (oldest to newest):\n" ++ (List.range 64).flatMap (printedCell g) ++ [newline] =
      (traceLines g).flatMap (· ++ [newline]) := by
  have hheader : text "Trace (oldest to newest):\n" = traceHeader ++ [newline] := by decide
  have hlast : traceRow g 10 = (List.range 4).map fun j => g (60 + j) := rfl
  rw [traceLines, List.flatMap_cons, List.flatMap_map, List.range_succ (n := 10),
    List.flatMap_append, ← printed_rows g (Nat.le_refl _), List.flatMap_singleton, hlast,
    ← printed_plain g 60 (by decide), hheader, List.range_add (m := 4) (n := 60),
    List.flatMap_append]
  simp only [List.append_assoc]

end printed

def printEntry (con : Console) (e : (Word × Byte) × Nat) : Console :=
  con.print (traceCell e.1 ++ if (e.2 + 1) % 6 = 0 then [newline] else [])

theorem printTrace_eq (t : Trace) (con : Console) :
    printTrace t con =
      ((traceDumpOrdered t traceLen).zipIdx.foldl printEntry
        (con.print (text "Trace (oldest to newest):\n"))).putchar newline := by
  unfold printTrace
  generalize con.print (text "Trace (oldest to newest):\n") = start
  refine congrArg (Console.putchar newline) (List.foldl_ext _ _ start ?_)
  rintro k ⟨⟨pc, op⟩, i⟩ -
  have hcell : ((((k.printHexW (pc.setWidth 32) 4).print (text ":")).printHexW (op.setWidth 32)
      2).print (text "  ")) = k.print (traceCell (pc, op)) := by
    simp only [traceCell, Console.print_append]
    rfl
  have hnewline : ∀ k : Console, k.putchar newline = k.print [newline] := fun _ => rfl
  dsimp only
  rw [hcell, printEntry, Console.print_append, hnewline]
  have hnil : ∀ k : Console, k.print [] = k := fun _ => rfl
  split_ifs
  · rfl
  · rw [hnil]

theorem printed_entries (g : Nat → Word × Byte) (n : Nat) (con : Console) :
    ((List.range n).map g).zipIdx.foldl printEntry con =
      con.print ((List.range n).flatMap (printedCell g)) := by
  induction n with
  | zero => rfl
  | succ n ih =>
      rw [List.range_succ, List.map_append, List.zipIdx_append, List.foldl_append, ih,
        List.flatMap_append, List.flatMap_singleton, Console.print_append]
      simp [printEntry, printedCell]

theorem printTrace_lines (t : Trace) (con : Console) :
    ∃ g : Nat → Word × Byte, traceDumpOrdered t traceLen = (List.range 64).map g ∧
      printTrace t con = con.print ((traceLines g).flatMap (· ++ [newline])) := by
  obtain ⟨g, hg⟩ : ∃ g, traceDumpOrdered t traceLen = (List.range 64).map g := ⟨_, rfl⟩
  refine ⟨g, hg, ?_⟩
  rw [printTrace_eq, hg, printed_entries, ← printed_trace, Console.print_append,
    Console.print_append]
  rfl

theorem traceRow_last (g : Nat → Word × Byte) {row : Nat} (hrow : row < 11) :
    ∃ s c, (traceRow g row).flatMap traceCell = s ++ [c] ++ text "  " ∧ c ≠ space := by
  obtain ⟨n, hn⟩ : ∃ n, min 6 (64 - 6 * row) = n + 1 := ⟨min 6 (64 - 6 * row) - 1, by omega⟩
  have hlow : (((g (6 * row + n)).2.setWidth 32 : BitVec 32) &&& 0xF).toNat < 16 := by
    rw [BitVec.toNat_and]
    exact Nat.lt_of_le_of_lt Nat.and_le_right (by decide)
  refine ⟨((List.range n).map fun j => g (6 * row + j)).flatMap traceCell ++
    (hexDigits ((g (6 * row + n)).1.setWidth 32) 4 ++
      (text ":" ++ hexDigits ((g (6 * row + n)).2.setWidth 32 >>> 4) 1)), _, ?_,
    hexDigit_ne_space _ hlow⟩
  have hop : hexDigits ((g (6 * row + n)).2.setWidth 32) 2 =
      hexDigits ((g (6 * row + n)).2.setWidth 32 >>> 4) 1 ++
        [hexDigit ((g (6 * row + n)).2.setWidth 32 &&& 0xF)] := rfl
  rw [traceRow, hn, List.range_succ, List.map_append, List.flatMap_append, List.map_singleton,
    List.flatMap_singleton, traceCell, hop]
  simp only [List.append_assoc]

theorem readTrace_lines (g : Nat → Word × Byte) :
    readTrace ((traceLines g).map padded) = some ((List.range 64).map g) := by
  have hheader : trimmed (padded traceHeader) = traceHeader := trimmed_blanks (by decide) _
  have hcells : ∀ row, whole (many traceScanner) ((traceRow g row).flatMap traceCell) =
      some (traceRow g row) := by
    intro row
    have h : whole (many traceScanner) ((traceRow g row).flatMap traceCell) =
        some ((traceRow g row).map id) :=
      whole_many fun e _ => ⟨by simp [traceCell, hexDigits], reads_traceCell e⟩
    rwa [List.map_id] at h
  have hrow : ∀ row ∈ List.range 11, whole (many traceScanner)
      (trimmed (padded ((traceRow g row).flatMap traceCell)) ++ text "  ") =
        some (traceRow g row) := by
    intro row hrow
    obtain ⟨s, c, hlast, hc⟩ := traceRow_last g (List.mem_range.mp hrow)
    have hblanks : ∀ n, trimmed (s ++ [c] ++ text "  " ++ List.replicate n space) = s ++ [c] := by
      intro n
      have hmore : s ++ [c] ++ text "  " ++ List.replicate n space =
          s ++ [c] ++ List.replicate (n + 2) space := by
        rw [List.append_assoc]
        rfl
      rw [hmore, trimmed_blanks (by simpa using hc)]
    rw [padded, hlast, hblanks, ← hlast, hcells]
  have hcover := rows_cover g (by decide : 6 * 11 < 64 + 6)
  rw [traceLines, List.map_cons, readTrace, if_pos hheader, List.map_map, List.mapM_map]
  simp only [Function.comp_def]
  rw [mapM_some hrow, Option.map_some, ← List.flatMap_def]
  exact congrArg some hcover

theorem newline_notMem_traceCell (e : Word × Byte) : newline ∉ traceCell e := by
  simp only [traceCell, List.mem_append, not_or]
  exact ⟨newline_notMem_hexDigits _ _, by decide, newline_notMem_hexDigits _ _, by decide⟩

theorem traceLines_fit (g : Nat → Word × Byte) :
    ∀ s ∈ traceLines g, newline ∉ s ∧ s.length < 80 := by
  intro s hs
  rcases List.mem_cons.mp hs with rfl | hrow
  · decide
  · obtain ⟨row, -, rfl⟩ := List.mem_map.mp hrow
    have hcell : ∀ e : Word × Byte, (traceCell e).length = 9 := by
      intro e
      simp [traceCell, length_hexDigits, text]
    refine ⟨?_, ?_⟩
    · intro h
      obtain ⟨e, -, he⟩ := List.mem_flatMap.mp h
      exact newline_notMem_traceCell e he
    · rw [List.length_flatMap]
      simp only [hcell, List.map_const', List.sum_replicate_nat, traceRow, List.length_map,
        List.length_range]
      omega

section prompt

variable {δ : Type} [Ports δ]

-- The listing is of what the emulator fetched last, whatever the kernel had it do before.
theorem tracedump_reads_back {h : Hardware δ} {r : Kernel δ} (hr : Serial h notPoke .hlt r)
    {p : Page} (hshows : Shows p r.console) (hline : commandOf r.lineBuf = some .c64tracedump)
    (polls : List (Option Byte)) :
    ∃ as r' top rows, run C64.act (Kernel.loaded h).c64 as = r.c64 ∧
      r.shellInputChar newline polls = some r' ∧ top + rows < 25 ∧
      readTrace ((List.range rows).map fun row => displayed r'.console (top + row)) =
        some (((collect C64.act C64.actFetched (Kernel.loaded h).c64 as).rtake 64).leftpad 64
          (0, 0)) := by
  obtain ⟨as, has, hrecords⟩ := serial_guest hr
  have hdump := hrecords 64 (Nat.le_refl _)
  rw [← Trace.dump_eq] at hdump
  obtain ⟨g, hg, hprint⟩ := printTrace_lines r.c64.machine.trace (r.console.putchar newline)
  have hcommand : (r.putchar newline).runCommand .c64tracedump (tokens r.lineBuf) polls =
      some ((r.putchar newline).onC64 cmdC64tracedump) := rfl
  obtain ⟨r', top, hrun, htop, hrows, -⟩ := Kernel.typed_lines hshows hline hcommand hprint
    (traceLines_fit g) (by simp [traceLines])
  refine ⟨as, r', top, _, has, hrun, htop, ?_⟩
  rw [hrows, readTrace_lines, ← hg]
  exact congrArg some hdump

theorem shows_init {con : Console} (hblank : ∀ i < 2000, con.vga i = blank) :
    Shows TextPage.empty con.init where
  cell _ hrow _ hcol := hblank _ (vgaCell_lt hrow hcol)
  cursor := rfl
  le := Nat.le_refl 0

theorem shows_booted {h : Hardware δ} (hblank : ∀ i < 2000, h.vga i = blank) :
    ∃ p, Shows p (Kernel.booted h).console := by
  have hinit : Shows TextPage.empty
      (Console.init ((Kernel.loaded h).onPic Pic.maskAllButKeyboard).console) := shows_init hblank
  exact ⟨_, ((hinit.print (text "READY.\n")).print (text "NULL:\\>")).markLineStart⟩

omit [Ports δ] in
theorem Kernel.c64_lineDone (f : C64 → C64) (k : Kernel δ) :
    ((entered k).onC64 f).lineDone.c64 =
      ((f (k.c64.putchar newline)).print promptText).onConsole Console.markLineStart := by
  rw [Kernel.lineDone, Kernel.c64_shellPrompt]
  rfl

theorem Shows.cpu6502RunTest {k : C64} {p : Page} (h : Shows p k.mem.console) :
    ∃ p, Shows p (cpu6502RunTest k).mem.console := by
  rw [CDosX86.cpu6502RunTest]
  generalize text "6502 CPU tests:\n" = title
  have htest1 := test1Loop_report (k.print title)
  have htest2 := test2JsrRts_report (test1Loop (k.print title))
  have hprinted := ((h.print title).print test1Report).print test2Report
  rw [htest2.mem, htest1.mem, C64.console_print]
  dsimp only
  exact ⟨_, hprinted⟩

theorem Unshifted.typesCputest {h : Hardware δ} {k : Kernel δ} (hk : Unshifted h notPoke k)
    (hempty : k.lineBuf = []) {p : Page} (hshows : Shows p k.console) :
    ∃ k' p', Unshifted h notPoke k' ∧ k'.lineBuf = [] ∧ Shows p' k'.console ∧
      k'.c64 = ((cpu6502RunTest ((k.c64.print (text "cputest")).putchar newline)).print
        promptText).onConsole Console.markLineStart := by
  obtain ⟨r, hr, hline, hecho⟩ := hk.typesLine (text "cputest") (by decide)
    (by rw [hempty]; decide)
  rw [hempty, List.nil_append] at hline
  have hserial := hr.command (c := .cputest) (by rw [hline]; decide) nofun [] rfl
  have hc64 := Kernel.c64_lineDone cpu6502RunTest r
  rw [hecho] at hc64
  obtain ⟨p', htested⟩ := Shows.cpu6502RunTest
    (k := (k.c64.print (text "cputest")).putchar newline)
    ((hshows.print (text "cputest")).putchar newline)
  refine ⟨((entered r).onC64 cpu6502RunTest).lineDone, p'.typeAll promptText,
    ⟨hserial, hr.shift, hr.mode⟩, rfl, ?_, hc64⟩
  rw [Kernel.console, hc64, C64.console_onConsole, C64.console_print]
  exact (htested.print promptText).markLineStart

end prompt

def cputestFetches : List (Word × Byte) :=
  [(0x0800, 0xA2), (0x0802, 0xE8), (0x0803, 0xE0), (0x0805, 0xD0), (0x0802, 0xE8), (0x0803, 0xE0),
    (0x0805, 0xD0), (0x0802, 0xE8), (0x0803, 0xE0), (0x0805, 0xD0), (0x0802, 0xE8), (0x0803, 0xE0),
    (0x0805, 0xD0), (0x0802, 0xE8), (0x0803, 0xE0), (0x0805, 0xD0), (0x0807, 0x00), (0x0900, 0xA9),
    (0x0902, 0x20), (0x0909, 0xA9), (0x090B, 0x60), (0x0905, 0x85), (0x0907, 0x00)]

-- CPUTEST, then the dump: what the display lists is what the two programs fetched.
theorem tracedump_reads_back_typed :
    ∃ as, ∃ r r' : Kernel IdealDrive, ∃ top rows,
      r.lineBuf = text "c64tracedump" ∧ r.shellInputChar newline [] = some r' ∧
      run C64.act (Kernel.loaded (Hardware.plain (IdealDrive.holding []))).c64 as = r.c64 ∧
      readTrace ((List.range rows).map fun row => displayed r'.console (top + row)) =
        some (((collect C64.act C64.actFetched
          (Kernel.loaded (Hardware.plain (IdealDrive.holding []))).c64 as).rtake 64).leftpad 64
            (0, 0)) ∧
      readTrace ((List.range rows).map fun row => displayed r'.console (top + row)) =
        some (List.replicate 41 (0, 0) ++ cputestFetches) := by
  generalize hh : Hardware.plain (IdealDrive.holding []) = h
  obtain ⟨p, hbooted⟩ := shows_booted (h := h) (by rw [← hh]; exact fun _ _ => rfl)
  obtain ⟨k, q, hk, hempty, hshows, hc64⟩ := (unshifted_booted h notPoke).typesCputest
    (Kernel.typed_booted h).lineBuf hbooted
  obtain ⟨r, hr, hline, hecho⟩ := hk.typesLine (text "c64tracedump") (by decide)
    (by rw [hempty]; decide)
  rw [hempty, List.nil_append] at hline
  have hshown : Shows (q.typeAll (text "c64tracedump")) r.console := by
    rw [Kernel.console, hecho, C64.console_print]
    exact hshows.print (text "c64tracedump")
  obtain ⟨as, r', top, rows, has, hrun, -, hread⟩ :=
    tracedump_reads_back hr.serial hshown (by rw [hline]; decide) []
  have hlisting : traceDumpOrdered r.c64.machine.trace 64 =
      List.replicate 41 (0, 0) ++ cputestFetches := by
    rw [hecho, hc64, ← hh]
    decide +kernel
  have hstart : (Kernel.loaded h).c64.TraceHolds [] := .of_const fun _ => rfl
  have hfetched := collect_keeps act_records as hstart 64 (Nat.le_refl _)
  rw [List.nil_append, ← Trace.dump_eq, has, hlisting] at hfetched
  refine ⟨as, r, r', top, rows, hline, hrun, has, hread, ?_⟩
  rw [hread, ← hfetched]

end CDosX86
