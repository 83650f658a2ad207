import CDosX86.DiskSafety
import CDosX86.HexDump

namespace CDosX86

def dumpedLine (addr : BitVec 32) (bs : List Byte) : List Byte :=
  dumpLine addr bs ++ [space]

-- How many of `len` bytes stand on one row, and what they are.
def rowBytes (value : Nat → Byte) (len row : Nat) : List Byte :=
  (List.range (min 16 (len - 16 * row))).map fun j => value (16 * row + j)

def dumpLines (addr : BitVec 32) (value : Nat → Byte) (len rows : Nat) : List (List Byte) :=
  (List.range rows).map fun row =>
    dumpedLine (addr + BitVec.ofNat 32 (16 * row)) (rowBytes value len row)

-- What a read does for a dump: `S j` holds before byte `j` is read.
structure Peeks (read : BitVec 32 → C64 → Byte × C64) (addr : BitVec 32) (len : Nat)
    (value : Nat → Byte) (S : Nat → C64 → Prop) : Prop where
  byte : ∀ {j k}, j < len → S j k → (read (addr + BitVec.ofNat 32 j) k).1 = value j
  next : ∀ {j k}, j < len → S j k → S (j + 1) (read (addr + BitVec.ofNat 32 j) k).2
  console : ∀ a k, (read a k).2.mem.console = k.mem.console
  print : ∀ {j k} s, S j k → S j (k.print s)

section rows

variable {read : BitVec 32 → C64 → Byte × C64} {addr : BitVec 32} {len : BitVec 32}
  {value : Nat → Byte} {S : Nat → C64 → Prop}

theorem printed_cells (addr : BitVec 32) (bs : List Byte) :
    hexText addr ++ text ": " ++ bs.flatMap (fun b => hexDigits (b.setWidth 32) 2 ++ [space]) =
      dumpedLine addr bs := by
  have hmove : ∀ bs : List Byte,
      space :: bs.flatMap (fun b => hexDigits (b.setWidth 32) 2 ++ [space]) =
        bs.flatMap dumpCell ++ [space] := by
    intro bs
    induction bs with
    | nil => rfl
    | cons b bs ih =>
        rw [List.flatMap_cons, List.flatMap_cons, List.append_assoc, List.append_assoc, ← ih]
        rfl
  rw [dumpedLine, dumpLine, List.append_assoc, List.append_assoc, List.append_assoc, ← hmove]
  rfl

theorem nibbles (b : Byte) (k : C64) :
    ((k.putchar (hexDigit ((b >>> 4 &&& 0xF).setWidth 32))).putchar
      (hexDigit ((b &&& 0xF).setWidth 32))).putchar space =
      k.print (hexDigits (b.setWidth 32) 2 ++ [space]) := by
  have hhigh : (b >>> 4 &&& 0xF).setWidth 32 = (b.setWidth 32 : BitVec 32) >>> 4 &&& 0xF := by
    ext i hi
    simp
  have hlow : (b &&& 0xF).setWidth 32 = (b.setWidth 32 : BitVec 32) &&& 0xF :=
    BitVec.setWidth_and
  rw [hhigh, hlow]
  rfl

def cellStep (read : BitVec 32 → C64 → Byte × C64) (start : BitVec 32) (j : Nat) (k : C64) :
    C64 :=
  let (b, k) := read (start + BitVec.ofNat 32 j) k
  k.print (hexDigits (b.setWidth 32) 2 ++ [space])

theorem dumpRow_eq (addr len i : BitVec 32) (k : C64) :
    dumpRow read addr len i k =
      (Loop.upto (cellStep read (addr + i)) (min 16 (len.toNat - i.toNat))
        (k.print (hexText (addr + i) ++ text ": "))).print [newline] := by
  simp only [dumpRow, nibbles, C64.printHex_eq_print, C64.print_print]
  rfl

theorem cells_print (h : Peeks read addr len.toNat value S) {m n : Nat} (hn : m + n ≤ len.toNat)
    {k : C64} (hk : S m k) :
    S (m + n) (Loop.upto (cellStep read (addr + BitVec.ofNat 32 m)) n k) ∧
      (Loop.upto (cellStep read (addr + BitVec.ofNat 32 m)) n k).mem.console =
        k.mem.console.print (((List.range n).map fun j => value (m + j)).flatMap
          fun b => hexDigits (b.setWidth 32) 2 ++ [space]) := by
  induction n with
  | zero => exact ⟨hk, rfl⟩
  | succ n ih =>
      obtain ⟨hs, hcon⟩ := ih (by omega)
      have haddr : addr + BitVec.ofNat 32 m + BitVec.ofNat 32 n =
          addr + BitVec.ofNat 32 (m + n) := by
        rw [BitVec.add_assoc, ← BitVec.ofNat_add]
      rw [Loop.upto]
      generalize Loop.upto (cellStep read (addr + BitVec.ofNat 32 m)) n k = k₁ at hs hcon
      have hlt : m + n < len.toNat := by omega
      have hbyte := h.byte hlt hs
      rw [cellStep, haddr]
      refine ⟨h.print _ (h.next hlt hs), ?_⟩
      rw [C64.console_print, h.console, hcon, hbyte, ← Console.print_append, List.range_succ,
        List.map_append, List.flatMap_append, List.map_singleton, List.flatMap_singleton]

theorem dumpRow_prints (h : Peeks read addr len.toNat value S) {row : Nat}
    (hrow : 16 * row < len.toNat) {k : C64} (hk : S (16 * row) k) :
    S (min (16 * (row + 1)) len.toNat) (dumpRow read addr len (BitVec.ofNat 32 (16 * row)) k) ∧
      (dumpRow read addr len (BitVec.ofNat 32 (16 * row)) k).mem.console =
        k.mem.console.print
          (dumpedLine (addr + BitVec.ofNat 32 (16 * row)) (rowBytes value len.toNat row) ++
            [newline]) := by
  have hstart : (BitVec.ofNat 32 (16 * row)).toNat = 16 * row := by
    rw [BitVec.toNat_ofNat]
    exact Nat.mod_eq_of_lt (hrow.trans len.isLt)
  have hstop : min (16 * (row + 1)) len.toNat =
      16 * row + min 16 (len.toNat - 16 * row) := by omega
  obtain ⟨hs, hcon⟩ := cells_print h (n := min 16 (len.toNat - 16 * row)) (by omega)
    (h.print (hexText (addr + BitVec.ofNat 32 (16 * row)) ++ text ": ") hk)
  rw [dumpRow_eq, hstart, hstop]
  refine ⟨h.print _ hs, ?_⟩
  rw [C64.console_print, hcon, C64.console_print, ← Console.print_append, ← Console.print_append,
    ← List.append_assoc, printed_cells]
  rfl

theorem dumpRows_print (h : Peeks read addr len.toNat value S) {k : C64} (hk : S 0 k) :
    (dumpRows read addr len k).mem.console =
      k.mem.console.print
        ((dumpLines addr value len.toNat ((len.toNat + 15) / 16)).flatMap (· ++ [newline])) := by
  have hrows : ∀ rows ≤ (len.toNat + 15) / 16,
      S (min (16 * rows) len.toNat)
          (Loop.upto (fun row => dumpRow read addr len (BitVec.ofNat 32 (16 * row))) rows k) ∧
        (Loop.upto (fun row => dumpRow read addr len (BitVec.ofNat 32 (16 * row))) rows
            k).mem.console =
          k.mem.console.print ((dumpLines addr value len.toNat rows).flatMap (· ++ [newline])) := by
    intro rows hle
    induction rows with
    | zero =>
        rw [Nat.mul_zero, Nat.zero_min]
        exact ⟨hk, rfl⟩
    | succ rows ih =>
        obtain ⟨hs, hcon⟩ := ih (by omega)
        rw [Nat.min_eq_left (by omega)] at hs
        obtain ⟨hs', hcon'⟩ := dumpRow_prints h (by omega) hs
        refine ⟨hs', hcon'.trans ?_⟩
        rw [hcon, ← Console.print_append, dumpLines, dumpLines, List.range_succ, List.map_append,
          List.flatMap_append, List.map_singleton, List.flatMap_singleton]
  exact (hrows _ (Nat.le_refl _)).2

end rows

theorem rows_cover {β : Type} (g : Nat → β) {width len rows : Nat}
    (hrows : width * rows < len + width) :
    (List.range rows).flatMap
        (fun row => (List.range (min width (len - width * row))).map fun j => g (width * row + j)) =
      (List.range (min (width * rows) len)).map g := by
  induction rows with
  | zero => simp
  | succ rows ih =>
      rw [Nat.mul_succ] at hrows
      have hstop : min (width * (rows + 1)) len =
          min (width * rows) len + min width (len - width * rows) := by
        rw [Nat.mul_succ]
        omega
      rw [List.range_succ, List.flatMap_append, List.flatMap_singleton, ih (by omega), hstop,
        List.range_add, List.map_append, List.map_map,
        Nat.min_eq_left (by omega : width * rows ≤ len)]
      rfl

theorem rowCells_range (addr : BitVec 32) (value : Nat → Byte) (n : Nat) :
    rowCells (addr, (List.range n).map value) =
      (List.range n).map fun j => (addr + BitVec.ofNat 32 j, value j) := by
  induction n with
  | zero => rfl
  | succ n ih =>
      rw [rowCells] at ih ⊢
      dsimp only at ih ⊢
      simp [List.range_succ, List.zipIdx_append, ih]

theorem readDump_dumpLines (addr : BitVec 32) (value : Nat → Byte) (len : Nat) :
    readDump ((dumpLines addr value len ((len + 15) / 16)).map padded) =
      some ((List.range len).map fun j => (addr + BitVec.ofNat 32 j, value j)) := by
  have hline : ∀ row, Scanner.whole lineScanner (trimmed (padded
      (dumpedLine (addr + BitVec.ofNat 32 (16 * row)) (rowBytes value len row)))) =
      pure (addr + BitVec.ofNat 32 (16 * row), rowBytes value len row) := by
    intro row
    unfold padded dumpedLine
    rw [List.append_assoc, List.singleton_append, ← List.replicate_succ, whole_blanks]
    rfl
  have hcells : ∀ row, rowCells (addr + BitVec.ofNat 32 (16 * row), rowBytes value len row) =
      (List.range (min 16 (len - 16 * row))).map fun j =>
        (addr + BitVec.ofNat 32 (16 * row + j), value (16 * row + j)) := by
    intro row
    rw [rowBytes, rowCells_range]
    simp only [BitVec.ofNat_add, BitVec.add_assoc]
  have hcover := rows_cover (fun j => (addr + BitVec.ofNat 32 j, value j))
    (by omega : 16 * ((len + 15) / 16) < len + 16)
  rw [Nat.min_eq_right (by omega)] at hcover
  rw [readDump, dumpLines, List.map_map, List.mapM_map]
  simp only [Function.comp_def, hline, List.mapM_pure]
  simp only [Option.pure_def, Option.map_some, List.flatMap_map, hcells, hcover]

theorem length_dumpedLine (addr : BitVec 32) (bs : List Byte) :
    (dumpedLine addr bs).length = 12 + 3 * bs.length := by
  have hcells : (bs.flatMap dumpCell).length = 3 * bs.length := by
    induction bs with
    | nil => rfl
    | cons b bs ih =>
        rw [List.flatMap_cons, List.length_append, ih, dumpCell, List.length_cons,
          length_hexDigits, List.length_cons]
        omega
  simp only [dumpedLine, dumpLine, hexText, List.length_append, hcells, length_hexDigits]
  simp [text]
  omega

theorem newline_notMem_hexDigits (width : Nat) (val : BitVec 32) :
    newline ∉ hexDigits val width :=
  not_mem_of_denotes (denotes_hexDigits width val) (by decide)

theorem newline_notMem_dumpedLine (addr : BitVec 32) (bs : List Byte) :
    newline ∉ dumpedLine addr bs := by
  have hcells : newline ∉ bs.flatMap dumpCell := by
    intro h
    obtain ⟨b, -, hb⟩ := List.mem_flatMap.mp h
    rcases List.mem_cons.mp hb with hspace | hdigit
    · exact absurd hspace (by decide)
    · exact newline_notMem_hexDigits _ _ hdigit
  have haddr := newline_notMem_hexDigits 8 addr
  simp only [dumpedLine, dumpLine, hexText, List.mem_append, not_or]
  exact ⟨⟨⟨by decide, haddr⟩, by decide, hcells⟩, by decide⟩

theorem dumpLines_fit (addr : BitVec 32) (value : Nat → Byte) (len rows : Nat) :
    ∀ s ∈ dumpLines addr value len rows, newline ∉ s ∧ s.length < 80 := by
  intro s hs
  obtain ⟨row, -, rfl⟩ := List.mem_map.mp hs
  refine ⟨newline_notMem_dumpedLine _ _, ?_⟩
  rw [length_dumpedLine, rowBytes, List.length_map, List.length_range]
  omega

theorem readByte_other {a b : Word} (h : a ≠ b) (k : C64) :
    ((k.readByte a).2.readByte b).1 = (k.readByte b).1 := by
  change ((k.mem.read a).2.read b).1 = (k.mem.read b).1
  by_cases hb : b = vicRaster
  · have hsame : (k.mem.read a).2 = k.mem := by
      have ha : a ≠ vicRaster := fun ha => h (ha.trans hb.symm)
      rw [C64Mem.read, C64Mem.ioRead, if_neg ha]
      split_ifs <;> rfl
    rw [hsame]
  · have hvalue : ∀ m : C64Mem, (m.read b).1 = if b = cia1Prb then 0xFF else m.ram b := by
      intro m
      rw [C64Mem.read, C64Mem.ioRead, if_neg hb]
      split_ifs with hio hcia hcia
      · rfl
      · rfl
      · exact absurd (Or.inr hcia) hio
      · rfl
    rw [hvalue, hvalue, C64Mem.read_ram]

theorem peeks_c64mem (addr : BitVec 32) {len : Nat} (hlen : len ≤ 64) (k : C64) :
    Peeks (fun addr => C64.readByte (addr.setWidth 16)) addr len
      (fun j => (k.readByte ((addr + BitVec.ofNat 32 j).setWidth 16)).1)
      (fun j k' => ∀ i < len, j ≤ i →
        (k'.readByte ((addr + BitVec.ofNat 32 i).setWidth 16)).1 =
          (k.readByte ((addr + BitVec.ofNat 32 i).setWidth 16)).1) where
  byte hj hk := hk _ hj (Nat.le_refl _)
  next {j k'} hj hk i hi hji := by
    have hne : (addr + BitVec.ofNat 32 j).setWidth 16 ≠ (addr + BitVec.ofNat 32 i).setWidth 16 := by
      bv_omega
    rw [readByte_other hne, hk i hi (by omega)]
  console a k := C64.console_readByte _ _
  print s hk i hi hji := by
    rw [C64.readByte_print]
    exact hk i hi hji

theorem peeks_dump (memory : BitVec 32 → Byte) (addr : BitVec 32) (len : Nat) :
    Peeks (fun addr k => (memory addr, k)) addr len
      (fun j => memory (addr + BitVec.ofNat 32 j)) (fun _ _ => True) where
  byte _ _ := rfl
  next _ _ := trivial
  console _ _ := rfl
  print _ _ := trivial

theorem toNat_capped (len cap : BitVec 32) :
    (if len > cap then cap else len).toNat = min len.toNat cap.toNat := by
  split
  · next h =>
    rw [gt_iff_lt, BitVec.lt_def] at h
    omega
  · next h =>
    rw [gt_iff_lt, BitVec.lt_def] at h
    omega

section commands

variable (name : List Byte) (rest : List (List Byte)) {a l : List Byte} {addr len : BitVec 32}
  (ha : parseNumber a = some addr) (hl : parseNumber l = some len)

include ha hl

theorem cmdC64mem_prints (k : C64) :
    (cmdC64mem (name :: a :: l :: rest) k).mem.console =
      k.mem.console.print
        ((dumpLines addr (fun j => (k.readByte ((addr + BitVec.ofNat 32 j).setWidth 16)).1)
          (min len.toNat 64) ((min len.toNat 64 + 15) / 16)).flatMap (· ++ [newline])) := by
  have hlen := toNat_capped len 64
  have hcap : (if len > 64 then 64 else len).toNat ≤ 64 := by
    rw [hlen]
    exact Nat.min_le_right _ _
  have hprint := dumpRows_print (peeks_c64mem addr hcap k) fun _ _ _ => rfl
  rw [hlen] at hprint
  rw [cmdC64mem]
  simp only [ha, hl]
  exact hprint

theorem cmdDump_prints (memory : BitVec 32 → Byte) (k : C64) :
    (cmdDump memory (name :: a :: l :: rest) k).mem.console =
      k.mem.console.print
        ((dumpLines addr (fun j => memory (addr + BitVec.ofNat 32 j)) (min len.toNat 256)
          ((min len.toNat 256 + 15) / 16)).flatMap (· ++ [newline])) := by
  have hlen := toNat_capped len 256
  have hprint := dumpRows_print (peeks_dump memory addr (if len > 256 then 256 else len).toNat)
    (k := k) trivial
  rw [hlen] at hprint
  rw [cmdDump]
  simp only [ha, hl]
  exact hprint

end commands

def dumpLimit (c : Command) : Nat := if c = .c64mem then 64 else 256

namespace Kernel

variable {δ : Type} [Ports δ]

-- The byte that a dump shows for an address.
def dumped (c : Command) (k : Kernel δ) (addr : BitVec 32) : Byte :=
  if c = .c64mem then (k.c64.readByte (addr.setWidth 16)).1 else k.memory addr

theorem dump_lines (k : Kernel δ) {c : Command} (hc : c = .c64mem ∨ c = .dump)
    (name : List Byte) (rest : List (List Byte)) {a l : List Byte} {addr len : BitVec 32}
    (ha : parseNumber a = some addr) (hl : parseNumber l = some len)
    (polls : List (Option Byte)) :
    ∃ k', (k.putchar newline).runCommand c (name :: a :: l :: rest) polls = some k' ∧
      k'.console = (k.console.putchar newline).print
        ((dumpLines addr (fun j => k.dumped c (addr + BitVec.ofNat 32 j))
          (min len.toNat (dumpLimit c))
          ((min len.toNat (dumpLimit c) + 15) / 16)).flatMap (· ++ [newline])) := by
  obtain rfl | rfl := hc
  · refine ⟨_, rfl, (cmdC64mem_prints name rest ha hl _).trans ?_⟩
    simp only [dumped, dumpLimit, if_true, putchar_eq_print, c64_print, C64.readByte_print]
    rfl
  · exact ⟨_, rfl, cmdDump_prints name rest ha hl k.memory _⟩

theorem dump_reads_back {k : Kernel δ} {c : Command} (hc : c = .c64mem ∨ c = .dump) {p : Page}
    (hshows : Shows p k.console) (hline : commandOf k.lineBuf = some c) {name a l : List Byte}
    {rest : List (List Byte)} (htokens : tokens k.lineBuf = name :: a :: l :: rest)
    {addr len : BitVec 32} (ha : parseNumber a = some addr) (hl : parseNumber l = some len)
    (polls : List (Option Byte)) :
    ∃ k' top rows, k.shellInputChar newline polls = some k' ∧ top + rows < 25 ∧
      displayed k'.console (top + rows) = padded promptText ∧
      readDump ((List.range rows).map fun row => displayed k'.console (top + row)) =
        some ((List.range (min len.toNat (dumpLimit c))).map fun j =>
          (addr + BitVec.ofNat 32 j, k.dumped c (addr + BitVec.ofNat 32 j))) := by
  obtain ⟨k₁, hcommand, hcon⟩ := k.dump_lines hc name rest ha hl polls
  rw [← htokens] at hcommand
  have hlimit : dumpLimit c ≤ 256 := by
    rw [dumpLimit]
    split_ifs <;> decide
  have hread := readDump_dumpLines addr (fun j => k.dumped c (addr + BitVec.ofNat 32 j))
    (min len.toNat (dumpLimit c))
  have hfit := dumpLines_fit addr (fun j => k.dumped c (addr + BitVec.ofNat 32 j))
    (min len.toNat (dumpLimit c)) ((min len.toNat (dumpLimit c) + 15) / 16)
  have hcount : (dumpLines addr (fun j => k.dumped c (addr + BitVec.ofNat 32 j))
      (min len.toNat (dumpLimit c)) ((min len.toNat (dumpLimit c) + 15) / 16)).length < 25 := by
    rw [dumpLines, List.length_map, List.length_range]
    omega
  generalize dumpLines addr (fun j => k.dumped c (addr + BitVec.ofNat 32 j))
    (min len.toNat (dumpLimit c)) ((min len.toNat (dumpLimit c) + 15) / 16) = lines
    at hcon hread hfit hcount
  obtain ⟨k', top, hrun, htop, hrows, hprompt⟩ := typed_lines hshows hline hcommand hcon hfit hcount
  refine ⟨k', top, lines.length, hrun, htop, hprompt, ?_⟩
  rw [hrows, hread]

end Kernel

def dumpTyped : Kernel IdealDrive :=
  { (Kernel.holdingKernel []).onConsole Console.clear with lineBuf := text "c64mem $0400 20" }

theorem dump_reads_back_typed :
    ∃ k' top rows, dumpTyped.shellInputChar newline [] = some k' ∧ top + rows < 25 ∧
      displayed k'.console (top + rows) = padded promptText ∧
      readDump ((List.range rows).map fun row => displayed k'.console (top + row)) =
        some ((List.range (min (20 : BitVec 32).toNat (dumpLimit .c64mem))).map fun j =>
          (0x400 + BitVec.ofNat 32 j, dumpTyped.dumped .c64mem (0x400 + BitVec.ofNat 32 j))) := by
  have hline : commandOf dumpTyped.lineBuf = some .c64mem := by decide
  have htokens : tokens dumpTyped.lineBuf = [text "c64mem", text "$0400", text "20"] := by decide
  have hshows : Shows TextPage.empty dumpTyped.console := shows_clear _
  exact Kernel.dump_reads_back (.inl rfl) hshows hline htokens (by decide) (by decide) []

end CDosX86
