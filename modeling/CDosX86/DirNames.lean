import CDosX86.DiskSafety
import CDosX86.Printing

namespace CDosX86

open LittleEndian

-- The offsets at which `k_strncasecmp` reads its first argument.
def kStrncasecmpReads : List Byte → List Byte → Nat → List Nat
  | _, _, 0 => []
  | [], _, _ + 1 => [0]
  | x :: a, b, n + 1 =>
      0 :: if x ≠ 0 ∧ lower x = lower (deref b) then (kStrncasecmpReads a b.tail n).map (· + 1)
        else []

-- The offsets at which `console_print` reads its string, the terminator's among them.
def consolePrintReads : List Byte → List Nat
  | [] => [0]
  | c :: s => 0 :: if c ≠ 0 then (consolePrintReads s).map (· + 1) else []

theorem kStrncasecmpReads_lt {a b : List Byte} {n o : Nat} (h : o ∈ kStrncasecmpReads a b n) :
    o < n := by
  induction n generalizing a b o with
  | zero => simp [kStrncasecmpReads] at h
  | succ n ih =>
      cases a with
      | nil =>
          rw [kStrncasecmpReads, List.mem_singleton] at h
          omega
      | cons x a =>
          rw [kStrncasecmpReads] at h
          rcases List.mem_cons.mp h with rfl | h
          · exact Nat.succ_pos n
          · split at h
            · obtain ⟨i, hi, rfl⟩ := List.mem_map.mp h
              exact Nat.succ_lt_succ (ih hi)
            · cases h

theorem consolePrintReads_eq (s : List Byte) :
    consolePrintReads s = List.range ((cString s).length + 1) := by
  induction s with
  | nil => rfl
  | cons c s ih =>
      rw [consolePrintReads, List.range_succ_eq_map]
      by_cases hc : c = 0
      · rw [if_neg (not_not.mpr hc), hc, cString_zero]
        rfl
      · rw [if_pos hc, ih, cString_cons hc]
        rfl

theorem consolePrintReads_inside_iff (a rest : List Byte) :
    (∀ o ∈ consolePrintReads (a ++ rest), o < a.length) ↔ 0 ∈ a := by
  rw [consolePrintReads_eq]
  constructor
  · intro h
    by_contra hmem
    have hall := cString_append_of_notMem hmem rest
    have hover := h a.length (by rw [hall, List.length_append, List.mem_range]; omega)
    omega
  · intro h o ho
    rw [cString_append_of_mem h, List.mem_range] at ho
    have := length_cString_lt h
    omega

theorem length_nameBytes (e : FsEntry) : e.nameBytes.length = fsNameLen := List.length_ofFn

def behindName (behindHeader : List Byte) (h : FsHeader) (i : Fin 21) : List Byte :=
  encode 4 (h.entries i).startLba.toNat ++ encode 4 (h.entries i).length.toNat ++
    (((List.finRange 21).drop (i + 1)).flatMap (fun j => (h.entries j).bytes) ++ behindHeader)

theorem namePointer_eq (behindHeader : List Byte) (h : FsHeader) (i : Fin 21) :
    namePointer behindHeader h i = (h.entries i).nameBytes ++ behindName behindHeader h i := by
  have hdrop : (List.finRange 21).drop i = i :: (List.finRange 21).drop (i + 1) := by
    rw [List.drop_eq_getElem_cons (by simp), List.getElem_finRange]
    rfl
  rw [namePointer, hdrop, List.flatMap_cons, FsEntry.bytes, List.append_assoc, List.append_assoc,
    behindName]

-- Every byte of a name that `fs_find` reads, as the entry it lies behind and the offset.
def findReads (behindHeader : List Byte) (h : FsHeader) (name : List Byte) :
    List (Fin 21) → List (Fin 21 × Nat)
  | [] => []
  | i :: is =>
      (kStrncasecmpReads (namePointer behindHeader h i) name fsNameLen).map (fun o => (i, o)) ++
        if kStrncasecmp (h.entries i).nameBytes name fsNameLen = 0 then []
        else findReads behindHeader h name is

def dirReads (behindHeader : List Byte) (h : FsHeader) (is : List (Fin 21)) :
    List (Fin 21 × Nat) :=
  is.flatMap fun i => (consolePrintReads (namePointer behindHeader h i)).map fun o => (i, o)

theorem findReads_lt {behindHeader : List Byte} {h : FsHeader} {name : List Byte}
    {is : List (Fin 21)} {r : Fin 21 × Nat} (hr : r ∈ findReads behindHeader h name is) :
    r.2 < fsNameLen := by
  induction is with
  | nil => cases hr
  | cons i is ih =>
      rw [findReads, List.mem_append] at hr
      rcases hr with hr | hr
      · obtain ⟨o, ho, rfl⟩ := List.mem_map.mp hr
        exact kStrncasecmpReads_lt ho
      · split at hr
        · cases hr
        · exact ih hr

theorem dirReads_inside_iff (behindHeader : List Byte) (h : FsHeader) (is : List (Fin 21)) :
    (∀ r ∈ dirReads behindHeader h is, r.2 < fsNameLen) ↔
      ∀ i ∈ is, 0 ∈ (h.entries i).nameBytes := by
  have hentry : ∀ i, (∀ o ∈ consolePrintReads (namePointer behindHeader h i), o < fsNameLen) ↔
      0 ∈ (h.entries i).nameBytes := by
    intro i
    rw [namePointer_eq, ← length_nameBytes (h.entries i)]
    exact consolePrintReads_inside_iff _ _
  simp only [dirReads, List.mem_flatMap, List.mem_map]
  constructor
  · intro hall i hi
    exact (hentry i).mp fun o ho => hall (i, o) ⟨i, hi, o, ho, rfl⟩
  · rintro hall r ⟨i, hi, o, ho, rfl⟩
    exact (hentry i).mpr (hall i hi) o ho

def dirLine (name : List Byte) (length : BitVec 32) : List Byte :=
  text "  " ++ name ++ text "  " ++ decText length ++ text " bytes\n"

theorem dirPrintEntry_eq_print (behindHeader : List Byte) (h : FsHeader) (i : Fin 21)
    (con : Console) :
    dirPrintEntry behindHeader h i con =
      con.print (dirLine (cString (namePointer behindHeader h i)) (h.entries i).length) := by
  simp only [dirPrintEntry, dirLine, Console.printDec_eq_print, Console.print_append]

theorem fsList_prints {fs : Fs} (hmounted : fs.mounted = true) (behindHeader : List Byte)
    (con : Console) :
    (fs.fsList (dirPrintEntry behindHeader) con).2 = con.print (fs.scanned.flatMap fun i =>
      dirLine (cString (namePointer behindHeader fs.header i)) (fs.header.entries i).length) := by
  rw [Fs.fsList, if_pos hmounted]
  dsimp only
  induction fs.scanned generalizing con with
  | nil => rfl
  | cons i is ih =>
      rw [List.foldl_cons, ih, dirPrintEntry_eq_print, List.flatMap_cons, Console.print_append]

def listedIn (h : FsHeader) : List (Fin 21) :=
  (List.finRange 21).filter fun i => i.val < h.entryCount.toNat

theorem mem_listedIn {h : FsHeader} {i : Fin 21} :
    i ∈ listedIn h ↔ i.val < h.entryCount.toNat := by
  simp [listedIn]

namespace Kernel

section

variable {δ : Type} [Ports δ]

-- What `cmd_dir` sends to the console.
def dirOutput (k : Kernel δ) : List Byte :=
  let (r, k) := k.mount
  if r ≠ 0 then text "No disk mounted or unformatted disk.\n"
  else
    text "Directory listing:\n" ++ k.fs.scanned.flatMap fun i =>
      dirLine (cString (namePointer k.behindHeader k.fs.header i)) (k.fs.header.entries i).length

structure NamesInside (h : FsHeader) (k : Kernel δ) : Prop where
  find : ∀ name,
    ∀ r ∈ findReads k.behindHeader k.mount.2.fs.header name k.mount.2.fs.scanned, r.2 < fsNameLen
  dir : ∀ r ∈ dirReads k.behindHeader k.mount.2.fs.header k.mount.2.fs.scanned, r.2 < fsNameLen
  listing : k.dirOutput = text "Directory listing:\n" ++ (listedIn h).flatMap fun i =>
    dirLine (cString (h.entries i).nameBytes) (h.entries i).length

theorem mount_accepted {k : Kernel δ} {sector : Buffer} {d : δ}
    (hread : ataReadSector 0 unwritten k.dev = (0, sector, d))
    (hmagic : (headerAt sector).magic = fsMagic) :
    k.mount.1 = 0 ∧ k.mount.2.fs.mounted = true ∧
      k.mount.2.fs.scanned = listedIn (headerAt sector) ∧
      ∀ i ∈ listedIn (headerAt sector),
        k.mount.2.fs.header.entries i = (headerAt sector).entries i := by
  rw [mount, fsMount_accepted hread hmagic]
  exact ⟨rfl, rfl, rfl, fun i hi => if_pos (mem_listedIn.mp hi)⟩

theorem cmdDir_output {k : Kernel δ} (hmounted : k.mount.1 = 0 → k.mount.2.fs.mounted = true) :
    k.cmdDir.c64 = k.c64.print k.dirOutput := by
  simp only [cmdDir, dirOutput]
  split
  · rfl
  · next hmount =>
    have hlist := fsList_prints (hmounted (not_not.mp hmount)) k.mount.2.behindHeader
    rw [← C64.print_print]
    exact congrArg (fun f => C64.onConsole f (k.c64.print (text "Directory listing:\n")))
      (funext hlist)

theorem namesInside_iff {k : Kernel δ} {sector : Buffer} {d : δ}
    (hread : ataReadSector 0 unwritten k.dev = (0, sector, d))
    (hmagic : (headerAt sector).magic = fsMagic) :
    NamesInside (headerAt sector) k ↔ ∀ i : Fin 21, i.val < (headerAt sector).entryCount.toNat →
      0 ∈ ((headerAt sector).entries i).nameBytes := by
  obtain ⟨hmount, -, hscanned, hentries⟩ := mount_accepted hread hmagic
  have hnames : (∀ i : Fin 21, i.val < (headerAt sector).entryCount.toNat →
        0 ∈ ((headerAt sector).entries i).nameBytes) ↔
      ∀ i ∈ k.mount.2.fs.scanned, 0 ∈ (k.mount.2.fs.header.entries i).nameBytes := by
    rw [hscanned]
    refine forall_congr' fun i => ?_
    rw [← mem_listedIn]
    exact ⟨fun h hi => by rw [hentries i hi]; exact h hi,
      fun h hi => by rw [← hentries i hi]; exact h hi⟩
  rw [hnames, ← dirReads_inside_iff k.behindHeader]
  refine ⟨fun h => h.dir, fun hdir => ⟨fun name r hr => findReads_lt hr, hdir, ?_⟩⟩
  have hzero := (dirReads_inside_iff k.behindHeader _ _).mp hdir
  simp only [dirOutput, hmount]
  rw [if_neg (not_not.mpr rfl), hscanned]
  congr 1
  refine List.flatMap_congr fun i hi => ?_
  rw [namePointer_eq, cString_append_of_mem (hzero i (by rwa [hscanned])), hentries i hi]

theorem directory_names_inside {k : Kernel δ} {sector : Buffer} {d : δ}
    (hread : ataReadSector 0 unwritten k.dev = (0, sector, d))
    (hmagic : (headerAt sector).magic = fsMagic) :
    k.cmdDir.c64 = k.c64.print k.dirOutput ∧
      (NamesInside (headerAt sector) k ↔ ∀ i : Fin 21, i.val < (headerAt sector).entryCount.toNat →
        0 ∈ ((headerAt sector).entries i).nameBytes) := by
  obtain ⟨-, hmounted, -⟩ := mount_accepted hread hmagic
  exact ⟨cmdDir_output fun _ => hmounted, namesInside_iff hread hmagic⟩

end

-- A directory of one entry, up to the end of its name.
def oneName (name : List Byte) : List Byte := [0x53, 0x46, 0x44, 0x43, 1, 0, 0, 0] ++ name

def oneNameSector (name : List Byte) : Buffer :=
  fill unwritten ((IdealDrive.holding (oneName name)).content 0)

theorem read_oneName (name : List Byte) : ∃ d,
    ataReadSector 0 unwritten (holdingKernel (oneName name)).dev = (0, oneNameSector name, d) := by
  have hsize : address 0 < ((oneName name).length + 511) / 512 := by
    rw [address, oneName]
    simp
  obtain ⟨d, hread, -, -⟩ := (IdealDrive.drive_reads _).ataReadSector 0
    (IdealDrive.holding_idle (oneName name)) hsize unwritten
  exact ⟨d, hread⟩

theorem magic_oneName (name : List Byte) : (headerAt (oneNameSector name)).magic = fsMagic := by
  change BitVec.ofNat 32 (decode [0x53, 0x46, 0x44, 0x43]) = fsMagic
  decide

theorem count_oneName (name : List Byte) : (headerAt (oneNameSector name)).entryCount = 1 := by
  change BitVec.ofNat 32 (decode [1, 0, 0, 0]) = 1
  decide

theorem directory_names_inside_short :
    NamesInside (headerAt (oneNameSector [0x41])) (holdingKernel (oneName [0x41])) := by
  obtain ⟨d, hread⟩ := read_oneName [0x41]
  refine (directory_names_inside hread (magic_oneName _)).2.mpr fun i hi => ?_
  have hfirst : i = 0 := by
    rw [count_oneName] at hi
    exact Fin.ext (Nat.lt_one_iff.mp hi)
  rw [hfirst]
  decide

theorem directory_name_over_read : ¬ ∀ (img : List Byte) (sector : Buffer) (d : IdealDrive),
    ataReadSector 0 unwritten (holdingKernel img).dev = (0, sector, d) →
      (headerAt sector).magic = fsMagic → NamesInside (headerAt sector) (holdingKernel img) := by
  intro hclaim
  obtain ⟨d, hread⟩ := read_oneName (List.replicate 17 0x41)
  have hinside := hclaim _ _ d hread (magic_oneName _)
  have hzero := (namesInside_iff hread (magic_oneName _)).mp hinside 0 (by decide)
  exact absurd hzero (by decide)

end Kernel

end CDosX86
