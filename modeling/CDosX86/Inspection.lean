import CDosX86.Emulated
import CDosX86.ScreenText
import Mathlib.Data.List.Nodup

namespace CDosX86

namespace Emulated

def tick (e : Emulated) : Emulated :=
  { e with bus := { e.bus with raster := (e.bus.raster + 1) % palRasterLines } }

-- What a read through `cpu6502_read` does to the machine.
def look (e : Emulated) (addr : Word) : Emulated := if addr = vicRaster then e.tick else e

theorem foldl_look {as : List Word} (hnodup : as.Nodup) (e : Emulated) :
    as.foldl look e = if vicRaster ∈ as then e.tick else e := by
  induction as generalizing e with
  | nil => rfl
  | cons a as ih =>
      obtain ⟨ha, has⟩ := List.nodup_cons.mp hnodup
      rw [List.foldl_cons, ih has, look]
      by_cases h : a = vicRaster
      · subst h
        rw [if_pos rfl, if_neg ha, if_pos List.mem_cons_self]
      · have hmem : vicRaster ∈ a :: as ↔ vicRaster ∈ as := by
          simp [Ne.symm h]
        rw [if_neg h, if_congr hmem rfl rfl]

theorem tick_ne (e : Emulated) : e.tick ≠ e := by
  intro h
  have hraster : (e.bus.raster + 1) % palRasterLines = e.bus.raster :=
    congrArg (fun e => e.bus.raster) h
  revert hraster
  generalize e.bus.raster = r
  intro hraster
  have hnat := congrArg BitVec.toNat hraster
  rw [BitVec.toNat_umod, BitVec.toNat_add, show palRasterLines.toNat = 312 from rfl,
    show (1 : BitVec 32).toNat = 1 from rfl] at hnat
  omega

end Emulated

open Emulated

theorem emulated_readByte (addr : Word) (k : C64) :
    (k.readByte addr).2.emulated = k.emulated.look addr := by
  rw [look]
  split
  · next h =>
    rw [h]
    rfl
  · next h =>
    have hmem : (k.mem.read addr).2 = k.mem := by
      rw [C64Mem.read, C64Mem.ioRead, if_neg h]
      split_ifs <;> rfl
    exact congrArg (fun m => (k.withMem m).emulated) hmem

theorem emulated_print (s : List Byte) (k : C64) : (k.print s).emulated = k.emulated := rfl

theorem emulated_onConsole (f : Console → Console) (k : C64) :
    (k.onConsole f).emulated = k.emulated := rfl

theorem emulated_putchar (c : Byte) (k : C64) : (k.putchar c).emulated = k.emulated := rfl

theorem emulated_printHex (val : BitVec 32) (k : C64) : (k.printHex val).emulated = k.emulated := rfl

def consecutive (addr : BitVec 32) (n : Nat) : List Word :=
  (List.range n).map fun i => (addr + BitVec.ofNat 32 i).setWidth 16

theorem consecutive_add (addr : BitVec 32) (m n : Nat) :
    consecutive addr (m + n) =
      consecutive addr m ++ consecutive (addr + BitVec.ofNat 32 m) n := by
  rw [consecutive, consecutive, consecutive, List.range_add, List.map_append, List.map_map]
  congr 2
  funext i
  simp [BitVec.ofNat_add, BitVec.add_assoc]

theorem consecutive_succ (addr : BitVec 32) (n : Nat) :
    consecutive addr (n + 1) = consecutive addr n ++ [(addr + BitVec.ofNat 32 n).setWidth 16] := by
  rw [consecutive, List.range_succ, List.map_append]
  rfl

theorem nodup_consecutive (addr : BitVec 32) {n : Nat} (hn : n ≤ 2 ^ 16) :
    (consecutive addr n).Nodup := by
  refine List.Nodup.map_on ?_ List.nodup_range
  intro i hi j hj hij
  rw [List.mem_range] at hi hj
  bv_omega

section dump

variable (addr len : BitVec 32)

theorem emulated_dumpRow (i : BitVec 32) (k : C64) :
    (dumpRow (fun addr => C64.readByte (addr.setWidth 16)) addr len i k).emulated =
      (consecutive (addr + i) (min 16 (len.toNat - i.toNat))).foldl look k.emulated := by
  rw [dumpRow]
  dsimp only
  rw [emulated_putchar]
  refine Loop.upto_invariant
    (I := fun j (k' : C64) => k'.emulated = (consecutive (addr + i) j).foldl look k.emulated) ?_ ?_
  · rw [emulated_print, emulated_printHex]
    rfl
  · intro j k' _ hk'
    rw [emulated_putchar, emulated_putchar, emulated_putchar, emulated_readByte, hk',
      consecutive_succ, List.foldl_append, List.foldl_cons, List.foldl_nil]

theorem emulated_rows {n : Nat} (hn : 16 * n ≤ len.toNat + 15) (k : C64) :
    (Loop.upto
      (fun row => dumpRow (fun addr => C64.readByte (addr.setWidth 16)) addr len
        (BitVec.ofNat 32 (16 * row)))
      n k).emulated =
      (consecutive addr (min (16 * n) len.toNat)).foldl look k.emulated := by
  induction n with
  | zero =>
      rw [Nat.mul_zero, Nat.zero_min]
      rfl
  | succ n ih =>
      have hsmall := len.isLt
      have hindex : (BitVec.ofNat 32 (16 * n)).toNat = 16 * n := by
        rw [BitVec.toNat_ofNat]
        omega
      have hsum : min (16 * (n + 1)) len.toNat = 16 * n + min 16 (len.toNat - 16 * n) := by omega
      have hbase : min (16 * n) len.toNat = 16 * n := by omega
      rw [Loop.upto, emulated_dumpRow, hindex, ih (by omega), hsum, consecutive_add,
        List.foldl_append, hbase]

theorem emulated_dumpRows (k : C64) :
    (dumpRows (fun addr => C64.readByte (addr.setWidth 16)) addr len k).emulated =
      (consecutive addr len.toNat).foldl look k.emulated := by
  have hall : min (16 * ((len.toNat + 15) / 16)) len.toNat = len.toNat := by omega
  rw [dumpRows, emulated_rows addr len (by omega), hall]

end dump

inductive Inspection where
  | c64mem (tokens : List (List Byte))
  | c64screen

namespace Inspection

def reads : Inspection → List Word
  | .c64mem (_ :: a :: l :: _) =>
      match parseNumber a, parseNumber l with
      | some addr, some len => consecutive addr (if len > 64 then 64 else len).toNat
      | _, _ => []
  | .c64mem _ => []
  | .c64screen => (List.range 25).flatMap fun row => (List.range 40).map (screenAddr row)

def run : Inspection → C64 → C64
  | .c64mem tokens => cmdC64mem tokens
  | .c64screen => cmdC64screen

theorem raster_not_on_screen : vicRaster ∉ c64screen.reads := by
  simp only [reads, List.mem_flatMap, List.mem_map, List.mem_range, not_exists, not_and]
  intro row hrow col hcol
  exact screenAddr_ne hrow hcol (by decide)

theorem emulated_cmdC64mem (tokens : List (List Byte)) (k : C64) :
    (cmdC64mem tokens k).emulated =
      if vicRaster ∈ (c64mem tokens).reads then k.emulated.tick else k.emulated := by
  rcases tokens with _ | ⟨name, _ | ⟨a, _ | ⟨l, rest⟩⟩⟩
  · rw [cmdC64mem, emulated_print, reads, if_neg List.not_mem_nil] <;> simp
  · rw [cmdC64mem, emulated_print, reads, if_neg List.not_mem_nil] <;> simp
  · rw [cmdC64mem, emulated_print, reads, if_neg List.not_mem_nil] <;> simp
  · rw [cmdC64mem, reads]
    cases parseNumber a with
    | none => rw [emulated_print, if_neg List.not_mem_nil]
    | some addr =>
        cases parseNumber l with
        | none => rw [emulated_print, if_neg List.not_mem_nil]
        | some len =>
            dsimp only
            rw [emulated_dumpRows]
            refine foldl_look (nodup_consecutive addr ?_) _
            split
            · decide
            · bv_omega

theorem emulated_run (i : Inspection) (k : C64) :
    (i.run k).emulated =
      if vicRaster ∈ i.reads then k.emulated.tick else k.emulated := by
  cases i with
  | c64mem tokens => exact emulated_cmdC64mem tokens k
  | c64screen =>
      rw [if_neg raster_not_on_screen, run, cmdC64screen_eq, emulated_print, emulated_onConsole]

theorem emulated_run_iff (i : Inspection) (k : C64) :
    (i.run k).emulated = k.emulated ↔ vicRaster ∉ i.reads := by
  rw [emulated_run]
  split
  · next h => exact iff_of_false (tick_ne _) (not_not.mpr h)
  · next h => exact iff_of_true rfl h

end Inspection

namespace C64

def session (es : List (Call ⊕ Inspection)) (k : C64) : C64 :=
  es.foldl (fun k e => e.elim k.call fun i => i.run k) k

-- The same run, with at most one read of the raster register for each inspection.
def ticking (es : List (Call ⊕ Inspection)) (k : C64) : C64 :=
  es.foldl (fun k e =>
    e.elim k.call fun i => if vicRaster ∈ i.reads then (k.readByte vicRaster).2 else k) k

theorem emulated_session {k k' : C64} (h : k.emulated = k'.emulated)
    (es : List (Call ⊕ Inspection)) : (k.session es).emulated = (k'.ticking es).emulated := by
  induction es generalizing k k' with
  | nil => exact h
  | cons e es ih =>
      refine ih ?_
      cases e with
      | inl c => exact emulated_call h c
      | inr i =>
          change (i.run k).emulated = emulated (if _ then _ else _)
          rw [i.emulated_run, h]
          split
          · rfl
          · rfl

theorem ticking_eq_calls {es : List (Call ⊕ Inspection)}
    (hes : ∀ i, .inr i ∈ es → vicRaster ∉ i.reads) (k : C64) :
    k.ticking es = k.calls (es.filterMap Sum.getLeft?) := by
  induction es generalizing k with
  | nil => rfl
  | cons e es ih =>
      have htail := ih fun i hi => hes i (List.mem_cons_of_mem e hi)
      cases e with
      | inl c => exact htail (k.call c)
      | inr i =>
          have hsame : ticking (.inr i :: es) k = ticking es k :=
            congrArg (ticking es) (if_neg (hes i List.mem_cons_self))
          rw [hsame, htail]
          rfl

end C64

theorem inspection_undisturbed (k : C64) (es : List (Call ⊕ Inspection))
    (hes : ∀ i, .inr i ∈ es → vicRaster ∉ i.reads) :
    (k.session es).emulated = (k.calls (es.filterMap Sum.getLeft?)).emulated ∧
      vicRaster ∉ Inspection.c64screen.reads ∧
      (∀ i : Inspection, (i.run k).cpu = k.cpu ∧ (i.run k).mem.ram = k.mem.ram ∧
        ((i.run k).emulated = k.emulated ↔ vicRaster ∉ i.reads)) ∧
      ∀ es', (k.session es').emulated = (k.ticking es').emulated := by
  refine ⟨?_, Inspection.raster_not_on_screen, fun i => ?_, C64.emulated_session rfl⟩
  · rw [C64.emulated_session rfl, C64.ticking_eq_calls hes]
  · have hcpu : (i.run k).emulated.cpu = k.emulated.cpu := by
      rw [i.emulated_run]
      split <;> rfl
    have hram : (i.run k).emulated.bus.ram = k.emulated.bus.ram := by
      rw [i.emulated_run]
      split <;> rfl
    exact ⟨hcpu, hram, i.emulated_run_iff k⟩

def dumpStack : Inspection := .c64mem [text "C64MEM", text "$01F0", text "16"]

theorem raster_not_in_dumpStack : vicRaster ∉ dumpStack.reads := by decide

theorem inspection_undisturbed_stack :
    (C64.zero.session [.inr .c64screen, .inl (.key 0x41), .inr dumpStack, .inl .step]).emulated =
      (C64.zero.calls [.key 0x41, .step]).emulated := by
  refine (inspection_undisturbed C64.zero _ ?_).1
  intro i hi
  simp only [List.mem_cons, Sum.inr.injEq, reduceCtorEq, List.not_mem_nil, or_false, false_or] at hi
  rcases hi with rfl | rfl
  · exact Inspection.raster_not_on_screen
  · exact raster_not_in_dumpStack

def dumpRaster : Inspection := .c64mem [text "C64MEM", text "$D012", text "1"]

theorem inspection_disturbs : ¬ ∀ (k : C64) (es : List (Call ⊕ Inspection)),
    (k.session es).emulated = (k.calls (es.filterMap Sum.getLeft?)).emulated := by
  intro hclaim
  have hsame : (dumpRaster.run C64.zero).emulated = C64.zero.emulated :=
    hclaim C64.zero [.inr dumpRaster]
  have hread : vicRaster ∈ dumpRaster.reads := by decide
  exact (dumpRaster.emulated_run_iff C64.zero).mp hsame hread

end CDosX86
