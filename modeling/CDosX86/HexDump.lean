import CDosX86.Display
import CDosX86.NumberText
import CDosX86.Scanner

namespace CDosX86

open Scanner

def hexNumber (width : Nat) : Scanner Byte Nat := numeral hexadecimalDigit 16 (take width)

theorem length_hexDigits (width : Nat) (val : BitVec 32) :
    (hexDigits val width).length = width := by
  induction width generalizing val with
  | zero => rfl
  | succ width ih => simp [hexDigits, ih]

theorem reads_hexDigits (width : Nat) (val : BitVec 32) :
    Reads (hexNumber width) (hexDigits val width) (val.toNat % 16 ^ width) :=
  (reads_take (length_hexDigits width val)).numeral (denotes_hexDigits width val)

theorem not_mem_of_denotes {digit : Byte → Option Nat} {base v : Nat} {s : List Byte} {c : Byte}
    (h : Numeral.Denotes digit base s v) (hc : digit c = none) : c ∉ s := by
  intro hmem
  obtain ⟨d, hd⟩ := h.digit_of_mem hmem
  simp [hc] at hd

def dumpCell (b : Byte) : List Byte := space :: hexDigits (b.setWidth 32) 2

-- A line of a dump, without the space that ends it.
def dumpLine (addr : BitVec 32) (bs : List Byte) : List Byte :=
  hexText addr ++ (text ":" ++ bs.flatMap dumpCell)

def cellScanner : Scanner Byte Byte := do
  literal [space]
  let b ← hexNumber 2
  pure (BitVec.ofNat 8 b)

def lineScanner : Scanner Byte (BitVec 32 × List Byte) := do
  literal (text "0x")
  let addr ← hexNumber 8
  literal (text ":")
  let bs ← many cellScanner
  pure (BitVec.ofNat 32 addr, bs)

def rowCells (row : BitVec 32 × List Byte) : List (BitVec 32 × Byte) :=
  row.2.zipIdx.map fun (b, j) => (row.1 + BitVec.ofNat 32 j, b)

-- The addresses and bytes that one reads off the lines of a dump.
def readDump (lines : List (List Byte)) : Option (List (BitVec 32 × Byte)) :=
  (lines.mapM fun s => whole lineScanner (trimmed s)).map (·.flatMap rowCells)

theorem ofNat_toNat_mod {n m : Nat} {v : BitVec n} (h : v.toNat < m) :
    BitVec.ofNat n (v.toNat % m) = v := by
  rw [Nat.mod_eq_of_lt h, BitVec.ofNat_toNat, BitVec.setWidth_eq]

theorem toNat_widened (b : Byte) : (b.setWidth 32).toNat = b.toNat :=
  BitVec.toNat_setWidth_of_le (by decide)

theorem reads_dumpCell (b : Byte) : Reads cellScanner (dumpCell b) b := by
  have hvalue : BitVec.ofNat 8 ((b.setWidth 32).toNat % 16 ^ 2) = b := by
    rw [toNat_widened]
    exact ofNat_toNat_mod b.isLt
  have h : Reads cellScanner (dumpCell b) (BitVec.ofNat 8 ((b.setWidth 32).toNat % 16 ^ 2)) :=
    (reads_literal [space]).bind ((reads_hexDigits 2 (b.setWidth 32)).ret (BitVec.ofNat 8))
  rwa [hvalue] at h

theorem whole_dumpLine (addr : BitVec 32) (bs : List Byte) :
    whole lineScanner (dumpLine addr bs) = some (addr, bs) := by
  have hvalue : BitVec.ofNat 32 (addr.toNat % 16 ^ 8) = addr := ofNat_toNat_mod addr.isLt
  have hcells : ∀ b ∈ bs, dumpCell b ≠ [] ∧ Reads cellScanner (dumpCell b) b :=
    fun b _ => ⟨List.cons_ne_nil _ _, reads_dumpCell b⟩
  have htail := whole_many_ret (fun xs => (addr, xs)) hcells
  rw [List.map_id'] at htail
  rw [dumpLine, hexText, List.append_assoc, lineScanner]
  apply (reads_literal (text "0x")).whole_bind
  apply (reads_hexDigits 8 addr).whole_bind
  apply (reads_literal (text ":")).whole_bind
  rw [hvalue]
  exact htail

theorem hexDigit_ne_space (d : BitVec 32) (hd : d.toNat < 16) : hexDigit d ≠ space := by
  intro h
  have hdigit := hexadecimalDigit_ascii d hd
  rw [h] at hdigit
  cases hdigit

theorem dumpLine_last (addr : BitVec 32) (bs : List Byte) :
    ∀ c ∈ (dumpLine addr bs).getLast?, c ≠ space := by
  rcases List.eq_nil_or_concat bs with rfl | ⟨bs, b, rfl⟩
  · simp [dumpLine, text, space]
  · have hlow : ((b.setWidth 32 : BitVec 32) &&& 0xF).toNat < 16 := by
      rw [BitVec.toNat_and]
      exact Nat.lt_of_le_of_lt Nat.and_le_right (by decide)
    have hcell : dumpCell b = (dumpCell b).dropLast ++ [hexDigit (b.setWidth 32 &&& 0xF)] := rfl
    rw [dumpLine, List.concat_eq_append, List.flatMap_append, List.flatMap_singleton, hcell]
    simpa using hexDigit_ne_space _ hlow

-- A row of the screen is its line with blanks behind it.
theorem whole_blanks (addr : BitVec 32) (bs : List Byte) (n : Nat) :
    whole lineScanner (trimmed (dumpLine addr bs ++ List.replicate n space)) = some (addr, bs) := by
  rw [trimmed_blanks (dumpLine_last addr bs), whole_dumpLine]

end CDosX86
