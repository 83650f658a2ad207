import CDosX86.ParseNumber
import CDosX86.Printing

namespace CDosX86

open Numeral

theorem decimalDigit_ascii (d : BitVec 32) (hd : d.toNat < 10) :
    decimalDigit (0x30 + d.setWidth 8) = some d.toNat := by
  obtain ⟨n, hn, rfl⟩ : ∃ n, n < 10 ∧ d = BitVec.ofNat 32 n := ⟨d.toNat, hd, by simp⟩
  interval_cases n <;> decide

theorem hexadecimalDigit_ascii (d : BitVec 32) (hd : d.toNat < 16) :
    hexadecimalDigit (hexDigit d) = some d.toNat := by
  obtain ⟨n, hn, rfl⟩ : ∃ n, n < 16 ∧ d = BitVec.ofNat 32 n := ⟨d.toNat, hd, by simp⟩
  interval_cases n <;> decide

theorem denotes_hexDigits (width : Nat) (val : BitVec 32) :
    Denotes hexadecimalDigit 16 (hexDigits val width) (val.toNat % 16 ^ width) := by
  induction width generalizing val with
  | zero =>
      rw [pow_zero, Nat.mod_one]
      exact denotes_nil
  | succ width ih =>
      have hlow : (val &&& 0xF).toNat = val.toNat % 16 := Nat.and_two_pow_sub_one_eq_mod _ 4
      have hhigh : (val >>> 4).toNat = val.toNat / 16 := Nat.shiftRight_eq_div_pow _ 4
      have hdigit := hexadecimalDigit_ascii (val &&& 0xF) (by rw [hlow]; omega)
      have hnext := (ih (val >>> 4)).append_digit hdigit
      have hvalue : val.toNat % 16 ^ (width + 1) =
          val.toNat / 16 % 16 ^ width * 16 + val.toNat % 16 := by
        rw [pow_succ', Nat.mod_mul, Nat.mul_comm, Nat.add_comm]
      rw [hvalue, ← hlow, ← hhigh]
      exact hnext

theorem div_ten_toNat (val : BitVec 32) : (val / 10).toNat = val.toNat / 10 := BitVec.toNat_udiv

theorem mod_ten_toNat (val : BitVec 32) : (val % 10).toNat = val.toNat % 10 := BitVec.toNat_umod

theorem denotes_decDigits (n : Nat) (val : BitVec 32) (h : val.toNat < 10 ^ n) :
    Denotes decimalDigit 10 (decDigits n val) val.toNat := by
  induction n generalizing val with
  | zero =>
      obtain hzero : val.toNat = 0 := by omega
      rw [hzero]
      exact denotes_nil
  | succ n ih =>
      rw [decDigits]
      split
      · have hmod := mod_ten_toNat val
        have hdiv := div_ten_toNat val
        have hdigit := decimalDigit_ascii (val % 10) (by omega)
        have hrest : (val / 10).toNat < 10 ^ n := by omega
        have hnext := (ih (val / 10) hrest).append_digit hdigit
        rwa [hdiv, hmod, Nat.mul_comm, Nat.div_add_mod] at hnext
      · next hzero =>
        have hval : val.toNat = 0 := by
          rw [gt_iff_lt, BitVec.lt_def] at hzero
          simpa using hzero
        rw [hval]
        exact denotes_nil

theorem head?_decDigits (n : Nat) (val : BitVec 32) (h : val.toNat < 10 ^ n) :
    (decDigits n val).head? ≠ some 0x30 := by
  induction n generalizing val with
  | zero => simp [decDigits]
  | succ n ih =>
      rw [decDigits]
      split
      · next hpos =>
        have hdiv := div_ten_toNat val
        have hmod := mod_ten_toNat val
        have hrest : (val / 10).toNat < 10 ^ n := by omega
        cases hhigh : decDigits n (val / 10) with
        | nil =>
            have hzero := denotes_decDigits n (val / 10) hrest
            rw [hhigh] at hzero
            have hsmall : (val / 10).toNat = 0 := hzero.unique denotes_nil
            have hlast : val.toNat % 10 ≠ 0 := by
              have hlt : 0 < val.toNat := BitVec.lt_def.mp hpos
              omega
            rw [List.nil_append, List.head?_cons, ne_eq, Option.some_inj]
            intro hascii
            have hdigit : ((val % 10).setWidth 8).toNat = 0 := by
              generalize (val % 10).setWidth 8 = d at hascii
              bv_omega
            rw [BitVec.toNat_setWidth] at hdigit
            omega
        | cons c cs =>
            have hhead := ih (val / 10) hrest
            rw [hhigh] at hhead
            exact hhead
      · simp

theorem digits_fit (val : BitVec 32) : val.toNat < 10 ^ 10 := by
  have := val.isLt
  omega

theorem denotes_decText (val : BitVec 32) :
    decText val ≠ [] ∧ Denotes decimalDigit 10 (decText val) val.toNat := by
  rw [decText]
  split
  · next hzero =>
    subst hzero
    exact ⟨List.cons_ne_nil _ _, scan_eq_some_iff.mp (by decide)⟩
  · next hpos =>
    have hdenotes := denotes_decDigits 10 val (digits_fit val)
    refine ⟨fun hnil => ?_, hdenotes⟩
    rw [hnil] at hdenotes
    exact hpos (BitVec.eq_of_toNat_eq (hdenotes.unique denotes_nil))

-- No digit is the terminator, so a numeral is the whole of its string.
theorem cString_of_denotes {digit : Byte → Option Nat} {base v : Nat} {s : List Byte}
    (hzero : digit 0 = none) (h : Denotes digit base s v) : cString s = s := by
  rw [cString_eq_self_iff]
  intro hmem
  obtain ⟨d, hd⟩ := h.digit_of_mem hmem
  exact absurd (hzero.symm.trans hd) (by simp)

theorem printed_numbers_read_back (v : BitVec 32) :
    ((∀ k, Console.printDec v k = k.print (decText v)) ∧ parseNumber (decText v) = some v ∧
      ((decText v).head? = some 0x30 → v = 0)) ∧
    (∀ k, Console.printHex v k = k.print (hexText v)) ∧ parseNumber (hexText v) = some v := by
  have hword : v = BitVec.ofNat 32 v.toNat := by simp
  refine ⟨⟨Console.printDec_eq_print v, ?_, ?_⟩, Console.printHex_eq_print v, ?_⟩
  · obtain ⟨hnil, hdec⟩ := denotes_decText v
    refine parseNumber_some_iff.mpr ⟨v.toNat, ?_, hword⟩
    rw [cString_of_denotes (by decide) hdec]
    exact .decimal hnil hdec
  · intro hhead
    by_contra hpos
    rw [decText, if_neg hpos] at hhead
    exact head?_decDigits 10 v (digits_fit v) hhead
  · have hhex := denotes_hexDigits 8 v
    rw [Nat.mod_eq_of_lt (by have := v.isLt; omega)] at hhex
    refine parseNumber_some_iff.mpr ⟨v.toNat, ?_, hword⟩
    have hcString : cString (hexText v) = 0x30 :: 0x78 :: cString (hexDigits v 8) := rfl
    rw [hcString, cString_of_denotes (by decide) hhex]
    refine .zeroX (Or.inl rfl) ?_ hhex
    rw [hexDigits]
    simp

end CDosX86
