import CDosX86.Numeral
import CDosX86.ShellParse

namespace CDosX86

open Numeral

def decimalDigit (c : Byte) : Option Nat := (text "0123456789").idxOf? c

def hexadecimalDigit (c : Byte) : Option Nat := (text "0123456789abcdef").idxOf? (lower c)

-- The numbers that a string can denote to `parse_number`.
inductive Literal : List Byte → Nat → Prop
  | dollar {s : List Byte} {v : Nat} : s ≠ [] → Denotes hexadecimalDigit 16 s v →
      Literal (0x24 :: s) v
  | zeroX {x : Byte} {s : List Byte} {v : Nat} : x = 0x78 ∨ x = 0x58 → s ≠ [] →
      Denotes hexadecimalDigit 16 s v → Literal (0x30 :: x :: s) v
  | decimal {s : List Byte} {v : Nat} : s ≠ [] → Denotes decimalDigit 10 s v → Literal s v

theorem digitValue_eq : ∀ c : Byte, digitValue c = (decimalDigit c).map (BitVec.ofNat 32) := by
  decide +kernel

theorem hexDigitValue_eq :
    ∀ c : Byte, hexDigitValue c = (hexadecimalDigit c).map (BitVec.ofNat 32) := by
  decide +kernel

theorem hexadecimalDigit_lt : ∀ c : Byte, ∀ d ∈ hexadecimalDigit c, d < 16 := by
  decide +kernel

theorem not_decimal {s : List Byte} {v : Nat} {c : Byte} (hmem : c ∈ s)
    (hc : decimalDigit c = none) : ¬ Denotes decimalDigit 10 s v := by
  intro h
  obtain ⟨d, hd⟩ := h.digit_of_mem hmem
  exact absurd (hc.symm.trans hd) (by simp)

theorem literal_dollar_iff {s : List Byte} {v : Nat} :
    Literal (0x24 :: s) v ↔ s ≠ [] ∧ Denotes hexadecimalDigit 16 s v := by
  constructor
  · intro h
    cases h with
    | dollar hs hv => exact ⟨hs, hv⟩
    | decimal _ hv => exact absurd hv (not_decimal List.mem_cons_self (by decide))
  · rintro ⟨hs, hv⟩
    exact .dollar hs hv

theorem literal_zeroX_iff {x : Byte} (hx : x = 0x78 ∨ x = 0x58) {s : List Byte} {v : Nat} :
    Literal (0x30 :: x :: s) v ↔ s ≠ [] ∧ Denotes hexadecimalDigit 16 s v := by
  constructor
  · intro h
    cases h with
    | zeroX _ hs hv => exact ⟨hs, hv⟩
    | decimal _ hv =>
        refine absurd hv (not_decimal (List.mem_cons_of_mem _ List.mem_cons_self) ?_)
        rcases hx with rfl | rfl <;> decide
  · rintro ⟨hs, hv⟩
    exact .zeroX hx hs hv

theorem literal_decimal_iff {s : List Byte} {v : Nat} (hdollar : s.head? ≠ some 0x24)
    (hzero : ¬ (s.head? = some 0x30 ∧ (s.tail.head? = some 0x78 ∨ s.tail.head? = some 0x58))) :
    Literal s v ↔ s ≠ [] ∧ Denotes decimalDigit 10 s v := by
  constructor
  · intro h
    cases h with
    | dollar => exact absurd rfl hdollar
    | zeroX hx =>
        refine absurd ⟨rfl, ?_⟩ hzero
        rcases hx with rfl | rfl
        · exact Or.inl rfl
        · exact Or.inr rfl
    | decimal hs hv => exact ⟨hs, hv⟩
  · rintro ⟨hs, hv⟩
    exact .decimal hs hv

theorem shift_hex (val : BitVec 32) {d : Nat} (hd : d < 16) :
    val <<< 4 ||| BitVec.ofNat 32 d = val * 16 + BitVec.ofNat 32 d := by
  have hdisjoint : val <<< 4 &&& BitVec.ofNat 32 d = 0 := by
    ext i hi
    rcases Nat.lt_or_ge i 4 with hlow | hhigh
    · simp [hlow]
    · have hpow : 2 ^ 4 ≤ 2 ^ i := Nat.pow_le_pow_right (by decide) hhigh
      have hbit : (BitVec.ofNat 32 d)[i] = false := by
        rw [← BitVec.getLsbD_eq_getElem, BitVec.getLsbD_ofNat,
          Nat.testBit_lt_two_pow (show d < 2 ^ i by omega), Bool.and_false]
      simp [hbit]
  rw [← BitVec.add_eq_or_of_and_eq_zero _ _ hdisjoint]
  congr 1
  rw [BitVec.shiftLeft_eq_mul_twoPow]
  rfl

theorem scan_cString {digit : Byte → Option Nat} {shift : BitVec 32 → Nat → BitVec 32}
    {parse : BitVec 32 → List Byte → Option (BitVec 32)} (hnil : ∀ val, parse val [] = some val)
    (hcons : ∀ val c s, parse val (c :: s) =
      if c = 0 then some val
      else
        match digit c with
        | some d => parse (shift val d) s
        | none => none) (val : BitVec 32) (s : List Byte) :
    parse val s = scan digit shift val (cString s) := by
  induction s generalizing val with
  | nil => exact hnil val
  | cons c s ih =>
      rw [hcons]
      by_cases hc : c = 0
      · rw [if_pos hc, hc, cString_zero]
        rfl
      · rw [if_neg hc, cString_cons hc, scan]
        cases digit c with
        | none => rfl
        | some d => exact ih (shift val d)

theorem parseHexDigits_eq (val : BitVec 32) (s : List Byte) :
    parseHexDigits val s =
      scan hexadecimalDigit (fun val d => val * 16 + BitVec.ofNat 32 d) val (cString s) := by
  refine scan_cString (fun _ => rfl) (fun val c s => ?_) val s
  rw [parseHexDigits, hexDigitValue_eq]
  cases hd : hexadecimalDigit c with
  | none => rfl
  | some d =>
      dsimp only [Option.map_some]
      rw [shift_hex val (hexadecimalDigit_lt c d hd)]

theorem parseDecDigits_eq (val : BitVec 32) (s : List Byte) :
    parseDecDigits val s =
      scan decimalDigit (fun val d => val * 10 + BitVec.ofNat 32 d) val (cString s) := by
  refine scan_cString (fun _ => rfl) (fun val c s => ?_) val s
  rw [parseDecDigits, digitValue_eq]
  cases decimalDigit c <;> rfl

-- The 32-bit accumulator holds the number modulo 2 ^ 32.
theorem scan_word_iff {digit : Byte → Option Nat} {base : Nat} {s : List Byte} {w : BitVec 32} :
    scan digit (fun val d => val * BitVec.ofNat 32 base + BitVec.ofNat 32 d) 0 s = some w ↔
      ∃ v, Denotes digit base s v ∧ w = BitVec.ofNat 32 v := by
  have hstep : ∀ (acc : Nat) (c : Byte) (d : Nat), digit c = some d →
      BitVec.ofNat 32 (horner base acc d) =
        BitVec.ofNat 32 acc * BitVec.ofNat 32 base + BitVec.ofNat 32 d := by
    intro acc c d _
    rw [horner, BitVec.ofNat_add, BitVec.ofNat_mul]
  have hscan : scan digit
      (fun val d => val * BitVec.ofNat 32 base + BitVec.ofNat 32 d) (BitVec.ofNat 32 0) s =
        (scan digit (horner base) 0 s).map (BitVec.ofNat 32) := scan_map hstep 0 s
  change scan digit _ (BitVec.ofNat 32 0) s = some w ↔ _
  rw [hscan, Option.map_eq_some_iff]
  simp only [scan_eq_some_iff, eq_comm]

theorem parseHexDigits_iff {s : List Byte} {w : BitVec 32} :
    parseHexDigits 0 s = some w ↔
      ∃ v, Denotes hexadecimalDigit 16 (cString s) v ∧ w = BitVec.ofNat 32 v := by
  rw [parseHexDigits_eq]
  exact scan_word_iff

theorem parseDecDigits_iff {s : List Byte} {w : BitVec 32} :
    parseDecDigits 0 s = some w ↔
      ∃ v, Denotes decimalDigit 10 (cString s) v ∧ w = BitVec.ofNat 32 v := by
  rw [parseDecDigits_eq]
  exact scan_word_iff

theorem cString_of_deref {s : List Byte} {c : Byte} (hc : c ≠ 0) (h : deref s = c) :
    cString s = c :: cString s.tail := by
  rw [cString_step, h, if_neg hc]

theorem cString_eq_nil_iff (s : List Byte) : cString s = [] ↔ deref s = 0 := by
  rw [cString_step]
  split
  · next h => exact iff_of_true rfl h
  · next h => exact iff_of_false (List.cons_ne_nil _ _) h

theorem head?_cString {s : List Byte} {c : Byte} (hc : c ≠ 0) :
    (cString s).head? = some c ↔ deref s = c := by
  by_cases h : deref s = 0
  · rw [(cString_eq_nil_iff s).mpr h, h]
    exact iff_of_false (by simp) (Ne.symm hc)
  · rw [cString_of_deref h rfl]
    exact Option.some_inj

theorem nonempty_iff {parse : Option (BitVec 32)} {P : Nat → Prop} {w : BitVec 32}
    (h : parse = some w ↔ ∃ v, P v ∧ w = BitVec.ofNat 32 v) (s : List Byte) :
    (if deref s = 0 then none else parse) = some w ↔
      ∃ v, (cString s ≠ [] ∧ P v) ∧ w = BitVec.ofNat 32 v := by
  split
  · next hend =>
    refine iff_of_false (by simp) ?_
    rintro ⟨v, ⟨hs, -⟩, -⟩
    exact hs ((cString_eq_nil_iff s).mpr hend)
  · next hmore =>
    rw [h]
    simp [mt (cString_eq_nil_iff s).mp hmore]

theorem parseNumber_some_iff {s : List Byte} {w : BitVec 32} :
    parseNumber s = some w ↔ ∃ v, Literal (cString s) v ∧ w = BitVec.ofNat 32 v := by
  rw [parseNumber]
  split
  · next hdollar =>
    rw [cString_of_deref (by decide) hdollar]
    simp only [literal_dollar_iff]
    exact nonempty_iff parseHexDigits_iff s.tail
  · next hdollar =>
    split
    · next hzero =>
      obtain ⟨hfirst, hx⟩ := hzero
      have hsecond : deref s.tail ≠ 0 := by
        rcases hx with h | h <;> rw [h] <;> decide
      have hrest : s.drop 2 = s.tail.tail := by simp [← List.drop_one, List.drop_drop]
      rw [cString_of_deref (by decide) hfirst, cString_of_deref hsecond rfl, hrest]
      simp only [literal_zeroX_iff hx]
      exact nonempty_iff parseHexDigits_iff s.tail.tail
    · next hzero =>
      have hliteral : ∀ v, Literal (cString s) v ↔
          cString s ≠ [] ∧ Denotes decimalDigit 10 (cString s) v := by
        intro v
        refine literal_decimal_iff (mt (head?_cString (by decide)).mp hdollar) ?_
        rintro ⟨hfirst, hx⟩
        have hderef := (head?_cString (by decide)).mp hfirst
        rw [cString_of_deref (by decide) hderef, List.tail_cons, head?_cString (by decide),
          head?_cString (by decide)] at hx
        exact hzero ⟨hderef, hx⟩
      simp only [hliteral]
      exact nonempty_iff parseDecDigits_iff s

theorem Literal.unique {s : List Byte} {v w : Nat} (hv : Literal s v) (hw : Literal s w) :
    v = w := by
  cases hv with
  | dollar _ hv => exact hv.unique (literal_dollar_iff.mp hw).2
  | zeroX hx _ hv => exact hv.unique ((literal_zeroX_iff hx).mp hw).2
  | decimal _ hv =>
      cases hw with
      | dollar => exact absurd hv (not_decimal List.mem_cons_self (by decide))
      | zeroX hx =>
          refine absurd hv (not_decimal (List.mem_cons_of_mem _ List.mem_cons_self) ?_)
          rcases hx with rfl | rfl <;> decide
      | decimal _ hw => exact hv.unique hw

-- What `parse_number` does with the string at `s`, if it takes exactly the numbers below 2 ^ 32.
def ParsesExactly (s : List Byte) : Prop :=
  ∀ w, parseNumber s = some w ↔ Literal (cString s) w.toNat

theorem parse_number_exact_iff (s : List Byte) :
    ParsesExactly s ↔ ∀ v, Literal (cString s) v → v < 2 ^ 32 := by
  constructor
  · intro h v hv
    have hparse : parseNumber s = some (BitVec.ofNat 32 v) := parseNumber_some_iff.mpr ⟨v, hv, rfl⟩
    rw [hv.unique ((h _).mp hparse)]
    exact BitVec.isLt _
  · intro h w
    rw [parseNumber_some_iff]
    constructor
    · rintro ⟨v, hv, rfl⟩
      rwa [BitVec.toNat_ofNat, Nat.mod_eq_of_lt (h v hv)]
    · intro hw
      exact ⟨w.toNat, hw, by simp⟩

theorem parse_number_wraps :
    parseNumber (text "4294967296") = some 0 ∧
      Literal (cString (text "4294967296")) (2 ^ 32) ∧ ¬ ParsesExactly (text "4294967296") := by
  have hparse : parseNumber (text "4294967296") = some 0 := by decide
  have hdenotes : Denotes decimalDigit 10 (cString (text "4294967296")) (2 ^ 32) :=
    scan_eq_some_iff.mp (by decide)
  have hlarge := Literal.decimal (by decide) hdenotes
  refine ⟨hparse, hlarge, fun hexact => ?_⟩
  have hzero := (hexact 0).mp hparse
  exact absurd (hlarge.unique hzero) (by decide)

end CDosX86
