import CDosX86.Mos6502.Stack

namespace Mos6502

def lowDigit (b : Byte) : Nat := b.toNat % 16

def highDigit (b : Byte) : Nat := b.toNat / 16

def IsBcd (b : Byte) : Prop := lowDigit b ≤ 9 ∧ highDigit b ≤ 9

instance (b : Byte) : Decidable (IsBcd b) := inferInstanceAs (Decidable (_ ∧ _))

def bcdValue (b : Byte) : Nat := 10 * highDigit b + lowDigit b

def toBcd (n : Nat) : Byte := BitVec.ofNat 8 (16 * (n / 10) + n % 10)

theorem toBcd_toNat {n : Nat} (hn : n < 100) : (toBcd n).toNat = 16 * (n / 10) + n % 10 := by
  simp only [toBcd, BitVec.toNat_ofNat]
  omega

theorem bcdValue_toBcd {n : Nat} (hn : n < 100) : bcdValue (toBcd n) = n := by
  simp only [bcdValue, highDigit, lowDigit, toBcd_toNat hn]
  omega

theorem isBcd_toBcd {n : Nat} (hn : n < 100) : IsBcd (toBcd n) := by
  simp only [IsBcd, highDigit, lowDigit, toBcd_toNat hn]
  omega

inductive Arith where
  | adc | sbc
  deriving DecidableEq, Repr

namespace Arith

def instr : Arith → Mode → Instr
  | .adc => .adc
  | .sbc => .sbc

def binary : Arith → Byte → Byte → Bool → AluResult
  | .adc => addBinary
  | .sbc => subBinary

-- Before the result is reduced to two digits.
def decimalTotal : Arith → Byte → Byte → Bool → Int
  | .adc, a, m, c => bcdValue a + bcdValue m + c.toNat
  | .sbc, a, m, c => bcdValue a - bcdValue m - (1 - c.toNat)

def decimalCarry : Arith → Int → Bool
  | .adc, total => decide (100 ≤ total)
  | .sbc, total => decide (0 ≤ total)

def Decimal (o : Arith) (a m : Byte) (c : Bool) (value : Byte) (carry : Bool) : Prop :=
  value = toBcd (o.decimalTotal a m c % 100).toNat ∧ carry = o.decimalCarry (o.decimalTotal a m c)

instance (o : Arith) (a m : Byte) (c : Bool) (value : Byte) (carry : Bool) :
    Decidable (o.Decimal a m c value carry) :=
  inferInstanceAs (Decidable (_ ∧ _))

def DigitsStay : Arith → Byte → Byte → Bool → Prop
  | .adc, a, m, c => lowDigit a + lowDigit m + c.toNat ≤ 9 ∧ highDigit a + highDigit m ≤ 9
  | .sbc, a, m, c => lowDigit m + (1 - c.toNat) ≤ lowDigit a ∧ highDigit m ≤ highDigit a

theorem Decimal.digits {o : Arith} {a m value : Byte} {c carry : Bool}
    (h : o.Decimal a m c value carry) :
    IsBcd value ∧ (bcdValue value : Int) = o.decimalTotal a m c % 100 := by
  obtain ⟨rfl, -⟩ := h
  have hlt : (o.decimalTotal a m c % 100).toNat < 100 := by omega
  refine ⟨isBcd_toBcd hlt, ?_⟩
  rw [bcdValue_toBcd hlt]
  omega

theorem add_digits_iff {l h : Nat} (hl : l ≤ 19) (hh : h ≤ 18) :
    (16 * h + l) % 256 = 16 * ((10 * h + l) % 100 / 10) + (10 * h + l) % 100 % 10 ∧
        (256 ≤ 16 * h + l ↔ 100 ≤ 10 * h + l) ↔
      l ≤ 9 ∧ h ≤ 9 := by
  by_cases hlow : l ≤ 9 <;> by_cases hhigh : h ≤ 9
  · have hsum : (10 * h + l) % 100 = 10 * h + l := by omega
    have htens : (10 * h + l) / 10 = h := by omega
    rw [hsum, htens]
    omega
  · omega
  · omega
  · omega

theorem sub_digits_iff {l h : Int} (hl : -10 ≤ l ∧ l ≤ 9) (hh : -9 ≤ h ∧ h ≤ 9) :
    (16 * h + l) % 256 = 16 * ((10 * h + l) % 100 / 10) + (10 * h + l) % 100 % 10 ∧
        (0 ≤ 16 * h + l ↔ 0 ≤ 10 * h + l) ↔
      0 ≤ l ∧ 0 ≤ h := by
  by_cases hlow : 0 ≤ l <;> by_cases hhigh : 0 ≤ h
  · have hsum : (10 * h + l) % 100 = 10 * h + l := by omega
    have htens : (10 * h + l) / 10 = h := by omega
    rw [hsum, htens]
    omega
  · omega
  · omega
  · omega

theorem addBinary_value (a m : Byte) (c : Bool) :
    (addBinary a m c).value.toNat =
      (16 * (highDigit a + highDigit m) + (lowDigit a + lowDigit m + c.toNat)) % 256 := by
  have hc := c.toNat_le
  simp only [addBinary, highDigit, lowDigit, BitVec.toNat_add, BitVec.toNat_ofNat]
  omega

theorem subBinary_value (a m : Byte) (c : Bool) :
    ((subBinary a m c).value.toNat : Int) =
      (16 * ((highDigit a : Int) - highDigit m) +
        ((lowDigit a : Int) - lowDigit m - (1 - c.toNat))) % 256 := by
  have hnot : (!c).toNat = 1 - c.toNat := by cases c <;> rfl
  have hc := c.toNat_le
  simp only [subBinary, highDigit, lowDigit, BitVec.toNat_sub, BitVec.toNat_ofNat, hnot]
  omega

theorem adc_decimal_iff {a m : Byte} (c : Bool) (ha : IsBcd a) (hm : IsBcd m) :
    adc.Decimal a m c (addBinary a m c).value (addBinary a m c).carry ↔ adc.DigitsStay a m c := by
  have hc := c.toNat_le
  have hdigits := add_digits_iff (l := lowDigit a + lowDigit m + c.toNat)
    (h := highDigit a + highDigit m) (by grind [IsBcd]) (by grind [IsBcd])
  have htotal : adc.decimalTotal a m c =
      ((10 * (highDigit a + highDigit m) + (lowDigit a + lowDigit m + c.toNat) : Nat) : Int) := by
    simp only [decimalTotal, bcdValue]
    omega
  have hcarry : (addBinary a m c).carry = decide
      (256 ≤ 16 * (highDigit a + highDigit m) + (lowDigit a + lowDigit m + c.toNat)) := by
    refine decide_eq_decide.mpr ?_
    simp only [highDigit, lowDigit]
    omega
  rw [Decimal, htotal, ← BitVec.toNat_inj, toBcd_toNat (by omega), addBinary_value, hcarry,
    decimalCarry, decide_eq_decide, DigitsStay, ← hdigits]
  clear hdigits htotal hcarry ha hm hc
  generalize 10 * (highDigit a + highDigit m) + (lowDigit a + lowDigit m + c.toNat) = total
  omega

theorem sbc_decimal_iff {a m : Byte} (c : Bool) (ha : IsBcd a) (hm : IsBcd m) :
    sbc.Decimal a m c (subBinary a m c).value (subBinary a m c).carry ↔ sbc.DigitsStay a m c := by
  have hc := c.toNat_le
  have hnot : (!c).toNat = 1 - c.toNat := by cases c <;> rfl
  have hdigits := sub_digits_iff (l := (lowDigit a : Int) - lowDigit m - (1 - c.toNat))
    (h := (highDigit a : Int) - highDigit m) (by grind [IsBcd]) (by grind [IsBcd])
  have htotal : sbc.decimalTotal a m c =
      10 * ((highDigit a : Int) - highDigit m) +
        ((lowDigit a : Int) - lowDigit m - (1 - c.toNat)) := by
    simp only [decimalTotal, bcdValue]
    omega
  have hcarry : (subBinary a m c).carry = decide
      (0 ≤ 16 * ((highDigit a : Int) - highDigit m) +
        ((lowDigit a : Int) - lowDigit m - (1 - c.toNat))) := by
    refine decide_eq_decide.mpr ?_
    simp only [highDigit, lowDigit, hnot]
    omega
  rw [Decimal, htotal, ← BitVec.toNat_inj, toBcd_toNat (by omega), ← Int.natCast_inj,
    subBinary_value, hcarry, decimalCarry, decide_eq_decide, DigitsStay]
  have hstay : (0 ≤ (lowDigit a : Int) - lowDigit m - (1 - c.toNat) ∧
      0 ≤ (highDigit a : Int) - highDigit m) ↔
      lowDigit m + (1 - c.toNat) ≤ lowDigit a ∧ highDigit m ≤ highDigit a := by omega
  rw [← hstay, ← hdigits]
  generalize 10 * ((highDigit a : Int) - highDigit m) +
    ((lowDigit a : Int) - lowDigit m - (1 - c.toNat)) = total
  omega

theorem binary_decimal_iff (o : Arith) {a m : Byte} (c : Bool) (ha : IsBcd a) (hm : IsBcd m) :
    o.Decimal a m c (o.binary a m c).value (o.binary a m c).carry ↔ o.DigitsStay a m c := by
  cases o with
  | adc => exact adc_decimal_iff c ha hm
  | sbc => exact sbc_decimal_iff c ha hm

end Arith

section

variable {δ : Type} [StackBus δ]

theorem operand_keeps (md : Mode) (s : Cpu δ) :
    (operand md s).2.a = s.a ∧ (operand md s).2.p = s.p := by
  cases md <;> exact ⟨rfl, rfl⟩

@[simp] theorem flag_c_putAlu (r : AluResult) (p : Byte) : flag .c (putAlu r p) = r.carry := by
  simp [putAlu, putZN]

theorem exec_arith (o : Arith) (md : Mode) (s : Cpu δ) :
    (exec (o.instr md) s).2 =
      { (operand md s).2 with
        a := (o.binary (operand md s).2.a (operand md s).1 (flag .c (operand md s).2.p)).value
        p := putAlu (o.binary (operand md s).2.a (operand md s).1 (flag .c (operand md s).2.p))
          (operand md s).2.p } := by
  cases o <;> rfl

theorem step_arith {s : Cpu δ} {o : Arith} {md : Mode} (h : executes s = some (o.instr md)) :
    (step s).a = (o.binary s.a (operand md (fetch s).2).1 (flag .c s.p)).value ∧
      flag .c (step s).p = (o.binary s.a (operand md (fetch s).2).1 (flag .c s.p)).carry := by
  obtain ⟨ha, hp⟩ := operand_keeps md (fetch s).2
  have hfetch : (fetch s).2.a = s.a ∧ (fetch s).2.p = s.p := ⟨rfl, rfl⟩
  rw [step_eq h, exec_arith, flag_c_putAlu, ha, hp, hfetch.1, hfetch.2]
  exact ⟨rfl, rfl⟩

theorem step_decimal_iff {s : Cpu δ} {o : Arith} {md : Mode} (h : executes s = some (o.instr md))
    (ha : IsBcd s.a) (hm : IsBcd (operand md (fetch s).2).1) :
    o.Decimal s.a (operand md (fetch s).2).1 (flag .c s.p) (step s).a (flag .c (step s).p) ↔
      o.DigitsStay s.a (operand md (fetch s).2).1 (flag .c s.p) := by
  obtain ⟨hvalue, hcarry⟩ := step_arith h
  rw [hvalue, hcarry]
  exact o.binary_decimal_iff _ ha hm

end

end Mos6502
