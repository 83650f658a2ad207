import CDosX86.Cpu6502
import CDosX86.LittleEndian
import CDosX86.Mos6502.Exec

namespace CDosX86

open StateMonad Mos6502 LittleEndian

theorem test_bit {w : Nat} (v : BitVec w) (k : Nat) (hk : k < w) :
    (v &&& BitVec.twoPow w k != 0) = v.getLsbD k := by
  rw [BitVec.and_twoPow]
  cases h : v.getLsbD k with
  | false => rfl
  | true =>
      simp only [if_true, bne_iff_ne]
      intro h0
      have := congrArg (fun u => BitVec.getLsbD u k) h0
      simp [hk] at this

theorem test_flagC (p : Byte) : (p &&& flagC ≠ 0) ↔ flag .c p = true := by
  rw [← bne_iff_ne]
  exact Bool.eq_iff_iff.mp (test_bit p 0 (by decide))

section flags

theorem flagIf_eq (on : Bool) (f : Flag) :
    flagIf on (BitVec.twoPow 8 f.bit) =
      modifyCpu fun k => { k with p := putFlag f on k.p } := by
  cases on <;> rfl

theorem setZn_eq (v : Byte) :
    setZn v = modifyCpu fun k => { k with p := putZN v k.p } := by
  have hn : (v &&& 0x80 != 0) = v.msb := test_bit v 7 (by decide)
  simp only [setZn, hn]
  rw [show flagZ = BitVec.twoPow 8 Flag.z.bit from rfl, flagIf_eq,
    show flagN = BitVec.twoPow 8 Flag.n.bit from rfl, flagIf_eq]
  rfl

end flags

section arithmetic

def sum16 (a v : Byte) (c : Bool) : Word :=
  a.setWidth 16 + v.setWidth 16 + if c then 1 else 0

theorem sum16_toNat (a v : Byte) (c : Bool) :
    (sum16 a v c).toNat = a.toNat + v.toNat + c.toNat := by
  have ha := a.isLt
  have hv := v.isLt
  cases c <;> simp [sum16] <;> omega

theorem sum16_carry (a v : Byte) (c : Bool) :
    decide (sum16 a v c > 0xFF) = (addBinary a v c).carry := by
  simp only [addBinary, gt_iff_lt, BitVec.lt_def, sum16_toNat, decide_eq_decide]
  simp
  omega

theorem sum16_value (a v : Byte) (c : Bool) :
    (sum16 a v c).setWidth 8 = (addBinary a v c).value := by
  apply BitVec.eq_of_toNat_eq
  rw [BitVec.toNat_setWidth, sum16_toNat]
  simp [addBinary]

theorem sum16_overflow (a v : Byte) (c : Bool) :
    ((a.setWidth 16 ^^^ sum16 a v c) &&& (v.setWidth 16 ^^^ sum16 a v c) &&& 0x80 != 0) =
      (addBinary a v c).overflow := by
  have hr := sum16_toNat a v c
  have ha := a.isLt
  have hv := v.isLt
  have hc : c.toNat ≤ 1 := c.toNat_le
  have htop : ∀ w : Byte, w.getLsbD 7 = decide (128 ≤ w.toNat) := BitVec.msb_eq_decide
  have hsum : (sum16 a v c).getLsbD 7 = decide (128 ≤ (a.toNat + v.toNat + c.toNat) % 256) := by
    rw [← hr, BitVec.getLsbD, Nat.testBit_eq_decide_div_mod_eq, decide_eq_decide]
    omega
  rw [show (0x80 : Word) = BitVec.twoPow 16 7 from rfl, test_bit _ 7 (by decide)]
  simp only [BitVec.getLsbD_and, BitVec.getLsbD_xor, BitVec.getLsbD_setWidth, hsum, htop,
    addBinary, fitsSigned, BitVec.toInt_eq_toNat_cond]
  rw [Bool.eq_iff_iff]
  simp
  split <;> split <;> omega

theorem doAdc_eq (v : Byte) :
    doAdc v = modifyCpu fun k =>
      { k with
        a := (addBinary k.a v (flag .c k.p)).value
        p := putAlu (addBinary k.a v (flag .c k.p)) k.p } := by
  funext m
  have hsum : m.cpu.a.setWidth 16 + v.setWidth 16 + (if m.cpu.p &&& flagC ≠ 0 then 1 else 0) =
      sum16 m.cpu.a v (flag .c m.cpu.p) := by
    simp only [test_flagC, sum16]
  have hdef : doAdc v m = (do
      let r := sum16 m.cpu.a v (flag .c m.cpu.p)
      flagIf (r > 0xFF) flagC
      flagIf ((m.cpu.a.setWidth 16 ^^^ r) &&& (v.setWidth 16 ^^^ r) &&& 0x80 != 0) flagV
      modifyCpu fun c => { c with a := r.setWidth 8 }
      setZn (r.setWidth 8)) m := by
    rw [← hsum]
    rfl
  rw [hdef]
  simp only [sum16_overflow, sum16_carry, sum16_value, setZn_eq]
  rw [show flagC = BitVec.twoPow 8 Flag.c.bit from rfl, flagIf_eq,
    show flagV = BitVec.twoPow 8 Flag.v.bit from rfl, flagIf_eq]
  rfl

theorem doSbc_eq (v : Byte) :
    doSbc v = modifyCpu fun k =>
      { k with
        a := (subBinary k.a v (flag .c k.p)).value
        p := putAlu (subBinary k.a v (flag .c k.p)) k.p } := by
  simp only [doSbc, doAdc_eq, addBinary_not]

end arithmetic

section shifts

def applyShift (o : Shift) (v : Byte) : M Byte := fun m =>
  ((o.step v m.cpu.p).1, { m with cpu := { m.cpu with p := (o.step v m.cpu.p).2 } })

theorem doAsl_eq (v : Byte) : doAsl v = applyShift .asl v := by
  have h7 : (v &&& 0x80 != 0) = v.getLsbD 7 := test_bit v 7 (by decide)
  simp only [doAsl, setZn_eq, h7]
  rw [show flagC = BitVec.twoPow 8 Flag.c.bit from rfl, flagIf_eq]
  rfl

theorem doLsr_eq (v : Byte) : doLsr v = applyShift .lsr v := by
  have h0 : (v &&& 0x01 != 0) = v.getLsbD 0 := test_bit v 0 (by decide)
  simp only [doLsr, setZn_eq, h0]
  rw [show flagC = BitVec.twoPow 8 Flag.c.bit from rfl, flagIf_eq]
  rfl

theorem doRol_eq (v : Byte) : doRol v = applyShift .rol v := by
  have h7 : (v &&& 0x80 != 0) = v.getLsbD 7 := test_bit v 7 (by decide)
  simp only [doRol, setZn_eq, h7, test_flagC]
  rw [show flagC = BitVec.twoPow 8 Flag.c.bit from rfl, flagIf_eq]
  rfl

theorem doRor_eq (v : Byte) : doRor v = applyShift .ror v := by
  have h0 : (v &&& 0x01 != 0) = v.getLsbD 0 := test_bit v 0 (by decide)
  simp only [doRor, setZn_eq, h0, test_flagC]
  rw [show flagC = BitVec.twoPow 8 Flag.c.bit from rfl, flagIf_eq]
  rfl

end shifts

end CDosX86
