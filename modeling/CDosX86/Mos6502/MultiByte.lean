import CDosX86.LittleEndian
import CDosX86.Mos6502.Decimal

namespace MultiByte

open LittleEndian
open Mos6502 hiding decode

theorem addBinary_total (a b : Byte) (c : Bool) :
    (addBinary a b c).value.toNat + 256 * (addBinary a b c).carry.toNat =
      a.toNat + b.toNat + c.toNat := by
  have ha := a.isLt
  have hb := b.isLt
  have hc := c.toNat_le
  simp only [addBinary, BitVec.toNat_add, BitVec.toNat_ofNat]
  by_cases h : 256 ≤ a.toNat + b.toNat + c.toNat
  · simp only [h, decide_true, Bool.toNat_true]
    omega
  · simp only [h, decide_false, Bool.toNat_false]
    omega

-- What is known of the bytes `out` and of the flags in `p` after a chain of additions: they are
-- the sum of two numbers as wide as `out` and of the carry that goes into it.
structure Adds (xs ys : List Byte) (c : Bool) (out : List Byte) (p : Byte) : Prop where
  total : decode out + 256 ^ out.length * (flag .c p).toNat = decode xs + decode ys + c.toNat
  overflow : flag .v p = !decide (Fits out.length (signed xs + signed ys + c.toNat))
  negative : flag .n p = decide (256 ^ out.length ≤ 2 * decode out)

theorem adds_single (x y : Byte) (c : Bool) (p : Byte) :
    Adds [x] [y] c [(addBinary x y c).value] (putAlu (addBinary x y c) p) where
  total := by
    have h := addBinary_total x y c
    rw [flag_c_putAlu]
    simp only [decode, List.length_singleton, Nat.pow_one]
    omega
  overflow := by
    have hfits : ∀ k, fitsSigned k = decide (Fits 1 k) := by
      intro k
      refine decide_eq_decide.mpr ?_
      rw [Fits]
      omega
    rw [signed_singleton, signed_singleton, List.length_singleton, ← hfits]
    simp [putAlu, putZN, addBinary]
  negative := by
    rw [putAlu, putZN, flag_putFlag, if_pos rfl, BitVec.msb_eq_decide]
    refine decide_eq_decide.mpr ?_
    simp only [decode, List.length_singleton, Nat.pow_one]
    omega

theorem Adds.cons {x y : Byte} {xs ys out : List Byte} {c : Bool} {p : Byte}
    (h : Adds xs ys (addBinary x y c).carry out p) (hx : xs ≠ []) (hy : ys ≠ []) (hout : out ≠ []) :
    Adds (x :: xs) (y :: ys) c ((addBinary x y c).value :: out) p where
  total := by
    have hlow := addBinary_total x y c
    have hhigh := h.total
    rw [decode, decode, decode, List.length_cons, Nat.pow_succ, Nat.mul_right_comm]
    omega
  overflow := by
    have hlow := addBinary_total x y c
    have hsum : signed (x :: xs) + signed (y :: ys) + c.toNat =
        (addBinary x y c).value.toNat +
          256 * (signed xs + signed ys + (addBinary x y c).carry.toNat) := by
      rw [signed_cons x hx, signed_cons y hy]
      omega
    have hlt : (addBinary x y c).value.toNat < 256 := (addBinary x y c).value.isLt
    rw [h.overflow, hsum, List.length_cons]
    simp only [fits_cons (List.length_eq_zero_iff.not.mpr hout) hlt]
  negative := by
    have hlt := (addBinary x y c).value.isLt
    have heven := even_pow (List.length_eq_zero_iff.not.mpr hout)
    rw [h.negative, decide_eq_decide, decode, List.length_cons, Nat.pow_succ]
    generalize 256 ^ out.length = base at heven ⊢
    omega

def complement (ys : List Byte) : List Byte := ys.map fun y => ~~~y

structure SumOf (xs ys : List Byte) (c : Bool) (out : List Byte) (p : Byte) : Prop where
  bytes : out = encode xs.length ((decode xs + decode ys + c.toNat) % 256 ^ xs.length)
  carry : flag .c p = decide (256 ^ xs.length ≤ decode xs + decode ys + c.toNat)
  overflow : flag .v p = !decide (Fits xs.length (signed xs + signed ys + c.toNat))
  negative : flag .n p = decide (256 ^ xs.length ≤ 2 * decode out)

structure DifferenceOf (xs ys : List Byte) (c : Bool) (out : List Byte) (p : Byte) : Prop where
  bytes : out = encode xs.length
    ((decode xs - decode ys - (!c).toNat : Int) % 256 ^ xs.length).toNat
  carry : flag .c p = decide (decode ys + (!c).toNat ≤ decode xs)
  overflow : flag .v p = !decide (Fits xs.length (signed xs - signed ys - (!c).toNat))
  negative : flag .n p = decide (256 ^ xs.length ≤ 2 * decode out)

section

variable {xs ys out : List Byte} {c : Bool} {p : Byte}

theorem Adds.sum (h : Adds xs ys c out p) (hlen : out.length = xs.length) :
    SumOf xs ys c out p := by
  obtain ⟨hbytes, hcarry⟩ := carry_out h.total
  have hoverflow := h.overflow
  have hnegative := h.negative
  rw [hlen] at hbytes hcarry hoverflow hnegative
  exact ⟨hbytes, hcarry, hoverflow, hnegative⟩

theorem decode_complement (ys : List Byte) :
    decode (complement ys) + decode ys + 1 = 256 ^ ys.length := by
  induction ys with
  | nil => rfl
  | cons y ys ih =>
      have hy := y.isLt
      have hcons : complement (y :: ys) = ~~~y :: complement ys := rfl
      rw [List.length_cons, Nat.pow_succ, ← ih, hcons, decode, decode, BitVec.toNat_not]
      omega

theorem length_complement (ys : List Byte) : (complement ys).length = ys.length := List.length_map _

theorem signed_complement (hne : ys ≠ []) : signed (complement ys) = -1 - signed ys := by
  have hnot := decode_complement ys
  have heven := even_pow (List.length_eq_zero_iff.not.mpr hne)
  have hcast : (256 : Int) ^ ys.length = (256 ^ ys.length : Nat) := by push_cast; rfl
  rw [signed, signed, length_complement, hcast]
  generalize 256 ^ ys.length = base at hnot heven ⊢
  split_ifs <;> omega

theorem Adds.difference (h : Adds xs (complement ys) c out p) (hlen : out.length = xs.length)
    (hlen' : ys.length = xs.length) (hne : ys ≠ []) : DifferenceOf xs ys c out p := by
  obtain ⟨hbytes, hcarry, hoverflow, hnegative⟩ := h.sum hlen
  have hnot := decode_complement ys
  have hcast : (256 : Int) ^ xs.length = (256 ^ xs.length : Nat) := by push_cast; rfl
  have hc : (!c).toNat + c.toNat = 1 := by cases c <;> rfl
  rw [signed_complement hne] at hoverflow
  rw [hlen'] at hnot
  refine ⟨?_, ?_, ?_, hnegative⟩
  · have hborrow : (decode xs - decode ys - (!c).toNat : Int) =
        (decode xs + decode (complement ys) + c.toNat : Nat) + 256 ^ xs.length * (-1) := by
      rw [hcast]
      omega
    rw [hborrow, Int.add_mul_emod_self_left, hcast, ← Int.natCast_emod, Int.toNat_natCast]
    exact hbytes
  · rw [hcarry]
    refine decide_eq_decide.mpr ?_
    omega
  · have hsum : signed xs + (-1 - signed ys) + c.toNat = signed xs - signed ys - (!c).toNat := by
      omega
    rw [hoverflow, hsum]

end

-- The number `xs`, moved up by one bit: `c` comes in below and `c'` goes out above.
def Doubles (xs : List Byte) (c : Bool) (out : List Byte) (c' : Bool) : Prop :=
  decode out + 256 ^ out.length * c'.toNat = 2 * decode xs + c.toNat

-- The number `xs`, moved down by one bit: `c` comes in above and `c'` goes out below.
def Halves (xs : List Byte) (c : Bool) (out : List Byte) (c' : Bool) : Prop :=
  2 * decode out + c'.toNat = decode xs + 256 ^ out.length * c.toNat

theorem rol_total (c : Bool) (x : Byte) :
    (Shift.rol.apply c x).toNat + 256 * (Shift.rol.carry x).toNat = 2 * x.toNat + c.toNat := by
  have hall : ∀ (c : Bool) (x : Byte),
      (Shift.rol.apply c x).toNat + 256 * (Shift.rol.carry x).toNat = 2 * x.toNat + c.toNat := by
    decide
  exact hall c x

theorem ror_total (c : Bool) (x : Byte) :
    2 * (Shift.ror.apply c x).toNat + (Shift.ror.carry x).toNat = x.toNat + 256 * c.toNat := by
  have hall : ∀ (c : Bool) (x : Byte),
      2 * (Shift.ror.apply c x).toNat + (Shift.ror.carry x).toNat = x.toNat + 256 * c.toNat := by
    decide
  exact hall c x

theorem doubles_nil (c : Bool) : Doubles [] c [] c := by simp [Doubles, decode]

theorem halves_nil (c : Bool) : Halves [] c [] c := by simp [Halves, decode]

theorem Doubles.cons {xs out : List Byte} {x : Byte} {c' : Bool}
    (h : Doubles xs (Shift.rol.carry x) out c') (c : Bool) :
    Doubles (x :: xs) c (Shift.rol.apply c x :: out) c' := by
  have hlow := rol_total c x
  rw [Doubles] at h ⊢
  rw [decode, decode, List.length_cons, Nat.pow_succ, Nat.mul_right_comm]
  omega

theorem Halves.cons {xs out : List Byte} {c c' : Bool} (h : Halves xs c out c') (x : Byte) :
    Halves (x :: xs) c (Shift.ror.apply c' x :: out) (Shift.ror.carry x) := by
  have hlow := ror_total c' x
  rw [Halves] at h ⊢
  rw [decode, decode, List.length_cons, Nat.pow_succ, Nat.mul_right_comm]
  omega

end MultiByte
