import Mathlib.Tactic.IntervalCases

namespace LittleEndian

theorem word_of_bytes (lo hi : BitVec 8) :
    (lo.setWidth 16 ||| hi.setWidth 16 <<< 8 : BitVec 16) = hi ++ lo := by
  ext k hk
  simp only [BitVec.getElem_or, BitVec.getElem_setWidth, BitVec.getElem_shiftLeft]
  grind

theorem high_byte (w : BitVec 16) : (w >>> 8 &&& 0xFF).setWidth 8 = w.extractLsb' 8 8 := by
  ext k hk
  interval_cases k <;> simp

theorem low_byte (w : BitVec 16) : (w &&& 0xFF).setWidth 8 = w.extractLsb' 0 8 := by
  ext k hk
  interval_cases k <;> simp

def encode : Nat → Nat → List (BitVec 8)
  | 0, _ => []
  | width + 1, value => BitVec.ofNat 8 value :: encode width (value / 256)

def decode : List (BitVec 8) → Nat
  | [] => 0
  | b :: bs => b.toNat + 256 * decode bs

@[simp] theorem length_encode (width value : Nat) : (encode width value).length = width := by
  induction width generalizing value with
  | zero => rfl
  | succ width ih => rw [encode, List.length_cons, ih]

theorem decode_encode {width value : Nat} (h : value < 256 ^ width) :
    decode (encode width value) = value := by
  induction width generalizing value with
  | zero => simp at h; simp [encode, decode, h]
  | succ width ih =>
      rw [Nat.pow_succ] at h
      rw [encode, decode, ih (by omega), BitVec.toNat_ofNat]
      omega

theorem decode_lt (bytes : List (BitVec 8)) : decode bytes < 256 ^ bytes.length := by
  induction bytes with
  | nil => exact Nat.one_pos
  | cons b bytes ih =>
      have hb := b.isLt
      rw [decode, List.length_cons, Nat.pow_succ]
      omega

theorem encode_decode (bytes : List (BitVec 8)) : encode bytes.length (decode bytes) = bytes := by
  induction bytes with
  | nil => rfl
  | cons b bytes ih =>
      have hb := b.isLt
      have hlow : BitVec.ofNat 8 (b.toNat + 256 * decode bytes) = b := by
        rw [← BitVec.toNat_inj, BitVec.toNat_ofNat]
        omega
      have hhigh : (b.toNat + 256 * decode bytes) / 256 = decode bytes := by omega
      rw [decode, List.length_cons, encode, hlow, hhigh, ih]

-- A total that bytes and the carry out of them make up, taken apart again.
theorem carry_out {bytes : List (BitVec 8)} {carry : Bool} {total : Nat}
    (h : decode bytes + 256 ^ bytes.length * carry.toNat = total) :
    bytes = encode bytes.length (total % 256 ^ bytes.length) ∧
      carry = decide (256 ^ bytes.length ≤ total) := by
  have hlt := decode_lt bytes
  have hmod : total % 256 ^ bytes.length = decode bytes := by
    rw [← h, Nat.add_mul_mod_self_left, Nat.mod_eq_of_lt hlt]
  refine ⟨by rw [hmod, encode_decode], ?_⟩
  subst h
  cases carry <;> simp [hlt]

theorem testBit_top {bytes : List (BitVec 8)} (h : bytes ≠ []) :
    (decode bytes).testBit (8 * bytes.length - 1) =
      decide (256 ^ bytes.length ≤ 2 * decode bytes) := by
  have hlt := decode_lt bytes
  have hpos := List.length_pos_iff.mpr h
  have hbits : 8 * bytes.length = 8 * bytes.length - 1 + 1 := by omega
  have hbase : 256 ^ bytes.length = 2 * 2 ^ (8 * bytes.length - 1) := by
    calc 256 ^ bytes.length = 2 ^ (8 * bytes.length) := (Nat.pow_mul 2 8 bytes.length).symm
      _ = 2 ^ (8 * bytes.length - 1 + 1) := congrArg (2 ^ ·) hbits
      _ = 2 * 2 ^ (8 * bytes.length - 1) := Nat.pow_succ'
  rw [hbase] at hlt ⊢
  rw [Nat.testBit_eq_decide_div_mod_eq, decide_eq_decide]
  generalize 2 ^ (8 * bytes.length - 1) = half at hlt ⊢
  rcases Nat.lt_or_ge (decode bytes) half with hlow | hhigh
  · rw [Nat.div_eq_of_lt hlow]
    omega
  · have hone : decode bytes / half = 1 := Nat.div_eq_of_lt_le (by omega) (by omega)
    rw [hone]
    omega

def signed (bytes : List (BitVec 8)) : Int :=
  if 2 * decode bytes < 256 ^ bytes.length then decode bytes
  else decode bytes - 256 ^ bytes.length

-- The numbers that `width` bytes hold in two's complement.
def Fits (width : Nat) (k : Int) : Prop := -256 ^ width ≤ 2 * k ∧ 2 * k < 256 ^ width

instance (width : Nat) (k : Int) : Decidable (Fits width k) := inferInstanceAs (Decidable (_ ∧ _))

theorem even_pow {width : Nat} (h : width ≠ 0) : 2 ∣ 256 ^ width :=
  dvd_pow (show 2 ∣ 256 by decide) h

theorem signed_cons (b : BitVec 8) {bytes : List (BitVec 8)} (h : bytes ≠ []) :
    signed (b :: bytes) = b.toNat + 256 * signed bytes := by
  have hb := b.isLt
  have heven := even_pow (List.length_eq_zero_iff.not.mpr h)
  simp only [signed, decode, List.length_cons, Nat.pow_succ, Int.pow_succ]
  have hcast : (256 : Int) ^ bytes.length = (256 ^ bytes.length : Nat) := by push_cast; rfl
  rw [hcast]
  generalize 256 ^ bytes.length = base at heven ⊢
  split_ifs <;> omega

theorem signed_singleton (b : BitVec 8) : signed [b] = b.toInt := by
  simp [signed, decode, BitVec.toInt_eq_toNat_cond]

theorem fits_cons {width : Nat} (h : width ≠ 0) {low : Nat} (hlow : low < 256) (k : Int) :
    Fits (width + 1) (low + 256 * k) ↔ Fits width k := by
  have heven := even_pow h
  have hcast : (256 : Int) ^ width = (256 ^ width : Nat) := by push_cast; rfl
  rw [Fits, Fits, Int.pow_succ, hcast]
  generalize 256 ^ width = base at heven ⊢
  omega

end LittleEndian
