import CDosX86.BitRing
import CDosX86.ChainArith

namespace CDosX86

open StateMonad LittleEndian MultiByte
open Mos6502 hiding decode

-- `do_rol` or `do_ror` on each byte, the carry threaded through P: upwards from the least
-- significant byte, or downwards from the most significant one.
def eachUp (op : Byte → M Byte) : List Byte → M (List Byte)
  | [] => return []
  | x :: xs => do
      let y ← op x
      let ys ← eachUp op xs
      return y :: ys

def eachDown (op : Byte → M Byte) : List Byte → M (List Byte)
  | [] => return []
  | x :: xs => do
      let ys ← eachDown op xs
      let y ← op x
      return y :: ys

def shiftUp : List Byte → M (List Byte)
  | [] => return []
  | x :: xs => do
      let y ← doAsl x
      let ys ← eachUp doRol xs
      return y :: ys

def shiftDown : List Byte → M (List Byte)
  | [] => return []
  | [x] => return [← doLsr x]
  | x :: xs => do
      let ys ← shiftDown xs
      let y ← doRor x
      return y :: ys

theorem carrySet_applyShift (o : Shift) (v : Byte) (m : Machine) :
    carrySet (applyShift o v m).2 = o.carry v := by
  simp [carrySet, applyShift, Shift.step, putZN]

theorem length_eachUp (op : Byte → M Byte) (xs : List Byte) (m : Machine) :
    (eachUp op xs m).1.length = xs.length := by
  induction xs generalizing m with
  | nil => rfl
  | cons x xs ih => exact congrArg (· + 1) (ih (op x m).2)

theorem length_eachDown (op : Byte → M Byte) (xs : List Byte) (m : Machine) :
    (eachDown op xs m).1.length = xs.length := by
  induction xs generalizing m with
  | nil => rfl
  | cons x xs ih => exact congrArg (· + 1) (ih m)

theorem eachUp_doubles (xs : List Byte) (m : Machine) :
    Doubles xs (carrySet m) (eachUp doRol xs m).1 (carrySet (eachUp doRol xs m).2) := by
  induction xs generalizing m with
  | nil => exact doubles_nil _
  | cons x xs ih =>
      have hrest := ih (applyShift .rol x m).2
      rw [carrySet_applyShift] at hrest
      rw [eachUp, doRol_eq]
      exact hrest.cons (carrySet m)

theorem eachDown_halves (xs : List Byte) (m : Machine) :
    Halves xs (carrySet m) (eachDown doRor xs m).1 (carrySet (eachDown doRor xs m).2) := by
  induction xs generalizing m with
  | nil => exact halves_nil _
  | cons x xs ih =>
      have hrest := (ih m).cons x
      rw [eachDown, doRor_eq]
      rw [← carrySet_applyShift .ror x (eachDown doRor xs m).2] at hrest
      exact hrest

theorem shiftUp_doubles {xs : List Byte} (hne : xs ≠ []) (m : Machine) :
    Doubles xs false (shiftUp xs m).1 (carrySet (shiftUp xs m).2) := by
  cases xs with
  | nil => exact absurd rfl hne
  | cons x xs =>
      have hrest := eachUp_doubles xs (applyShift .asl x m).2
      have hasl : Shift.asl.apply (carrySet m) x = Shift.rol.apply false x := by
        simp [Shift.apply]
      rw [carrySet_applyShift] at hrest
      have hall := Doubles.cons (x := x) hrest false
      rw [← hasl] at hall
      rw [shiftUp, doAsl_eq]
      exact hall

theorem shiftDown_halves {xs : List Byte} (hne : xs ≠ []) (m : Machine) :
    Halves xs false (shiftDown xs m).1 (carrySet (shiftDown xs m).2) := by
  induction xs with
  | nil => exact absurd rfl hne
  | cons x xs ih =>
      cases xs with
      | nil =>
          have hlsr : Shift.lsr.apply (carrySet m) x = Shift.ror.apply false x := by
            simp [Shift.apply]
          have hone := (halves_nil false).cons x
          rw [← hlsr, show Shift.ror.carry x = Shift.lsr.carry x from rfl,
            ← carrySet_applyShift .lsr x m] at hone
          rw [shiftDown, doLsr_eq]
          exact hone
      | cons x' xs =>
          have hrest := (ih (List.cons_ne_nil x' xs)).cons x
          rw [← carrySet_applyShift .ror x (shiftDown (x' :: xs) m).2] at hrest
          rw [shiftDown, doRor_eq]
          · exact hrest
          · exact List.cons_ne_nil x' xs

theorem length_shiftUp (xs : List Byte) (m : Machine) :
    (shiftUp xs m).1.length = xs.length := by
  cases xs with
  | nil => rfl
  | cons x xs => exact congrArg (· + 1) (length_eachUp doRol xs _)

theorem length_shiftDown (xs : List Byte) (m : Machine) :
    (shiftDown xs m).1.length = xs.length := by
  induction xs with
  | nil => rfl
  | cons x xs ih =>
      cases xs with
      | nil => rfl
      | cons x' xs => exact congrArg (· + 1) ih

def rotateUp (s : List Byte × Machine) : List Byte × Machine := eachUp doRol s.1 s.2

def rotateDown (s : List Byte × Machine) : List Byte × Machine := eachDown doRor s.1 s.2

-- The bytes and the carry as one ring of bits, the carry at its top.
def ring (s : List Byte × Machine) : Nat :=
  decode s.1 + 256 ^ s.1.length * (carrySet s.2).toNat

theorem ring_lt (s : List Byte × Machine) : ring s < 2 * 256 ^ s.1.length := by
  have hlt := decode_lt s.1
  rw [ring]
  cases carrySet s.2 with
  | false => simp only [Bool.toNat_false]; omega
  | true => simp only [Bool.toNat_true]; omega

theorem ring_inj {s s' : List Byte × Machine} (hlen : s.1.length = s'.1.length)
    (h : ring s = ring s') : s.1 = s'.1 ∧ carrySet s.2 = carrySet s'.2 := by
  obtain ⟨hbytes, hcarry⟩ := carry_out (show _ = ring s from rfl)
  obtain ⟨hbytes', hcarry'⟩ := carry_out (show _ = ring s' from rfl)
  rw [hlen, h] at hbytes hcarry
  exact ⟨hbytes.trans hbytes'.symm, hcarry.trans hcarry'.symm⟩

theorem ring_rotateUp (s : List Byte × Machine) :
    ring (rotateUp s) = BitRing.turn (256 ^ s.1.length) (ring s) :=
  (eachUp_doubles s.1 s.2).trans (BitRing.turn_add (decode_lt s.1) _).symm

theorem ring_rotateDown (s : List Byte × Machine) :
    ring (rotateDown s) = BitRing.unturn (256 ^ s.1.length) (ring s) := by
  have hhalves := eachDown_halves s.1 s.2
  have hlen := length_eachDown doRor s.1 s.2
  have hbit := (carrySet (eachDown doRor s.1 s.2).2).toNat_le
  rw [Halves, hlen] at hhalves
  have hhigh : ring s / 2 = decode (eachDown doRor s.1 s.2).1 := by
    rw [ring]
    omega
  have hlow : ring s % 2 = (carrySet (eachDown doRor s.1 s.2).2).toNat := by
    rw [ring]
    omega
  rw [BitRing.unturn, hhigh, hlow, ring, rotateDown, hlen]

theorem restores {f : List Byte × Machine → List Byte × Machine} {g : Nat → Nat → Nat}
    (hlen : ∀ s, (f s).1.length = s.1.length)
    (hring : ∀ s, ring (f s) = g (256 ^ s.1.length) (ring s))
    (hg : ∀ {base k r : Nat}, 2 ^ k = 2 * base → r < 2 * base → (g base)^[k] r = r)
    (s : List Byte × Machine) :
    (f^[8 * s.1.length + 1] s).1 = s.1 ∧ carrySet (f^[8 * s.1.length + 1] s).2 = carrySet s.2 := by
  have hiterate : ∀ k, (f^[k] s).1.length = s.1.length ∧
      ring (f^[k] s) = (g (256 ^ s.1.length))^[k] (ring s) := by
    intro k
    induction k with
    | zero => exact ⟨rfl, rfl⟩
    | succ k ih =>
        rw [Function.iterate_succ_apply', Function.iterate_succ_apply', hlen, hring, ih.1, ih.2]
        exact ⟨rfl, rfl⟩
  obtain ⟨hlength, hturned⟩ := hiterate (8 * s.1.length + 1)
  have hbase : 2 ^ (8 * s.1.length + 1) = 2 * 256 ^ s.1.length := by
    rw [Nat.pow_succ, Nat.pow_mul, Nat.mul_comm]
  rw [hg hbase (ring_lt s)] at hturned
  exact ring_inj hlength hturned

theorem multi_byte_shifts {xs : List Byte} (hne : xs ≠ []) (m : Machine) :
    ((shiftUp xs m).1 = encode xs.length (2 * decode xs % 256 ^ xs.length) ∧
      carrySet (shiftUp xs m).2 = (decode xs).testBit (8 * xs.length - 1)) ∧
    ((shiftDown xs m).1 = encode xs.length (decode xs / 2) ∧
      carrySet (shiftDown xs m).2 = (decode xs).testBit 0) ∧
    ((rotateUp^[8 * xs.length + 1] (xs, m)).1 = xs ∧
      carrySet (rotateUp^[8 * xs.length + 1] (xs, m)).2 = carrySet m) ∧
    ((rotateDown^[8 * xs.length + 1] (xs, m)).1 = xs ∧
      carrySet (rotateDown^[8 * xs.length + 1] (xs, m)).2 = carrySet m) := by
  refine ⟨?_, ?_, ?_, ?_⟩
  · have hlen := length_shiftUp xs m
    obtain ⟨hbytes, hcarry⟩ := carry_out (shiftUp_doubles hne m)
    rw [hlen] at hbytes hcarry
    rw [testBit_top hne]
    exact ⟨hbytes, hcarry⟩
  · have hlen := length_shiftDown xs m
    have hhalves := shiftDown_halves hne m
    have hbit := (carrySet (shiftDown xs m).2).toNat_le
    rw [Halves, Bool.toNat_false, Nat.mul_zero, Nat.add_zero] at hhalves
    have hhalf : decode xs / 2 = decode (shiftDown xs m).1 := by omega
    have hlow : decode xs % 2 = (carrySet (shiftDown xs m).2).toNat := by omega
    rw [hhalf, ← hlen, encode_decode, Nat.testBit_zero, hlow]
    exact ⟨rfl, by cases carrySet (shiftDown xs m).2 <;> rfl⟩
  · exact restores (fun s => length_eachUp doRol s.1 s.2) ring_rotateUp
      (fun hk hr => BitRing.turn_restores hk hr) (xs, m)
  · exact restores (fun s => length_eachDown doRor s.1 s.2) ring_rotateDown
      (fun hk hr => BitRing.unturn_restores hk hr) (xs, m)

theorem multi_byte_shifts_two_bytes :
    (shiftUp [0x80, 0x41] Machine.zero).1 = encode 2 (2 * 0x4180 % 256 ^ 2) ∧
    (rotateUp^[17] ([0x80, 0x41], Machine.zero)).1 = [0x80, 0x41] :=
  ⟨(multi_byte_shifts (List.cons_ne_nil 0x80 [0x41]) Machine.zero).1.1,
    (multi_byte_shifts (List.cons_ne_nil 0x80 [0x41]) Machine.zero).2.2.1.1⟩

end CDosX86
