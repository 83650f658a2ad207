import CDosX86.Cpu6502Arith
import CDosX86.Mos6502.MultiByte

namespace CDosX86

open StateMonad LittleEndian MultiByte
open Mos6502 hiding decode

-- `do_adc` or `do_sbc` from the least significant byte on, each byte of the first number put into
-- A before, and taken from there after.
def chain (op : Byte → M Unit) : List Byte → List Byte → M (List Byte)
  | x :: xs, y :: ys => do
      modifyCpu fun c => { c with a := x }
      op y
      let z := (← get).cpu.a
      let zs ← chain op xs ys
      return z :: zs
  | _, _ => return []

def carrySet (m : Machine) : Bool := flag .c m.cpu.p

def added (x y : Byte) (m : Machine) : Machine :=
  { m with
    cpu :=
      { m.cpu with
        a := (addBinary x y (carrySet m)).value
        p := putAlu (addBinary x y (carrySet m)) m.cpu.p } }

theorem chain_cons (x y : Byte) (xs ys : List Byte) (m : Machine) :
    chain doAdc (x :: xs) (y :: ys) m =
      ((addBinary x y (carrySet m)).value :: (chain doAdc xs ys (added x y m)).1,
        (chain doAdc xs ys (added x y m)).2) := by
  rw [chain, doAdc_eq]
  rfl

theorem carrySet_added (x y : Byte) (m : Machine) :
    carrySet (added x y m) = (addBinary x y (carrySet m)).carry :=
  flag_c_putAlu _ _

theorem length_chain {xs ys : List Byte} (hlen : ys.length = xs.length) (m : Machine) :
    (chain doAdc xs ys m).1.length = xs.length := by
  induction xs generalizing ys m with
  | nil => rfl
  | cons x xs ih =>
      obtain ⟨y, ys, rfl⟩ := List.exists_cons_of_length_eq_add_one hlen
      rw [chain_cons, List.length_cons, List.length_cons, ih (by simpa using hlen)]

theorem chain_adds {xs ys : List Byte} (hne : xs ≠ []) (hlen : ys.length = xs.length)
    (m : Machine) :
    Adds xs ys (carrySet m) (chain doAdc xs ys m).1 (chain doAdc xs ys m).2.cpu.p := by
  induction xs generalizing ys m with
  | nil => exact absurd rfl hne
  | cons x xs ih =>
      obtain ⟨y, ys, rfl⟩ := List.exists_cons_of_length_eq_add_one hlen
      have hlen' : ys.length = xs.length := by simpa using hlen
      rw [chain_cons]
      cases xs with
      | nil =>
          obtain rfl := List.length_eq_zero_iff.mp hlen'
          exact adds_single x y _ _
      | cons x' xs =>
          have hrest := ih (List.cons_ne_nil x' xs) hlen' (added x y m)
          have hout := length_chain hlen' (added x y m)
          rw [carrySet_added] at hrest
          refine hrest.cons (List.cons_ne_nil x' xs) ?_ ?_
          · exact List.ne_nil_of_length_eq_add_one hlen'
          · exact List.ne_nil_of_length_eq_add_one hout

theorem chain_doSbc (xs ys : List Byte) : chain doSbc xs ys = chain doAdc xs (complement ys) := by
  induction xs generalizing ys with
  | nil => rfl
  | cons x xs ih =>
      cases ys with
      | nil => rfl
      | cons y ys =>
          have hcons : complement (y :: ys) = ~~~y :: complement ys := rfl
          rw [hcons, chain, chain, ih, doSbc]

theorem chain_sum {xs ys : List Byte} (hne : xs ≠ []) (hlen : ys.length = xs.length)
    (m : Machine) :
    SumOf xs ys (carrySet m) (chain doAdc xs ys m).1 (chain doAdc xs ys m).2.cpu.p :=
  (chain_adds hne hlen m).sum (length_chain hlen m)

theorem chain_difference {xs ys : List Byte} (hne : xs ≠ []) (hlen : ys.length = xs.length)
    (m : Machine) :
    DifferenceOf xs ys (carrySet m) (chain doSbc xs ys m).1 (chain doSbc xs ys m).2.cpu.p := by
  have hlen' : (complement ys).length = xs.length := (length_complement ys).trans hlen
  have hne' : ys ≠ [] := by
    rintro rfl
    exact hne (List.length_eq_zero_iff.mp hlen.symm)
  rw [chain_doSbc]
  exact (chain_adds hne hlen' m).difference (length_chain hlen' m) hlen hne'

theorem chain_restores {xs ys : List Byte} (hne : xs ≠ []) (hlen : ys.length = xs.length)
    {m m' : Machine} (hclear : carrySet m = false) (hset : carrySet m' = true) :
    (chain doSbc (chain doAdc xs ys m).1 ys m').1 = xs := by
  have hsum := (chain_sum hne hlen m).bytes
  have hout := length_chain hlen m
  have hbase : 0 < 256 ^ xs.length := Nat.pow_pos (by decide)
  have hlt := decode_lt xs
  have hvalue : decode (chain doAdc xs ys m).1 = (decode xs + decode ys) % 256 ^ xs.length := by
    rw [hsum, hclear, decode_encode (Nat.mod_lt _ hbase)]
    rfl
  have hne' : (chain doAdc xs ys m).1 ≠ [] := by
    intro hnil
    rw [hnil] at hout
    exact hne (List.length_eq_zero_iff.mp hout.symm)
  have hcast : (256 : Int) ^ xs.length = (256 ^ xs.length : Nat) := by push_cast; rfl
  have hback : ((decode (chain doAdc xs ys m).1 : Int) - decode ys - (!carrySet m').toNat) %
      256 ^ xs.length = decode xs := by
    rw [hvalue, hset, Bool.not_true, Bool.toNat_false, Int.natCast_emod, Int.natCast_zero,
      Int.sub_zero, ← hcast, Int.emod_sub_emod, Nat.cast_add, Int.add_sub_cancel, hcast,
      ← Int.natCast_emod, Nat.mod_eq_of_lt hlt]
  have hdifference := (chain_difference hne' (hlen.trans hout.symm) m').bytes
  rw [hout, hback, Int.toNat_natCast, encode_decode] at hdifference
  exact hdifference

-- Flag D plays no part: `do_adc` and `do_sbc` never look at it.
theorem multi_byte_add_sub {xs ys : List Byte} (hne : xs ≠ []) (hlen : ys.length = xs.length) :
    (∀ m, SumOf xs ys (carrySet m) (chain doAdc xs ys m).1 (chain doAdc xs ys m).2.cpu.p ∧
      DifferenceOf xs ys (carrySet m) (chain doSbc xs ys m).1 (chain doSbc xs ys m).2.cpu.p) ∧
    ∀ m m', carrySet m = false → carrySet m' = true →
      (chain doSbc (chain doAdc xs ys m).1 ys m').1 = xs :=
  ⟨fun m => ⟨chain_sum hne hlen m, chain_difference hne hlen m⟩,
    fun _ _ hclear hset => chain_restores hne hlen hclear hset⟩

theorem multi_byte_add_sub_carries :
    SumOf [0xFF, 0x01] [0x01, 0x00] false [0x00, 0x02] 0 ∧
    (chain doSbc (chain doAdc [0xFF, 0x01] [0x01, 0x00] Machine.zero).1 [0x01, 0x00]
      (orFlag flagC Machine.zero).2).1 = [0xFF, 0x01] := by
  have hlen : [(0x01 : Byte), 0x00].length = [(0xFF : Byte), 0x01].length := rfl
  obtain ⟨hsum, hback⟩ := multi_byte_add_sub (List.cons_ne_nil 0xFF [0x01]) hlen
  exact ⟨(hsum Machine.zero).1,
    hback Machine.zero (orFlag flagC Machine.zero).2 (by decide) (by decide)⟩

end CDosX86
