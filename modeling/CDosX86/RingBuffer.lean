import CDosX86.CyclicList
import Mathlib.Algebra.GroupWithZero.Nat
import Mathlib.Data.List.DropRight
import Mathlib.Logic.Function.Basic
import Mathlib.Tactic.Common

structure RingBuffer (n : Nat) (α : Type) where
  slot : Fin n → α
  next : Fin n

namespace RingBuffer

variable {n : Nat} {α : Type} [NeZero n]

def back (r : RingBuffer n α) (count i : Nat) : Fin n := Fin.ofNat n (r.next + n - count + i)

def dump (r : RingBuffer n α) (count : Nat) : List α :=
  (List.range count).map fun i => r.slot (r.back count i)

def push (x : α) (r : RingBuffer n α) : RingBuffer n α where
  slot := Function.update r.slot r.next x
  next := Fin.ofNat n (r.next + 1)

theorem back_push (x : α) (r : RingBuffer n α) {count i : Nat} (hcount : count < n) :
    (r.push x).back (count + 1) i = r.back count i := by
  have hlt := r.next.isLt
  apply Fin.ext
  change ((r.next + 1) % n + n - (count + 1) + i) % n = (r.next + n - count + i) % n
  rcases Nat.lt_or_ge (r.next + 1) n with hroom | hwrap
  · rw [Nat.mod_eq_of_lt hroom]
    congr 1
    omega
  · have hlast : (r.next : Nat) + 1 = n := by omega
    have hnext : (r.next : Nat) + n - count + i = (n - (count + 1) + i) + n := by omega
    rw [hlast, Nat.mod_self, hnext, Nat.add_mod_right, Nat.zero_add]

theorem back_self (r : RingBuffer n α) {count : Nat} (hcount : count ≤ n) :
    r.back count count = r.next := by
  have hlt := r.next.isLt
  apply Fin.ext
  change (r.next + n - count + count) % n = r.next
  rw [Nat.sub_add_cancel (by omega), Nat.add_mod_right, Nat.mod_eq_of_lt hlt]

theorem back_ne_next (r : RingBuffer n α) {count i : Nat} (hcount : count < n) (hi : i < count) :
    r.back count i ≠ r.next := by
  have hlt := r.next.isLt
  intro h
  have hval : (r.next + n - count + i) % n = r.next := congrArg Fin.val h
  rcases Nat.lt_or_ge (r.next + n - count + i) n with hroom | hwrap
  · rw [Nat.mod_eq_of_lt hroom] at hval
    omega
  · rw [Nat.mod_eq_sub_mod hwrap, Nat.mod_eq_of_lt (by omega)] at hval
    omega

theorem dump_push (x : α) (r : RingBuffer n α) {count : Nat} (hcount : count < n) :
    (r.push x).dump (count + 1) = r.dump count ++ [x] := by
  have hslot : ∀ i, (r.push x).slot ((r.push x).back (count + 1) i) =
      Function.update r.slot r.next x (r.back count i) := by
    intro i
    rw [back_push x r hcount]
    rfl
  simp only [dump, hslot, List.range_succ, List.map_append, List.map_singleton]
  rw [back_self r hcount.le, Function.update_self]
  congr 1
  apply List.map_congr_left
  intro i hi
  exact Function.update_of_ne (r.back_ne_next hcount (List.mem_range.mp hi)) _ _

def Records (d : α) (log : List α) (r : RingBuffer n α) : Prop :=
  ∀ count ≤ n, r.dump count = (log.rtake count).leftpad count d

theorem Records.of_const {d : α} {r : RingBuffer n α} (h : ∀ i, r.slot i = d) : r.Records d [] := by
  intro count _
  simp [dump, h, List.leftpad, List.map_const']

theorem leftpad_concat (d x : α) (l : List α) (count : Nat) :
    (l ++ [x]).leftpad (count + 1) d = l.leftpad count d ++ [x] := by
  simp [List.leftpad]

theorem Records.push {d : α} {log : List α} {r : RingBuffer n α} (h : r.Records d log) (x : α) :
    (r.push x).Records d (log ++ [x]) := by
  intro count hcount
  cases count with
  | zero => simp [dump]
  | succ count =>
      rw [dump_push x r hcount, List.rtake_concat_succ, leftpad_concat, h count (by omega)]

-- The slots in the order of their numbers, wherever the next one to be written is.
def listing (r : RingBuffer n α) : List α := List.ofFn r.slot

theorem dump_eq_rotate (r : RingBuffer n α) : r.dump n = r.listing.rotate r.next := by
  apply List.ext_getElem
  · simp [dump, listing]
  · intro i hi hi'
    rw [List.getElem_rotate]
    simp only [dump, listing, List.getElem_map, List.getElem_range, List.getElem_ofFn,
      List.length_ofFn]
    congr 1
    apply Fin.ext
    change (r.next + n - n + i) % n = (i + r.next) % n
    rw [Nat.add_sub_cancel, Nat.add_comm]

section

variable {d : α} {log : List α} {r : RingBuffer n α} (h : r.Records d log)
  (hnext : (r.next : Nat) = log.length % n)

include h hnext

theorem rotate_listing : r.listing.rotate log.length = (log.rtake n).leftpad n d := by
  have hlen : r.listing.length = n := List.length_ofFn
  have hrotate := List.rotate_mod r.listing log.length
  rw [hlen] at hrotate
  rw [← hrotate, ← hnext, ← dump_eq_rotate, h n le_rfl]

theorem listing_of_short (hshort : log.length ≤ n) : r.listing = log.rightpad n d := by
  have hall : log.rtake n = log := by rw [List.rtake, Nat.sub_eq_zero_of_le hshort, List.drop_zero]
  apply List.rotate_injective log.length
  change r.listing.rotate log.length = (log ++ List.replicate (n - log.length) d).rotate log.length
  rw [rotate_listing h hnext, hall, List.rotate_append_length_eq, List.leftpad]

theorem listing_eq_iff (hfull : n ≤ log.length) :
    r.listing = log.rtake n ↔ CyclicList.Repeats (Nat.gcd log.length n) (log.rtake n) := by
  have hlen : (log.rtake n).length = n := by
    rw [List.rtake, List.length_drop]
    omega
  have hrotate := rotate_listing h hnext
  rw [List.leftpad, hlen, Nat.sub_self, List.replicate_zero, List.nil_append] at hrotate
  have hiff := CyclicList.rotate_eq_self_iff (log.rtake n) log.length
  rw [hlen] at hiff
  rw [← hiff]
  constructor
  · intro hlisting
    rwa [hlisting] at hrotate
  · intro hself
    exact List.rotate_injective log.length (hrotate.trans hself.symm)

end

end RingBuffer
