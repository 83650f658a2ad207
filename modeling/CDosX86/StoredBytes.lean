import CDosX86.LittleEndian
import Mathlib.Data.List.Basic

namespace StoredBytes

open LittleEndian

variable {mem : Nat → BitVec 8}

def Stored (mem : Nat → BitVec 8) (off : Nat) (bytes : List (BitVec 8)) : Prop :=
  ∀ k, (h : k < bytes.length) → mem (off + k) = bytes[k]

theorem stored_append {off : Nat} {a b : List (BitVec 8)} :
    Stored mem off (a ++ b) ↔ Stored mem off a ∧ Stored mem (off + a.length) b := by
  constructor
  · intro h
    refine ⟨fun k hk => ?_, fun k hk => ?_⟩
    · rw [h k (by rw [List.length_append]; omega), List.getElem_append_left hk]
    · rw [Nat.add_assoc, h (a.length + k) (by rw [List.length_append]; omega),
        List.getElem_append_right (Nat.le_add_right _ _)]
      congr 1
      omega
  · rintro ⟨ha, hb⟩ k hk
    rw [List.length_append] at hk
    rcases Nat.lt_or_ge k a.length with hlt | hge
    · rw [List.getElem_append_left hlt, ha k hlt]
    · have hk' := hb (k - a.length) (by omega)
      rw [List.getElem_append_right hge, ← hk']
      congr 1
      omega

theorem Stored.congr {mem' : Nat → BitVec 8} {off : Nat} {bytes : List (BitVec 8)}
    (h : Stored mem off bytes) (hsame : ∀ k < bytes.length, mem' (off + k) = mem (off + k)) :
    Stored mem' off bytes :=
  fun k hk => (hsame k hk).trans (h k hk)

theorem stored_flatten {off w : Nat} {blocks : List (List (BitVec 8))}
    (h : Stored mem off blocks.flatten) (hw : ∀ b ∈ blocks, b.length = w) {i : Nat}
    (hi : i < blocks.length) : Stored mem (off + w * i) blocks[i] := by
  induction blocks generalizing off i with
  | nil => cases hi
  | cons b blocks ih =>
      rw [List.flatten_cons, stored_append, hw b List.mem_cons_self] at h
      cases i with
      | zero => exact h.1
      | succ i =>
          have hrest := ih h.2 (fun c hc => hw c (List.mem_cons_of_mem b hc))
            (i := i) (by simpa using hi)
          rw [Nat.add_assoc, Nat.add_comm w, ← Nat.mul_succ] at hrest
          exact hrest

def u32At (mem : Nat → BitVec 8) (off : Nat) : BitVec 32 :=
  BitVec.ofNat 32 (decode [mem off, mem (off + 1), mem (off + 2), mem (off + 3)])

theorem u32At_stored {off value : Nat} (hvalue : value < 2 ^ 32)
    (h : Stored mem off (encode 4 value)) : u32At mem off = BitVec.ofNat 32 value := by
  have hbytes : [mem off, mem (off + 1), mem (off + 2), mem (off + 3)] = encode 4 value := by
    apply List.ext_getElem (by simp)
    intro k hk hk'
    rw [← h k hk']
    have hlt : k < 4 := hk
    interval_cases k <;> rfl
  rw [u32At, hbytes, decode_encode hvalue]

end StoredBytes
