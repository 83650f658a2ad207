import Mathlib.Data.List.TakeDrop

namespace BoundedQueue

variable {α : Type}

def offer (cap : Nat) (q : List α) (x : α) : List α :=
  if q.length < cap then q ++ [x] else q

def feed (cap : Nat) (q : List α) (xs : List α) : List α :=
  xs.foldl (offer cap) q

variable {cap : Nat} {q : List α}

theorem offer_room (h : q.length < cap) (x : α) : offer cap q x = q ++ [x] := if_pos h

theorem offer_full (h : cap ≤ q.length) (x : α) : offer cap q x = q := if_neg (by omega)

theorem length_offer (h : q.length ≤ cap) (x : α) : (offer cap q x).length ≤ cap := by
  rcases Nat.lt_or_ge q.length cap with hroom | hfull
  · rw [offer_room hroom]
    simp
    omega
  · rwa [offer_full hfull]

theorem feed_full (h : cap ≤ q.length) (xs : List α) : feed cap q xs = q := by
  induction xs with
  | nil => rfl
  | cons x xs ih =>
      change feed cap (offer cap q x) xs = q
      rw [offer_full h]
      exact ih

theorem feed_eq_take (h : q.length ≤ cap) (xs : List α) :
    feed cap q xs = q ++ xs.take (cap - q.length) := by
  induction xs generalizing q with
  | nil => simp [feed]
  | cons x xs ih =>
      change feed cap (offer cap q x) xs = _
      rcases Nat.lt_or_ge q.length cap with hroom | hfull
      · rw [ih (length_offer h x), offer_room hroom]
        obtain ⟨k, hk⟩ : ∃ k, cap - q.length = k + 1 := ⟨cap - q.length - 1, by omega⟩
        have hrest : cap - (q ++ [x]).length = k := by simp; omega
        rw [hrest, hk, List.take_succ_cons, List.append_assoc]
        rfl
      · rw [offer_full hfull, feed_full hfull, Nat.sub_eq_zero_of_le hfull]
        simp

theorem feed_keeps_all_iff (h : q.length ≤ cap) (xs : List α) :
    feed cap q xs = q ++ xs ↔ q.length + xs.length ≤ cap := by
  rw [feed_eq_take h, List.append_cancel_left_eq, List.take_eq_self_iff]
  omega

end BoundedQueue
