import CDosX86.Console
import CDosX86.FirstDifference
import Mathlib.Data.List.TakeWhile
import Mathlib.Order.Nat

namespace CDosX86

open FirstDifference

-- A list stands for the bytes a pointer reaches; behind its last byte comes the terminator.
def deref (s : List Byte) : Byte := s.headD 0

def cString (s : List Byte) : List Byte := s.takeWhile (· ≠ 0)

theorem cString_eq_self_iff (s : List Byte) : cString s = s ↔ 0 ∉ s := by
  rw [cString, List.takeWhile_eq_self_iff]
  constructor
  · intro h hmem
    simpa using h 0 hmem
  · intro h c hc
    have hne : c ≠ 0 := fun hzero => h (hzero ▸ hc)
    simpa using hne

theorem cString_append_of_mem {a : List Byte} (h : 0 ∈ a) (rest : List Byte) :
    cString (a ++ rest) = cString a := by
  have hlen : (cString a).length ≠ a.length := fun hlen =>
    (cString_eq_self_iff a).mp ((List.takeWhile_prefix _).eq_of_length hlen) h
  exact List.takeWhile_append.trans (if_neg hlen)

theorem length_cString_lt {a : List Byte} (h : 0 ∈ a) : (cString a).length < a.length := by
  refine lt_of_le_of_ne (List.takeWhile_prefix _).length_le fun hlen => ?_
  exact (cString_eq_self_iff a).mp ((List.takeWhile_prefix _).eq_of_length hlen) h

def lower (c : Byte) : Byte := if c ≥ 0x41 ∧ c ≤ 0x5A then c + 32 else c

def lowerDiff (x y : Byte) : Int := ((lower x).toNat : Int) - (lower y).toNat

def kStrcasecmp : List Byte → List Byte → Int
  | [], b => lowerDiff 0 (deref b)
  | x :: a, b =>
      if x ≠ 0 ∧ lower x = lower (deref b) then kStrcasecmp a b.tail else lowerDiff x (deref b)

def kStrncasecmp : List Byte → List Byte → Nat → Int
  | _, _, 0 => 0
  | [], b, _ + 1 => lowerDiff 0 (deref b)
  | x :: a, b, n + 1 =>
      if x ≠ 0 ∧ lower x = lower (deref b) then kStrncasecmp a b.tail n
      else lowerDiff x (deref b)

theorem lower_eq_zero_iff (c : Byte) : lower c = 0 ↔ c = 0 := by
  unfold lower
  split
  · next h =>
    constructor
    · intro hz
      bv_omega
    · rintro rfl
      exact absurd h.1 (by decide)
  · exact Iff.rfl

theorem cString_zero (s : List Byte) : cString (0 :: s) = [] :=
  List.takeWhile_cons_of_neg (by simp)

theorem cString_cons {c : Byte} (hc : c ≠ 0) (s : List Byte) : cString (c :: s) = c :: cString s :=
  List.takeWhile_cons_of_pos (by simpa using hc)

theorem cString_append_of_notMem {a : List Byte} (h : 0 ∉ a) (rest : List Byte) :
    cString (a ++ rest) = a ++ cString rest := by
  have hlen := congrArg List.length ((cString_eq_self_iff a).mpr h)
  exact List.takeWhile_append.trans (if_pos hlen)

theorem cString_terminated {a : List Byte} (h : 0 ∉ a) (rest : List Byte) :
    cString (a ++ 0 :: rest) = a := by
  rw [cString_append_of_notMem h, cString_zero, List.append_nil]

theorem cString_step (s : List Byte) :
    cString s = if deref s = 0 then [] else deref s :: cString s.tail := by
  cases s with
  | nil => rfl
  | cons c s =>
      change _ = if c = 0 then [] else c :: cString s
      split
      · next hc => rw [hc, cString_zero]
      · next hc => rw [cString_cons hc]

theorem kStrcasecmp_step (s t : List Byte) :
    kStrcasecmp s t =
      if deref s ≠ 0 ∧ lower (deref s) = lower (deref t) then kStrcasecmp s.tail t.tail
      else lowerDiff (deref s) (deref t) := by
  cases s with
  | nil => exact (if_neg fun h => h.1 rfl).symm
  | cons c s => rfl

theorem kStrncasecmp_step (s t : List Byte) (n : Nat) :
    kStrncasecmp s t (n + 1) =
      if deref s ≠ 0 ∧ lower (deref s) = lower (deref t) then kStrncasecmp s.tail t.tail n
      else lowerDiff (deref s) (deref t) := by
  cases s with
  | nil => exact (if_neg fun h => h.1 rfl).symm
  | cons c s => rfl

def foldCase (s : List Byte) : List Nat := (cString s).map fun c => (lower c).toNat

def foldedPrefix (n : Nat) (s : List Byte) : List Nat := (foldCase s).take n

theorem foldCase_step (s : List Byte) :
    foldCase s = if deref s = 0 then [] else (lower (deref s)).toNat :: foldCase s.tail := by
  rw [foldCase, cString_step]
  split <;> rfl

theorem zero_notMem_foldCase (s : List Byte) : 0 ∉ foldCase s := by
  intro hmem
  obtain ⟨c, hc, hzero⟩ := List.mem_map.mp hmem
  have hlower : lower c = 0 := BitVec.eq_of_toNat_eq hzero
  rw [lower_eq_zero_iff] at hlower
  simpa [hlower] using List.mem_takeWhile_imp hc

-- The difference of the first two bytes, folded, that are not alike.
def firstDifference (s t : List Nat) : Int := ((firstDiff s t).1 : Int) - (firstDiff s t).2

theorem headD_foldedPrefix (n : Nat) (s : List Byte) :
    (foldedPrefix (n + 1) s).headD 0 = (lower (deref s)).toNat := by
  rw [foldedPrefix, foldCase_step]
  split
  · next h =>
    rw [h]
    rfl
  · rfl

theorem foldedPrefix_step {s : List Byte} (h : deref s ≠ 0) (n : Nat) :
    foldedPrefix (n + 1) s = (lower (deref s)).toNat :: foldedPrefix n s.tail := by
  rw [foldedPrefix, foldCase_step, if_neg h, List.take_succ_cons, foldedPrefix]

theorem foldedPrefix_end {s : List Byte} (h : deref s = 0) (n : Nat) : foldedPrefix n s = [] := by
  rw [foldedPrefix, foldCase_step, if_pos h, List.take_nil]

theorem goes_on {s t : List Byte} (h : deref s ≠ 0 ∧ lower (deref s) = lower (deref t)) :
    deref t ≠ 0 := by
  rw [ne_eq, ← lower_eq_zero_iff, ← h.2, lower_eq_zero_iff]
  exact h.1

theorem kStrncasecmp_eq (s t : List Byte) (n : Nat) :
    kStrncasecmp s t n = firstDifference (foldedPrefix n s) (foldedPrefix n t) := by
  induction n generalizing s t with
  | zero =>
      have hzero : kStrncasecmp s t 0 = 0 := by cases s <;> rfl
      rw [hzero, foldedPrefix, foldedPrefix, List.take_zero, List.take_zero]
      rfl
  | succ n ih =>
      rw [kStrncasecmp_step, firstDifference]
      by_cases hsame : deref s ≠ 0 ∧ lower (deref s) = lower (deref t)
      · rw [if_pos hsame, ih, foldedPrefix_step hsame.1, foldedPrefix_step (goes_on hsame), hsame.2,
          firstDiff_cons_self]
        rfl
      · have hfirst : foldedPrefix (n + 1) s = [] ∨
            (foldedPrefix (n + 1) s).headD 0 ≠ (foldedPrefix (n + 1) t).headD 0 := by
          by_cases hs : deref s = 0
          · exact Or.inl (foldedPrefix_end hs (n + 1))
          · rw [headD_foldedPrefix, headD_foldedPrefix, ne_eq, BitVec.toNat_inj]
            exact Or.inr fun heq => hsame ⟨hs, heq⟩
        rw [if_neg hsame, firstDiff_of_head hfirst, lowerDiff, ← headD_foldedPrefix n s,
          ← headD_foldedPrefix n t]
        rfl

theorem kStrncasecmp_long {s : List Byte} {n : Nat} (h : (cString s).length < n) (t : List Byte) :
    kStrncasecmp s t n = kStrcasecmp s t := by
  induction n generalizing s t with
  | zero => omega
  | succ n ih =>
      rw [kStrncasecmp_step, kStrcasecmp_step]
      split
      · next hsame =>
        rw [cString_step, if_neg hsame.1, List.length_cons] at h
        exact ih (by omega) t.tail
      · rfl

theorem kStrcasecmp_eq (s t : List Byte) :
    kStrcasecmp s t = firstDifference (foldCase s) (foldCase t) := by
  have hlen : (foldCase s).length = (cString s).length := List.length_map _
  have hlt : (foldCase s).length < (cString s).length + 1 := by omega
  rw [← kStrncasecmp_long (Nat.lt_succ_self _) t, kStrncasecmp_eq, foldedPrefix, foldedPrefix,
    List.take_of_length_le (Nat.le_of_lt hlt), firstDifference, firstDiff_take hlt, firstDifference]

theorem firstDifference_swap (s t : List Nat) : firstDifference t s = -firstDifference s t := by
  rw [firstDifference, firstDiff_swap s t, firstDifference, Prod.fst_swap, Prod.snd_swap]
  omega

theorem kStrncasecmp_swap (s t : List Byte) (n : Nat) :
    kStrncasecmp t s n = -kStrncasecmp s t n := by
  rw [kStrncasecmp_eq, kStrncasecmp_eq, firstDifference_swap]

theorem kStrcasecmp_swap (s t : List Byte) : kStrcasecmp t s = -kStrcasecmp s t := by
  rw [kStrcasecmp_eq, kStrcasecmp_eq, firstDifference_swap]

theorem zero_notMem_foldedPrefix (n : Nat) (s : List Byte) : 0 ∉ foldedPrefix n s :=
  fun h => zero_notMem_foldCase s (List.mem_of_mem_take h)

theorem kStrncasecmp_neg_iff (s t : List Byte) (n : Nat) :
    kStrncasecmp s t n < 0 ↔ foldedPrefix n s < foldedPrefix n t := by
  rw [← firstDiff_lt_iff (zero_notMem_foldedPrefix n s) (zero_notMem_foldedPrefix n t),
    kStrncasecmp_eq, firstDifference]
  omega

theorem firstDifference_eq_zero_iff {s t : List Nat} (hs : 0 ∉ s) (ht : 0 ∉ t) :
    firstDifference s t = 0 ↔ s = t := by
  rw [← firstDiff_eq_iff hs ht, firstDifference]
  omega

theorem kStrncasecmp_zero_iff (s t : List Byte) (n : Nat) :
    kStrncasecmp s t n = 0 ↔ foldedPrefix n s = foldedPrefix n t := by
  rw [kStrncasecmp_eq, firstDifference_eq_zero_iff (zero_notMem_foldedPrefix n s)
    (zero_notMem_foldedPrefix n t)]

theorem kStrcasecmp_zero_iff (s t : List Byte) :
    kStrcasecmp s t = 0 ↔ foldCase s = foldCase t := by
  rw [kStrcasecmp_eq, firstDifference_eq_zero_iff (zero_notMem_foldCase s)
    (zero_notMem_foldCase t)]

theorem kStrncasecmp_whole {s t : List Byte} {n : Nat}
    (h : (cString s).length < n ∨ (cString t).length < n) :
    kStrncasecmp s t n = kStrcasecmp s t := by
  rcases h with hs | ht
  · exact kStrncasecmp_long hs t
  · rw [kStrncasecmp_swap t s, kStrncasecmp_long ht, kStrcasecmp_swap s t, Int.neg_neg]

def SameName (a b : List Byte) : Prop := a.map lower = b.map lower

instance (a b : List Byte) : Decidable (SameName a b) := inferInstanceAs (Decidable (_ = _))

theorem SameName.zero_notMem {a b : List Byte} (h : SameName a b) (ha : 0 ∉ a) : 0 ∉ b := by
  intro hmem
  have hlower : (0 : Byte) ∈ b.map lower := List.mem_map.mpr ⟨0, hmem, rfl⟩
  rw [← h] at hlower
  obtain ⟨c, hc, hzero⟩ := List.mem_map.mp hlower
  exact ha ((lower_eq_zero_iff c).mp hzero ▸ hc)

theorem SameName.length_eq {a b : List Byte} (h : SameName a b) : a.length = b.length := by
  simpa using congrArg List.length h

theorem foldCase_eq_iff (s t : List Byte) :
    foldCase s = foldCase t ↔ SameName (cString s) (cString t) := by
  have hfold : ∀ s, foldCase s = ((cString s).map lower).map BitVec.toNat := fun s => by
    rw [foldCase, List.map_map, Function.comp_def]
  rw [hfold, hfold, SameName, List.map_inj_right fun _ _ => BitVec.eq_of_toNat_eq]

theorem kStrncasecmp_cString {a b : List Byte} (hb : 0 ∉ b) {n : Nat}
    (hn : min (cString a).length b.length < n) :
    kStrncasecmp a b n = 0 ↔ SameName (cString a) b := by
  have hname := (cString_eq_self_iff b).mpr hb
  have hwhole : kStrncasecmp a b n = kStrcasecmp a b :=
    kStrncasecmp_whole (by rw [hname]; omega)
  rw [hwhole, kStrcasecmp_zero_iff, foldCase_eq_iff, hname]

theorem kStrncasecmp_eq_zero_iff {a b : List Byte} (ha : 0 ∉ a) (hb : 0 ∉ b) {n : Nat}
    (hn : a.length < n) (rest : List Byte) :
    kStrncasecmp (a ++ 0 :: rest) b n = 0 ↔ SameName a b := by
  have hname := cString_terminated ha rest
  have h := kStrncasecmp_cString (a := a ++ 0 :: rest) hb (n := n) (by rw [hname]; omega)
  rwa [hname] at h

theorem kStrcasecmp_eq_zero_iff {a b : List Byte} (ha : 0 ∉ a) (hb : 0 ∉ b) :
    kStrcasecmp a b = 0 ↔ SameName a b := by
  rw [kStrcasecmp_zero_iff, foldCase_eq_iff, (cString_eq_self_iff a).mpr ha,
    (cString_eq_self_iff b).mpr hb]

theorem sameName_cString_iff {a b : List Byte} (hb : 0 ∉ b) (hlen : a.length ≤ b.length) :
    SameName (cString a) b ↔ SameName a b := by
  have hself : SameName (cString a) b ∨ SameName a b → cString a = a := by
    rintro (h | h)
    · exact (List.takeWhile_prefix _).eq_of_length_le (hlen.trans_eq h.length_eq.symm)
    · exact (cString_eq_self_iff a).mpr (SameName.zero_notMem h.symm hb)
  constructor
  · intro h
    rwa [hself (Or.inl h)] at h
  · intro h
    rwa [hself (Or.inr h)]

theorem foldedPrefix_eq (n : Nat) (s : List Byte) : foldedPrefix n s = foldCase (s.take n) := by
  rw [foldedPrefix, foldCase, foldCase, ← List.map_take, cString, List.take_takeWhile, cString]

theorem kStrncasecmp_prefix_iff {b : List Byte} (hb : 0 ∉ b) (a : List Byte) :
    kStrncasecmp a b b.length = 0 ↔ SameName (a.take b.length) b := by
  rw [kStrncasecmp_zero_iff, foldedPrefix_eq, foldedPrefix_eq, foldCase_eq_iff, List.take_length,
    (cString_eq_self_iff b).mpr hb]
  exact sameName_cString_iff hb (List.length_take_le _ _)

end CDosX86
