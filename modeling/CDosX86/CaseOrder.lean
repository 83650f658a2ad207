import CDosX86.KString

namespace CDosX86

-- `char` is signed.
def lowerChar (c : Byte) : Byte :=
  if c.toInt ≥ 0x41 ∧ c.toInt ≤ 0x5A then BitVec.ofInt 8 (c.toInt + 32) else c

-- `none` is a read outside of `a` or `b`. Where the first string ends, the return reads the second.
def kStrncasecmpMem (a b : List Byte) : Nat → Nat → Option Int
  | 0, _ => some 0
  | n + 1, i => do
      let x ← a[i]?
      let y ← b[i]?
      if x ≠ 0 ∧ (lowerChar x).toInt = (lowerChar y).toInt then kStrncasecmpMem a b n (i + 1)
      else return ((lowerChar x).toNat : Int) - (lowerChar y).toNat

-- The bytes of `s` up to its terminator, no more than `n`.
def extent (n : Nat) (s : List Byte) : List Byte := (cString s ++ [0]).take n

theorem lowerChar_eq : ∀ c : Byte, lowerChar c = lower c := by decide +kernel

theorem extent_step (n : Nat) (s : List Byte) :
    extent (n + 1) s = deref s :: if deref s = 0 then [] else extent n s.tail := by
  rw [extent, cString_step]
  split
  · next h => rw [h, List.nil_append, List.take_succ_cons, List.take_nil]
  · rfl

theorem prefix_drop {x : Byte} {l m : List Byte} {i : Nat} (h : x :: l <+: m.drop i) :
    m[i]? = some x ∧ l <+: m.drop (i + 1) := by
  obtain ⟨rest, hrest⟩ := h
  have hread : m[i]? = (m.drop i)[0]? := by rw [List.getElem?_drop, Nat.add_zero]
  have hnext : m.drop (i + 1) = (m.drop i).tail := List.tail_drop.symm
  rw [hread, hnext, ← hrest]
  exact ⟨rfl, rest, rfl⟩

theorem kStrncasecmpMem_eq {s t a b : List Byte} {n i : Nat} (ha : extent n s <+: a.drop i)
    (hb : extent n t <+: b.drop i) : kStrncasecmpMem a b n i = some (kStrncasecmp s t n) := by
  induction n generalizing s t i with
  | zero => cases s <;> rfl
  | succ n ih =>
      rw [extent_step] at ha hb
      obtain ⟨hx, ha⟩ := prefix_drop ha
      obtain ⟨hy, hb⟩ := prefix_drop hb
      rw [kStrncasecmpMem, kStrncasecmp_step, hx, hy]
      simp only [Option.bind_eq_bind, Option.bind_some, lowerChar_eq, BitVec.toInt_inj]
      split
      · next hsame =>
        rw [if_neg hsame.1] at ha
        rw [if_neg (goes_on hsame)] at hb
        exact ih ha hb
      · rfl

theorem extent_within {n : Nat} {m : List Byte} (h : n ≤ m.length ∨ 0 ∈ m) : extent n m <+: m := by
  induction n generalizing m with
  | zero => exact List.nil_prefix
  | succ n ih =>
      cases m with
      | nil => simp at h
      | cons c m =>
          rw [extent_step, deref, List.headD_cons, List.tail_cons, List.prefix_cons_inj]
          split
          · exact List.nil_prefix
          · next hc =>
            refine ih ?_
            rcases h with hlen | hmem
            · exact Or.inl (Nat.le_of_succ_le_succ hlen)
            · exact Or.inr ((List.mem_cons.mp hmem).resolve_left (Ne.symm hc))

-- What callers may rely on when they compare the first `n` characters of two strings.
structure ComparesFolded (n : Nat) : Prop where
  negative : ∀ a b, kStrncasecmp a b n < 0 ↔ foldedPrefix n a < foldedPrefix n b
  zero : ∀ a b, kStrncasecmp a b n = 0 ↔ foldedPrefix n a = foldedPrefix n b
  positive : ∀ a b, 0 < kStrncasecmp a b n ↔ foldedPrefix n b < foldedPrefix n a
  swap : ∀ a b, kStrncasecmp b a n = -kStrncasecmp a b n
  trans : ∀ a b c, kStrncasecmp a b n ≤ 0 → kStrncasecmp b c n ≤ 0 → kStrncasecmp a c n ≤ 0
  strict : ∀ a b c, kStrncasecmp a b n < 0 → kStrncasecmp b c n < 0 → kStrncasecmp a c n < 0
  whole : ∀ a b, (cString a).length < n ∨ (cString b).length < n →
    kStrncasecmp a b n = kStrcasecmp a b
  within : ∀ a b ma mb, extent n a <+: ma → extent n b <+: mb →
    kStrncasecmpMem ma mb n 0 = some (kStrncasecmp a b n)
  array : ∀ a b : List Byte, n ≤ a.length ∨ 0 ∈ a → n ≤ b.length ∨ 0 ∈ b →
    kStrncasecmpMem a b n 0 = some (kStrncasecmp a b n)

theorem kStrncasecmp_le_iff (s t : List Byte) (n : Nat) :
    kStrncasecmp s t n ≤ 0 ↔ ¬ foldedPrefix n t < foldedPrefix n s := by
  rw [← kStrncasecmp_neg_iff, kStrncasecmp_swap]
  omega

theorem compares_folded (n : Nat) : ComparesFolded n where
  negative a b := kStrncasecmp_neg_iff a b n
  zero a b := kStrncasecmp_zero_iff a b n
  positive a b := by
    rw [← kStrncasecmp_neg_iff, kStrncasecmp_swap a b]
    omega
  swap a b := kStrncasecmp_swap a b n
  trans a b c := by
    rw [kStrncasecmp_le_iff, kStrncasecmp_le_iff, kStrncasecmp_le_iff, not_lt, not_lt, not_lt]
    exact le_trans
  strict a b c := by
    rw [kStrncasecmp_neg_iff, kStrncasecmp_neg_iff, kStrncasecmp_neg_iff]
    exact lt_trans
  whole a b := kStrncasecmp_whole
  within a b ma mb := fun ha hb => kStrncasecmpMem_eq (i := 0) ha hb
  array a b := fun ha hb => kStrncasecmpMem_eq (i := 0) (extent_within ha) (extent_within hb)

end CDosX86
