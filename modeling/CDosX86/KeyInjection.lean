import CDosX86.C64Keys

namespace CDosX86

-- `after` is `before` with `keys` put behind the keys of its buffer.
structure KeysAppended (keys : List Byte) (before after : Word → Byte) : Prop where
  count : keyCount after = keyCount before + keys.length
  stored : ∀ i (h : i < keys.length), keySlot after (keyCount before + i) = keys[i]
  kept : ∀ addr, addr ≠ ndx →
    (∀ i < keys.length, addr ≠ keyd + BitVec.ofNat 16 (keyCount before + i)) →
      after addr = before addr

namespace KeysAppended

theorem refl (ram : Word → Byte) : KeysAppended [] ram ram :=
  ⟨rfl, fun _ h => absurd h (Nat.not_lt_zero _), fun _ _ _ => rfl⟩

theorem store {ram : Word → Byte} (hroom : keyCount ram < 255) (key : Byte) :
    KeysAppended [key] ram (storeKey key ram) := by
  refine ⟨keyCount_storeKey hroom key, fun i hi => ?_, fun addr hndx hslots => ?_⟩
  · obtain rfl : i = 0 := by simpa using hi
    rw [Nat.add_zero, keySlot_storeKey key ram (by omega), if_pos rfl]
    rfl
  · have hslot := hslots 0 Nat.one_pos
    rw [Nat.add_zero, keyCount, BitVec.ofNat_toNat] at hslot
    rw [storeKey, Function.update_of_ne hndx, Function.update_of_ne hslot]

theorem slot {keys : List Byte} {before after : Word → Byte} (h : KeysAppended keys before after)
    {i : Nat} (hi : i < keyCount before) (hsmall : keyCount after < 256) :
    keySlot after i = keySlot before i := by
  have hcount := h.count
  refine h.kept _ (keyd_ne_ndx (by omega)) fun j hj => ?_
  rw [ne_eq, keyd_inj (by omega) (by omega)]
  omega

theorem trans {ks ls : List Byte} {a b c : Word → Byte} (hab : KeysAppended ks a b)
    (hbc : KeysAppended ls b c) : KeysAppended (ks ++ ls) a c := by
  have hb := hab.count
  have hc := hbc.count
  have hsmall := keyCount_lt c
  refine ⟨?_, fun i hi => ?_, fun addr hndx hslots => ?_⟩
  · rw [hc, hb, List.length_append, Nat.add_assoc]
  · rcases Nat.lt_or_ge i ks.length with hold | hnew
    · rw [List.getElem_append_left hold, hbc.slot (by omega) hsmall]
      exact hab.stored i hold
    · rw [List.length_append] at hi
      have hindex : keyCount a + i = keyCount b + (i - ks.length) := by omega
      rw [List.getElem_append_right hnew, hindex]
      exact hbc.stored _ (by omega)
  · rw [List.length_append] at hslots
    have hfirst := hab.kept addr hndx fun i hi => hslots i (by omega)
    refine (hbc.kept addr hndx fun i hi => ?_).trans hfirst
    have hslot := hslots (ks.length + i) (by omega)
    rwa [← Nat.add_assoc, ← hb] at hslot

theorem keyBuffer_eq {keys : List Byte} {before after : Word → Byte}
    (h : KeysAppended keys before after) : keyBuffer after = keyBuffer before ++ keys := by
  have hcount := h.count
  have hsmall := keyCount_lt after
  apply List.ext_getElem
  · rw [List.length_append, length_keyBuffer, length_keyBuffer, hcount]
  · intro i hi hi'
    rw [length_keyBuffer] at hi
    rw [getElem_keyBuffer]
    rcases Nat.lt_or_ge i (keyCount before) with hold | hnew
    · rw [List.getElem_append_left (by rwa [length_keyBuffer]), getElem_keyBuffer,
        h.slot hold hsmall]
    · have hindex : i = keyCount before + (i - keyCount before) := by omega
      have hstored := h.stored (i - keyCount before) (by omega)
      rw [← hindex] at hstored
      rw [List.getElem_append_right (by rwa [length_keyBuffer]), hstored]
      simp only [length_keyBuffer]

theorem frame {keys : List Byte} {before after : Word → Byte} (h : KeysAppended keys before after)
    (hroom : keys = [] ∨ keyCount after ≤ 10) {addr : Word} (hndx : addr ≠ ndx)
    (haddr : ¬ (keyd ≤ addr ∧ addr ≤ 0x0280)) : after addr = before addr := by
  refine h.kept addr hndx fun i hi => ?_
  rintro rfl
  rcases hroom with rfl | hten
  · exact absurd hi (Nat.not_lt_zero i)
  · have hcount := h.count
    apply haddr
    unfold keyd
    bv_omega

end KeysAppended

def c64Key (c : Byte) : Byte :=
  if c = newline then returnKey
  else if c = 0x08 then 0x14
  else if 0x61 ≤ c ∧ c ≤ 0x7A then c - 0x20
  else c

theorem translateKey_eq : ∀ c : Byte, translateKey c = c64Key c := by
  decide +kernel

-- The keys that a buffer with `count` keys takes of the characters `cs`.
def acceptedKeys (count : Nat) (cs : List Byte) : List Byte :=
  ((cs.filter (· ≠ escape)).take (10 - count)).map c64Key

theorem acceptedKeys_escape (count : Nat) (cs : List Byte) :
    acceptedKeys count (escape :: cs) = acceptedKeys count cs := by
  simp [acceptedKeys]

theorem acceptedKeys_full {count : Nat} (h : 10 ≤ count) (cs : List Byte) :
    acceptedKeys count cs = [] := by
  simp [acceptedKeys, Nat.sub_eq_zero_of_le h]

theorem acceptedKeys_room {count : Nat} (h : count < 10) {c : Byte} (hc : c ≠ escape)
    (cs : List Byte) :
    acceptedKeys count (c :: cs) = c64Key c :: acceptedKeys (count + 1) cs := by
  obtain ⟨n, hn⟩ : ∃ n, 10 - count = n + 1 := ⟨9 - count, by omega⟩
  have hn' : 10 - (count + 1) = n := by omega
  rw [acceptedKeys, List.filter_cons_of_pos (by simpa using hc), hn, List.take_succ_cons,
    List.map_cons, acceptedKeys, hn']

namespace C64

def injectKeys (cs : List Byte) (k : C64) : C64 := cs.foldl (fun k c => k.injectKey c) k

theorem injectKeys_cons (c : Byte) (cs : List Byte) (k : C64) :
    k.injectKeys (c :: cs) = (k.injectKey c).injectKeys cs := rfl

theorem injectKeys_appended (cs : List Byte) (k : C64) :
    KeysAppended (acceptedKeys (keyCount k.mem.ram) cs) k.mem.ram (k.injectKeys cs).mem.ram := by
  induction cs generalizing k with
  | nil =>
      have hnone : acceptedKeys (keyCount k.mem.ram) [] = [] := by simp [acceptedKeys]
      rw [hnone]
      exact .refl k.mem.ram
  | cons c cs ih =>
      have hrest := ih (k.injectKey c)
      rw [injectKeys_cons]
      by_cases hc : c = escape
      · subst hc
        rwa [acceptedKeys_escape]
      · by_cases hroom : k.mem.ram ndx < keydMax
        · have hcount : keyCount k.mem.ram < 10 := BitVec.lt_def.mp hroom
          rw [ram_injectKey_room hc hroom, keyCount_storeKey (by omega)] at hrest
          rw [acceptedKeys_room hcount hc, ← translateKey_eq]
          exact (KeysAppended.store (by omega) (translateKey c)).trans hrest
        · have hfull := BitVec.not_lt.mp hroom
          have hcount : 10 ≤ keyCount k.mem.ram := BitVec.le_def.mp hfull
          have hsame : (k.injectKey c).mem.ram = k.mem.ram := by
            rw [injectKey_full hc hfull]
            rfl
          rw [hsame, acceptedKeys_full hcount] at hrest
          rwa [acceptedKeys_full hcount]

theorem exitRequested_injectKeys_iff (cs : List Byte) (k : C64) :
    (k.injectKeys cs).exitRequested = true ↔ escape ∈ cs ∨ k.exitRequested = true := by
  induction cs generalizing k with
  | nil => simp [injectKeys]
  | cons c cs ih =>
      rw [injectKeys_cons, ih, exitRequested_injectKey, Bool.or_eq_true, decide_eq_true_iff,
        List.mem_cons, eq_comm (a := escape), or_assoc]
      tauto

end C64

theorem length_acceptedKeys_le (count : Nat) (cs : List Byte) :
    (acceptedKeys count cs).length ≤ 10 - count := by
  rw [acceptedKeys, List.length_map, List.length_take]
  exact Nat.min_le_left _ _

theorem key_injection_appends (k : C64) (cs : List Byte) :
    let keys := acceptedKeys (keyCount k.mem.ram) cs
    let k' := k.injectKeys cs
    KeysAppended keys k.mem.ram k'.mem.ram ∧
      keyBuffer k'.mem.ram = keyBuffer k.mem.ram ++ keys ∧
      (∀ addr, addr ≠ ndx → ¬ (keyd ≤ addr ∧ addr ≤ 0x0280) →
        k'.mem.ram addr = k.mem.ram addr) ∧
      (k'.exitRequested = true ↔ escape ∈ cs ∨ k.exitRequested = true) := by
  have happended := C64.injectKeys_appended cs k
  have hlen := length_acceptedKeys_le (keyCount k.mem.ram) cs
  have hroom : acceptedKeys (keyCount k.mem.ram) cs = [] ∨
      keyCount (k.injectKeys cs).mem.ram ≤ 10 := by
    rcases Nat.lt_or_ge (keyCount k.mem.ram) 10 with hlt | hge
    · have hcount := happended.count
      exact Or.inr (by omega)
    · exact Or.inl (acceptedKeys_full hge cs)
  exact ⟨happended, happended.keyBuffer_eq, fun addr => happended.frame hroom,
    C64.exitRequested_injectKeys_iff cs k⟩

end CDosX86
