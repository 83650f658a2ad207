import CDosX86.BoundedQueue
import CDosX86.Cpu6502

namespace CDosX86

structure C64 where
  machine : Machine
  exitRequested : Bool
  injectCallCount : BitVec 32

def ndx : Word := 0x00C6

def keyd : Word := 0x0277

def keydMax : Byte := 10

def escape : Byte := 27

def returnKey : Byte := 0x0D

def translateKey (c : Byte) : Byte :=
  let c := if c = 0x0A then 0x0D else c
  let c := if c = 0x08 then 0x14 else c
  if c ≥ 0x61 ∧ c ≤ 0x7A then c - 32 else c

namespace C64

def mem (k : C64) : C64Mem := k.machine.mem

def cpu (k : C64) : Cpu6502 := k.machine.cpu

def withMem (m : C64Mem) (k : C64) : C64 :=
  { k with machine := { k.machine with mem := m } }

def injectKey (c : Byte) (k : C64) : C64 :=
  let k := { k with injectCallCount := k.injectCallCount + 1 }
  if c = escape then { k with exitRequested := true }
  else
    let key := translateKey c
    let (count, m) := k.mem.read ndx
    if count ≥ keydMax then k.withMem m
    else
      let m := m.write (keyd + count.setWidth 16) key
      k.withMem (m.write ndx (count + 1))

def exitWasRequested (k : C64) : Bool × C64 :=
  if k.exitRequested then (true, { k with exitRequested := false }) else (false, k)

def step (k : C64) : C64 := { k with machine := stepM k.machine }

def irq (k : C64) : C64 := { k with machine := irqM k.machine }

def zero : C64 := { machine := Machine.zero, exitRequested := false, injectCallCount := 0 }

@[simp] theorem mem_withMem (m : C64Mem) (k : C64) : (k.withMem m).mem = m := rfl

theorem injectKey_escape (k : C64) :
    k.injectKey escape =
      { k with injectCallCount := k.injectCallCount + 1, exitRequested := true } := rfl

theorem injectKey_full {k : C64} {c : Byte} (hesc : c ≠ escape) (hfull : keydMax ≤ k.mem.ram ndx) :
    k.injectKey c = { k with injectCallCount := k.injectCallCount + 1 } := by
  unfold injectKey
  dsimp only
  rw [if_neg hesc]
  change (if k.mem.ram ndx ≥ keydMax then _ else _ : C64) = _
  rw [if_pos hfull]
  rfl

theorem injectKey_room {k : C64} {c : Byte} (hesc : c ≠ escape) (hroom : k.mem.ram ndx < keydMax) :
    k.injectKey c =
      withMem
        ((k.mem.write (keyd + (k.mem.ram ndx).setWidth 16) (translateKey c)).write ndx
          (k.mem.ram ndx + 1))
        { k with injectCallCount := k.injectCallCount + 1 } := by
  unfold injectKey
  dsimp only
  rw [if_neg hesc]
  change (if k.mem.ram ndx ≥ keydMax then _ else _ : C64) = _
  rw [if_neg (by simpa using hroom)]
  rfl

end C64

def keyCount (ram : Word → Byte) : Nat := (ram ndx).toNat

def keySlot (ram : Word → Byte) (i : Nat) : Byte := ram (keyd + BitVec.ofNat 16 i)

def keyBuffer (ram : Word → Byte) : List Byte := (List.range (keyCount ram)).map (keySlot ram)

def storeKey (key : Byte) (ram : Word → Byte) : Word → Byte :=
  Function.update (Function.update ram (keyd + (ram ndx).setWidth 16) key) ndx (ram ndx + 1)

theorem keyd_inj {i j : Nat} (hi : i < 256) (hj : j < 256) :
    keyd + BitVec.ofNat 16 i = keyd + BitVec.ofNat 16 j ↔ i = j := by
  unfold keyd
  constructor
  · intro h
    bv_omega
  · rintro rfl
    rfl

theorem keyd_ne_ndx {i : Nat} (hi : i < 256) : keyd + BitVec.ofNat 16 i ≠ ndx := by
  unfold keyd ndx
  bv_omega

theorem length_keyBuffer (ram : Word → Byte) : (keyBuffer ram).length = keyCount ram := by
  simp [keyBuffer]

theorem keyCount_lt (ram : Word → Byte) : keyCount ram < 256 := (ram ndx).isLt

theorem getElem_keyBuffer (ram : Word → Byte) {i : Nat} (h : i < (keyBuffer ram).length) :
    (keyBuffer ram)[i] = keySlot ram i := by
  simp [keyBuffer]

theorem keySlot_store_slot (ram : Word → Byte) (v : Byte) {i j : Nat} (hi : i < 256)
    (hj : j < 256) :
    keySlot (Function.update ram (keyd + BitVec.ofNat 16 j) v) i =
      if i = j then v else keySlot ram i := by
  unfold keySlot
  split
  · next heq => rw [heq, Function.update_self]
  · next hne => exact Function.update_of_ne (by rwa [ne_eq, keyd_inj hi hj]) _ _

theorem keyCount_store_slot (ram : Word → Byte) (v : Byte) {j : Nat} (hj : j < 256) :
    keyCount (Function.update ram (keyd + BitVec.ofNat 16 j) v) = keyCount ram := by
  unfold keyCount
  rw [Function.update_of_ne (keyd_ne_ndx hj).symm]

theorem keySlot_store_ndx (ram : Word → Byte) (v : Byte) {i : Nat} (hi : i < 256) :
    keySlot (Function.update ram ndx v) i = keySlot ram i :=
  Function.update_of_ne (keyd_ne_ndx hi) _ _

theorem keyCount_store_ndx (ram : Word → Byte) (v : Byte) :
    keyCount (Function.update ram ndx v) = v.toNat := by
  unfold keyCount
  rw [Function.update_self]

theorem keyCount_storeKey {ram : Word → Byte} (hroom : keyCount ram < 255) (key : Byte) :
    keyCount (storeKey key ram) = keyCount ram + 1 := by
  unfold keyCount storeKey at *
  rw [Function.update_self]
  bv_omega

theorem keySlot_storeKey (key : Byte) (ram : Word → Byte) {i : Nat} (hi : i < 256) :
    keySlot (storeKey key ram) i = if i = keyCount ram then key else keySlot ram i := by
  have hadd : keyd + (ram ndx).setWidth 16 = keyd + BitVec.ofNat 16 (keyCount ram) := by
    rw [keyCount, BitVec.ofNat_toNat]
  unfold keySlot storeKey
  rw [Function.update_of_ne (keyd_ne_ndx hi), hadd]
  split
  · next heq => rw [heq, Function.update_self]
  · next hne => exact Function.update_of_ne (by rwa [ne_eq, keyd_inj hi (keyCount_lt ram)]) _ _

theorem keyBuffer_storeKey {ram : Word → Byte} (hroom : keyCount ram < 255) (key : Byte) :
    keyBuffer (storeKey key ram) = keyBuffer ram ++ [key] := by
  unfold keyBuffer
  rw [keyCount_storeKey hroom, List.range_succ, List.map_append]
  congr 1
  · apply List.map_congr_left
    intro i hi
    have hlt := List.mem_range.mp hi
    rw [keySlot_storeKey key ram (by omega), if_neg (by omega)]
  · rw [List.map_singleton, keySlot_storeKey key ram (by omega), if_pos rfl]

namespace C64

theorem exitRequested_injectKey (c : Byte) (k : C64) :
    (k.injectKey c).exitRequested = (k.exitRequested || c = escape) := by
  by_cases hesc : c = escape
  · rw [hesc, injectKey_escape]
    simp
  · rw [decide_eq_false hesc, Bool.or_false]
    by_cases hroom : k.mem.ram ndx < keydMax
    · rw [injectKey_room hesc hroom]
      rfl
    · rw [injectKey_full hesc (BitVec.not_lt.mp hroom)]

theorem ram_injectKey_room {k : C64} {c : Byte} (hesc : c ≠ escape)
    (hroom : k.mem.ram ndx < keydMax) :
    (k.injectKey c).mem.ram = storeKey (translateKey c) k.mem.ram := by
  rw [injectKey_room hesc hroom, mem_withMem, C64Mem.write_ram, C64Mem.write_ram]
  rfl

theorem keyBuffer_injectKey {k : C64} {c : Byte} (hesc : c ≠ escape) :
    keyBuffer (k.injectKey c).mem.ram =
      BoundedQueue.offer 10 (keyBuffer k.mem.ram) (translateKey c) := by
  by_cases hroom : k.mem.ram ndx < keydMax
  · have hlt : keyCount k.mem.ram < 10 := BitVec.lt_def.mp hroom
    rw [ram_injectKey_room hesc hroom, BoundedQueue.offer_room (by rwa [length_keyBuffer]),
      keyBuffer_storeKey (by omega)]
  · have hfull := BitVec.not_lt.mp hroom
    have hge : 10 ≤ keyCount k.mem.ram := BitVec.le_def.mp hfull
    rw [injectKey_full hesc hfull, BoundedQueue.offer_full (by rwa [length_keyBuffer])]
    rfl

theorem keyBuffer_foldl_injectKey {cs : List Byte} (hesc : escape ∉ cs) (k : C64) :
    keyBuffer (cs.foldl (fun k c => k.injectKey c) k).mem.ram =
      BoundedQueue.feed 10 (keyBuffer k.mem.ram) (cs.map translateKey) := by
  induction cs generalizing k with
  | nil => rfl
  | cons c cs ih =>
      obtain ⟨hc, hcs⟩ := not_or.mp (mt List.mem_cons.mpr hesc)
      rw [List.foldl_cons, ih hcs, keyBuffer_injectKey (Ne.symm hc)]
      rfl

end C64

end CDosX86
