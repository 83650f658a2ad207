import CDosX86.C64Keys
import CDosX86.Cpu6502Refines
import CDosX86.Mos6502.RamRules

namespace CDosX86

open Mos6502

instance : RamBus C64Mem where
  ram m := m.ram
  Plain addr := addr ≠ vicRaster ∧ addr ≠ cia1Prb
  read_plain _ m h := C64Mem.read_plain h.1 h.2 m
  ram_write addr v m := m.write_ram addr v

def removeKey : List Byte :=
  [0x78, 0xAC, 0x77, 0x02, 0xA2, 0x00, 0xBD, 0x78, 0x02, 0x9D, 0x77, 0x02, 0xE8, 0xE4, 0xC6,
    0xD0, 0xF5, 0xC6, 0xC6, 0x98, 0x58]

inductive Point where
  | sei | ldy | ldx | lda | sta | inx | cpx | bne | dec | tya | cli | done
  deriving DecidableEq, Repr

namespace Point

def offset : Point → Nat
  | .sei => 0
  | .ldy => 1
  | .ldx => 4
  | .lda => 6
  | .sta => 9
  | .inx => 12
  | .cpx => 13
  | .bne => 15
  | .dec => 17
  | .tya => 19
  | .cli => 20
  | .done => 21

def instr : Point → Option Instr
  | .sei => some (.setFlag .i true)
  | .ldy => some (.load .y .abs)
  | .ldx => some (.load .x .imm)
  | .lda => some (.load .a .absx)
  | .sta => some (.store .a .absx)
  | .inx => some (.incr .x)
  | .cpx => some (.compare .x .zp)
  | .bne => some (.branch .z false)
  | .dec => some (.dec .zp)
  | .tya => some (.transfer .y .a)
  | .cli => some (.setFlag .i false)
  | .done => none

theorem instr_code {p : Point} {i : Instr} (h : p.instr = some i) :
    ∃ hp : p.offset < removeKey.length, decode removeKey[p.offset] = some i := by
  cases p with
  | done => cases h
  | _ => exact ⟨by decide, by rw [← h]; rfl⟩

end Point

structure Placed (base : Word) : Prop where
  plain : ∀ i < 21, Plain C64Mem (base + BitVec.ofNat 16 i)
  keys : ∀ i < 21, ∀ j < 10, base + BitVec.ofNat 16 i ≠ keyd + BitVec.ofNat 16 j
  count : ∀ i < 21, base + BitVec.ofNat 16 i ≠ ndx

structure Running (base : Word) (p : Point) (s : Cpu C64Mem) : Prop where
  run : s.halted = false
  code : CodeAt base removeKey (ramOf s)
  pc : s.pc = base + BitVec.ofNat 16 p.offset

namespace Running

variable {base : Word} {p : Point} {s : Cpu C64Mem}

theorem byte (h : Running base p s) (k : Nat) (hk : p.offset + k < removeKey.length) :
    byteAt s (BitVec.ofNat 16 k) = removeKey[p.offset + k] := by
  rw [byteAt, h.pc, BitVec.add_assoc, ← BitVec.ofNat_add]
  exact h.code (p.offset + k) hk

theorem plain (h : Running base p s) (hplaced : Placed base) (k : Nat) (hk : p.offset + k < 21) :
    Plain C64Mem (s.pc + BitVec.ofNat 16 k) := by
  rw [h.pc, BitVec.add_assoc, ← BitVec.ofNat_add]
  exact hplaced.plain (p.offset + k) hk

theorem next (h : Running base p s) (hplaced : Placed base) {i : Instr} (hi : p.instr = some i) :
    Next s i := by
  obtain ⟨hp, hcode⟩ := Point.instr_code hi
  refine ⟨h.run, ?_, ?_⟩
  · have := h.plain hplaced 0 hp
    rwa [BitVec.add_zero] at this
  · exact (congrArg decode (h.byte 0 hp)).trans hcode

theorem advance {q : Point} {t : Cpu C64Mem} (h : Running base p s) (hrun : t.halted = s.halted)
    (hcode : CodeAt base removeKey (ramOf t)) (n : Nat) (hpc : t.pc = s.pc + BitVec.ofNat 16 n)
    (hq : q.offset = p.offset + n) : Running base q t where
  run := hrun.trans h.run
  code := hcode
  pc := by rw [hpc, h.pc, BitVec.add_assoc, ← BitVec.ofNat_add, hq]

end Running

theorem Placed.code_store_slot {base : Word} (hplaced : Placed base) {ram : Word → Byte}
    (hcode : CodeAt base removeKey ram) {j : Nat} (hj : j < 10) (v : Byte) :
    CodeAt base removeKey (Function.update ram (keyd + BitVec.ofNat 16 j) v) := by
  intro i hi
  rw [Function.update_of_ne (hplaced.keys i hi j hj)]
  exact hcode i hi

theorem Placed.code_store_ndx {base : Word} (hplaced : Placed base) {ram : Word → Byte}
    (hcode : CodeAt base removeKey ram) (v : Byte) :
    CodeAt base removeKey (Function.update ram ndx v) := by
  intro i hi
  rw [Function.update_of_ne (hplaced.count i hi)]
  exact hcode i hi

theorem Placed.code_storeKey {base : Word} (hplaced : Placed base) {ram : Word → Byte}
    (hcode : CodeAt base removeKey ram) (hroom : keyCount ram < 10) (key : Byte) :
    CodeAt base removeKey (storeKey key ram) := by
  unfold storeKey
  rw [← BitVec.ofNat_toNat]
  exact hplaced.code_store_ndx (hplaced.code_store_slot hcode hroom key) _

def Moved (pending : List Byte) (r : Nat) (slot : Nat → Byte) : Prop :=
  ∀ i < r, i + 1 < pending.length → pending[i + 1]? = some (slot i)

def Unmoved (pending : List Byte) (r : Nat) (slot : Nat → Byte) : Prop :=
  ∀ i, r ≤ i → i < pending.length → pending[i]? = some (slot i)

-- `pending` is what the routine returns, followed by what it leaves in the buffer, if no
-- further key arrives.
def Shifting (pending : List Byte) (s : Cpu C64Mem) : Point → Prop
  | .sei => Unmoved pending 0 (keySlot (ramOf s))
  | .ldy => Unmoved pending 0 (keySlot (ramOf s))
  | .ldx => pending[0]? = some s.y ∧ Unmoved pending 0 (keySlot (ramOf s))
  | .lda => pending[0]? = some s.y ∧ s.x.toNat < pending.length ∧
      Moved pending s.x.toNat (keySlot (ramOf s)) ∧
      Unmoved pending (s.x.toNat + 1) (keySlot (ramOf s))
  | .sta => pending[0]? = some s.y ∧ s.x.toNat < pending.length ∧
      Moved pending s.x.toNat (keySlot (ramOf s)) ∧
      Unmoved pending (s.x.toNat + 2) (keySlot (ramOf s)) ∧
      (s.x.toNat + 1 < pending.length → pending[s.x.toNat + 1]? = some s.a)
  | .inx => pending[0]? = some s.y ∧ s.x.toNat < pending.length ∧
      Moved pending (s.x.toNat + 1) (keySlot (ramOf s)) ∧
      Unmoved pending (s.x.toNat + 2) (keySlot (ramOf s))
  | .cpx => pending[0]? = some s.y ∧ s.x.toNat ≤ pending.length ∧
      Moved pending s.x.toNat (keySlot (ramOf s)) ∧
      Unmoved pending (s.x.toNat + 1) (keySlot (ramOf s))
  | .bne => pending[0]? = some s.y ∧
      if flag .z s.p then Moved pending pending.length (keySlot (ramOf s))
      else s.x.toNat < pending.length ∧ Moved pending s.x.toNat (keySlot (ramOf s)) ∧
        Unmoved pending (s.x.toNat + 1) (keySlot (ramOf s))
  | .dec => pending[0]? = some s.y ∧ Moved pending pending.length (keySlot (ramOf s))
  | .tya => pending[0]? = some s.y ∧ Moved pending pending.length (keySlot (ramOf s))
  | .cli => pending[0]? = some s.a ∧ Moved pending pending.length (keySlot (ramOf s))
  | .done => pending[0]? = some s.a ∧ Moved pending pending.length (keySlot (ramOf s))

def Point.taken : Point → Nat
  | .tya => 1
  | .cli => 1
  | .done => 1
  | _ => 0

structure Removing (base : Word) (pending : List Byte) (p : Point) (s : Cpu C64Mem) : Prop where
  at_point : Running base p s
  length : pending.length = keyCount (ramOf s) + p.taken
  pos : 0 < pending.length
  full : keyCount (ramOf s) ≤ 10
  shifting : Shifting pending s p

theorem Moved.start (pending : List Byte) (slot : Nat → Byte) : Moved pending 0 slot :=
  fun _ hi => absurd hi (Nat.not_lt_zero _)

theorem Unmoved.weaken {pending : List Byte} {r r' : Nat} {slot : Nat → Byte}
    (h : Unmoved pending r slot) (hr : r ≤ r') : Unmoved pending r' slot :=
  fun i hi => h i (hr.trans hi)

theorem Moved.weaken {pending : List Byte} {r r' : Nat} {slot : Nat → Byte}
    (h : Moved pending r slot) (hr : r' ≤ r ∨ pending.length ≤ r) : Moved pending r' slot :=
  fun i hi hlt => h i (by omega) hlt

theorem flag_z_compare (r m p : Byte) : flag .z (putCompare r m p) = (r == m) := by
  rw [putCompare, putZN, flag_putFlag, flag_putFlag]
  simp only [reduceCtorEq, if_false, if_true]
  rw [Bool.eq_iff_iff, beq_iff_eq, beq_iff_eq]
  constructor
  · intro h
    bv_omega
  · rintro rfl
    exact BitVec.sub_self r

theorem keyd_plain {i : Nat} (hi : i < 256) : Plain C64Mem (keyd + BitVec.ofNat 16 i) := by
  constructor
  · unfold keyd vicRaster
    bv_omega
  · unfold keyd cia1Prb
    bv_omega

theorem keyd_add (x : Byte) : keyd + zeroPage x = keyd + BitVec.ofNat 16 x.toNat := by
  unfold zeroPage
  rw [BitVec.ofNat_toNat]

theorem keyd_succ_add (x : Byte) :
    keyd + 1 + zeroPage x = keyd + BitVec.ofNat 16 (x.toNat + 1) := by
  unfold keyd zeroPage
  bv_omega

theorem ndx_plain : Plain C64Mem ndx := ⟨by decide, by decide⟩

section steps

variable {base : Word} {pending : List Byte} {s : Cpu C64Mem}

theorem Removing.step_sei (h : Removing base pending .sei s) (hplaced : Placed base) :
    Removing base pending .ldy (step s) := by
  rw [step_setFlag (h.at_point.next hplaced rfl)]
  exact ⟨h.at_point.advance rfl h.at_point.code 1 rfl rfl, h.length, h.pos, h.full, h.shifting⟩

theorem Removing.step_ldy (h : Removing base pending .ldy s) (hplaced : Placed base) :
    Removing base pending .ldx (step s) := by
  have hat := h.at_point
  have hlo : byteAt s (BitVec.ofNat 16 1) = 0x77 := hat.byte 1 (by decide)
  have hhi : byteAt s (BitVec.ofNat 16 2) = 0x02 := hat.byte 2 (by decide)
  have haddr : wordAt s 1 = keyd := (congr (congrArg _ hhi) hlo)
  rw [step_load (hat.next hplaced rfl)
    (ea_abs (hat.plain hplaced 1 (by decide)) (hat.plain hplaced 2 (by decide)))
    (by rw [haddr]; exact keyd_plain (i := 0) (by decide)), haddr]
  exact ⟨hat.advance rfl hat.code 3 rfl rfl, h.length, h.pos, h.full,
    h.shifting 0 (by omega) h.pos, h.shifting⟩

theorem Removing.step_ldx (h : Removing base pending .ldx s) (hplaced : Placed base) :
    Removing base pending .lda (step s) := by
  have hat := h.at_point
  have hzero : ramOf s (s.pc + 1) = 0 := hat.byte 1 (by decide)
  rw [step_load (hat.next hplaced rfl) (ea_imm s) (hat.plain hplaced 1 (by decide)), hzero]
  obtain ⟨hy, hslots⟩ := h.shifting
  exact ⟨hat.advance rfl hat.code 2 rfl rfl, h.length, h.pos, h.full, hy, h.pos,
    Moved.start _ _, hslots.weaken (by omega)⟩

theorem Removing.step_lda (h : Removing base pending .lda s) (hplaced : Placed base) :
    Removing base pending .sta (step s) := by
  have hat := h.at_point
  obtain ⟨hy, hx, hmoved, hrest⟩ := h.shifting
  have hlo : byteAt s (BitVec.ofNat 16 1) = 0x78 := hat.byte 1 (by decide)
  have hhi : byteAt s (BitVec.ofNat 16 2) = 0x02 := hat.byte 2 (by decide)
  have haddr : wordAt s 1 + zeroPage s.x = keyd + BitVec.ofNat 16 (s.x.toNat + 1) := by
    have hword : wordAt s 1 = keyd + 1 := by
      change (byteAt s (BitVec.ofNat 16 2) ++ byteAt s (BitVec.ofNat 16 1) : Word) = _
      rw [hhi, hlo]
      rfl
    rw [hword]
    exact keyd_succ_add s.x
  have hlt := s.x.isLt
  have hplain : Plain C64Mem (wordAt s 1 + zeroPage s.x) := by
    rw [haddr]
    exact keyd_plain (by have := h.length; have := h.full; simp only [Point.taken] at *; omega)
  rw [step_load (hat.next hplaced rfl)
    (ea_absx (hat.plain hplaced 1 (by decide)) (hat.plain hplaced 2 (by decide))) hplain, haddr]
  refine ⟨hat.advance rfl hat.code 3 rfl rfl, h.length, h.pos, h.full, hy, hx, hmoved, ?_, ?_⟩
  · exact hrest.weaken (Nat.le_succ _)
  · exact hrest (s.x.toNat + 1) (le_refl _)

theorem Removing.step_sta (h : Removing base pending .sta s) (hplaced : Placed base) :
    Removing base pending .inx (step s) := by
  have hat := h.at_point
  obtain ⟨hy, hx, hmoved, hrest, ha⟩ := h.shifting
  have hlen : pending.length = keyCount (ramOf s) := h.length
  have hfull := h.full
  have hlo : byteAt s (BitVec.ofNat 16 1) = 0x77 := hat.byte 1 (by decide)
  have hhi : byteAt s (BitVec.ofNat 16 2) = 0x02 := hat.byte 2 (by decide)
  have haddr : wordAt s 1 + zeroPage s.x = keyd + BitVec.ofNat 16 s.x.toNat := by
    have hword : wordAt s 1 = keyd := congr (congrArg _ hhi) hlo
    rw [hword]
    exact keyd_add s.x
  rw [step_store (hat.next hplaced rfl)
    (ea_absx (hat.plain hplaced 1 (by decide)) (hat.plain hplaced 2 (by decide))), haddr]
  have hram : ramOf { skip 3 s with
      mem := Bus.write (keyd + BitVec.ofNat 16 s.x.toNat) (Reg.a.get s) s.mem } =
      Function.update (ramOf s) (keyd + BitVec.ofNat 16 s.x.toNat) s.a :=
    C64Mem.write_ram _ _ _
  have hslot : ∀ i < 256, keySlot (Function.update (ramOf s)
      (keyd + BitVec.ofNat 16 s.x.toNat) s.a) i =
      if i = s.x.toNat then s.a else keySlot (ramOf s) i :=
    fun i hi => keySlot_store_slot _ _ hi (by omega)
  refine ⟨hat.advance rfl ?_ 3 rfl rfl, ?_, h.pos, ?_, hy, hx, ?_, ?_⟩
  · rw [hram]
    exact hplaced.code_store_slot hat.code (by omega) _
  · rw [hram, keyCount_store_slot _ _ (by omega)]
    exact h.length
  · rw [hram, keyCount_store_slot _ _ (by omega)]
    exact h.full
  · rw [hram]
    intro i hi hlt
    rw [hslot i (by omega)]
    split
    · next heq => rw [heq] at hlt ⊢; exact ha hlt
    · next hne => exact hmoved i (by change i < s.x.toNat + 1 at hi; omega) hlt
  · rw [hram]
    intro i hi hlt
    change s.x.toNat + 2 ≤ i at hi
    rw [hslot i (by omega), if_neg (by omega)]
    exact hrest i hi hlt

theorem Removing.step_inx (h : Removing base pending .inx s) (hplaced : Placed base) :
    Removing base pending .cpx (step s) := by
  have hat := h.at_point
  obtain ⟨hy, hx, hmoved, hrest⟩ := h.shifting
  have hlen : pending.length = keyCount (ramOf s) := h.length
  have hfull := h.full
  rw [step_incr (hat.next hplaced rfl)]
  have hnext : (s.x + 1).toNat = s.x.toNat + 1 := by bv_omega
  refine ⟨hat.advance rfl hat.code 1 rfl rfl, h.length, h.pos, h.full, hy, ?_, ?_, ?_⟩
  · change (s.x + 1).toNat ≤ pending.length
    omega
  · change Moved pending (s.x + 1).toNat _
    rw [hnext]
    exact hmoved
  · change Unmoved pending ((s.x + 1).toNat + 1) _
    rw [hnext]
    exact hrest

theorem Removing.step_cpx (h : Removing base pending .cpx s) (hplaced : Placed base) :
    Removing base pending .bne (step s) := by
  have hat := h.at_point
  obtain ⟨hy, hx, hmoved, hrest⟩ := h.shifting
  have hlen : pending.length = keyCount (ramOf s) := h.length
  have haddr : zeroPage (byteAt s 1) = ndx := congrArg zeroPage (hat.byte 1 (by decide))
  rw [step_compare (hat.next hplaced rfl) (ea_zp (hat.plain hplaced 1 (by decide)))
    (by rw [haddr]; exact ndx_plain), haddr]
  refine ⟨hat.advance rfl hat.code 2 rfl rfl, h.length, h.pos, h.full, hy, ?_⟩
  change if flag .z (putCompare s.x (ramOf s ndx) s.p) = true then _ else _
  rw [flag_z_compare]
  split
  · next heq =>
    have hend : s.x.toNat = keyCount (ramOf s) := congrArg BitVec.toNat (beq_iff_eq.mp heq)
    exact hmoved.weaken (by omega)
  · next hne =>
    have hlt : s.x.toNat ≠ keyCount (ramOf s) :=
      fun heq => hne (beq_iff_eq.mpr (BitVec.eq_of_toNat_eq heq))
    exact ⟨by change s.x.toNat < _; omega, hmoved, hrest⟩

theorem Removing.step_bne (h : Removing base pending .bne s) (hplaced : Placed base) :
    Removing base pending .lda (step s) ∨ Removing base pending .dec (step s) := by
  have hat := h.at_point
  obtain ⟨hy, hslots⟩ := h.shifting
  have hoff : byteAt s 1 = 0xF5 := hat.byte 1 (by decide)
  rw [step_branch (hat.next hplaced rfl) (hat.plain hplaced 1 (by decide)), hoff]
  cases hz : flag .z s.p with
  | true =>
      rw [hz, if_pos rfl] at hslots
      right
      exact ⟨hat.advance rfl hat.code 2 rfl rfl, h.length, h.pos, h.full, hy, hslots⟩
  | false =>
      rw [hz, if_neg (by decide)] at hslots
      left
      have hback : s.pc + 2 + BitVec.signExtend 16 (0xF5 : Byte) =
          base + BitVec.ofNat 16 Point.lda.offset := by
        rw [hat.pc, BitVec.add_assoc, BitVec.add_assoc]
        congr 1
      rw [if_pos rfl, hback]
      exact ⟨⟨hat.run, hat.code, rfl⟩, h.length, h.pos, h.full, hy, hslots⟩

theorem Removing.step_dec (h : Removing base pending .dec s) (hplaced : Placed base) :
    Removing base pending .tya (step s) := by
  have hat := h.at_point
  obtain ⟨hy, hslots⟩ := h.shifting
  have hlen : pending.length = keyCount (ramOf s) := h.length
  have hpos := h.pos
  have hfull := h.full
  have haddr : zeroPage (byteAt s 1) = ndx := congrArg zeroPage (hat.byte 1 (by decide))
  rw [Mos6502.step_dec (hat.next hplaced rfl) (ea_zp (hat.plain hplaced 1 (by decide)))
    (by rw [haddr]; exact ndx_plain), haddr]
  have hram : ramOf { skip 2 s with
      p := putZN (ramOf s ndx - 1) s.p
      mem := Bus.write ndx (ramOf s ndx - 1) s.mem } =
      Function.update (ramOf s) ndx (ramOf s ndx - 1) :=
    C64Mem.write_ram _ _ _
  have hcount : (ramOf s ndx - 1).toNat + 1 = keyCount (ramOf s) := by
    unfold keyCount at *
    bv_omega
  refine ⟨hat.advance rfl ?_ 2 rfl rfl, ?_, h.pos, ?_, hy, ?_⟩
  · rw [hram]
    exact hplaced.code_store_ndx hat.code _
  · rw [hram, keyCount_store_ndx]
    exact hlen.trans hcount.symm
  · rw [hram, keyCount_store_ndx]
    omega
  · rw [hram]
    intro i hi hlt
    rw [keySlot_store_ndx _ _ (by omega)]
    exact hslots i hi hlt

theorem Removing.step_tya (h : Removing base pending .tya s) (hplaced : Placed base) :
    Removing base pending .cli (step s) := by
  rw [step_transfer (h.at_point.next hplaced rfl)]
  exact ⟨h.at_point.advance rfl h.at_point.code 1 rfl rfl, h.length, h.pos, h.full, h.shifting⟩

theorem Removing.step_cli (h : Removing base pending .cli s) (hplaced : Placed base) :
    Removing base pending .done (step s) := by
  rw [step_setFlag (h.at_point.next hplaced rfl)]
  exact ⟨h.at_point.advance rfl h.at_point.code 1 rfl rfl, h.length, h.pos, h.full, h.shifting⟩

theorem Removing.step {p : Point} (h : Removing base pending p s) (hp : p ≠ .done)
    (hplaced : Placed base) : ∃ q, Removing base pending q (step s) := by
  cases p with
  | sei => exact ⟨.ldy, h.step_sei hplaced⟩
  | ldy => exact ⟨.ldx, h.step_ldy hplaced⟩
  | ldx => exact ⟨.lda, h.step_ldx hplaced⟩
  | lda => exact ⟨.sta, h.step_lda hplaced⟩
  | sta => exact ⟨.inx, h.step_sta hplaced⟩
  | inx => exact ⟨.cpx, h.step_inx hplaced⟩
  | cpx => exact ⟨.bne, h.step_cpx hplaced⟩
  | bne =>
      rcases h.step_bne hplaced with h | h
      · exact ⟨.lda, h⟩
      · exact ⟨.dec, h⟩
  | dec => exact ⟨.tya, h.step_dec hplaced⟩
  | tya => exact ⟨.cli, h.step_tya hplaced⟩
  | cli => exact ⟨.done, h.step_cli hplaced⟩
  | done => exact (hp rfl).elim

end steps

def At (base : Word) (p : Point) (s : Cpu C64Mem) : Prop :=
  s.pc = base + BitVec.ofNat 16 p.offset

instance (base : Word) (p : Point) (s : Cpu C64Mem) : Decidable (At base p s) :=
  inferInstanceAs (Decidable (_ = _))

-- The last element has been copied for good, so that a key stored behind it is not moved up.
def Closing (base : Word) (s : Cpu C64Mem) : Prop :=
  (At base .sta s ∨ At base .inx s) ∧ s.x.toNat + 1 = keyCount (ramOf s) ∨
    At base .cpx s ∧ s.x.toNat = keyCount (ramOf s) ∨
    At base .bne s ∧ flag .z s.p = true ∨ At base .dec s

instance (base : Word) (s : Cpu C64Mem) : Decidable (Closing base s) :=
  inferInstanceAs (Decidable (_ ∨ _))

def lastCopied (base : Word) (s : Cpu C64Mem) : Byte :=
  if At base .sta s then s.a else keySlot (ramOf s) (keyCount (ramOf s) - 1)

def received (base : Word) (s : Cpu C64Mem) (key : Byte) : Byte :=
  if Closing base s then lastCopied base s else key

theorem Point.offset_inj {p q : Point}
    (h : BitVec.ofNat 16 p.offset = BitVec.ofNat 16 q.offset) : p = q := by
  cases p <;> cases q <;> first | rfl | exact absurd h (by decide)

theorem Running.at_iff {base : Word} {p q : Point} {s : Cpu C64Mem} (h : Running base p s) :
    At base q s ↔ p = q := by
  unfold At
  rw [h.pc]
  constructor
  · intro heq
    exact Point.offset_inj (by bv_omega)
  · rintro rfl
    rfl

structure StoredAt (n : Nat) (c : Byte) (slot slot' : Nat → Byte) : Prop where
  same : ∀ i < n, slot' i = slot i
  new : slot' n = c

section append

variable {pending : List Byte} {r n : Nat} {slot slot' : Nat → Byte} {e c : Byte}

theorem Moved.append (h : Moved pending r slot) (hst : StoredAt n c slot slot')
    (hlen : pending.length = n) (he : r < n ∨ e = slot (n - 1)) :
    Moved (pending ++ [e]) r slot' := by
  intro i hi hlt
  rw [List.length_append, List.length_singleton] at hlt
  rw [hst.same i (by omega)]
  rcases Nat.lt_or_ge (i + 1) pending.length with hin | hend
  · rw [List.getElem?_append_left hin]
    exact h i hi hin
  · have heq : i = pending.length - 1 := by omega
    have hnext : i + 1 = pending.length := by omega
    rw [hnext, List.getElem?_concat_length, he.resolve_left (by omega), heq, hlen]

theorem Unmoved.append (h : Unmoved pending r slot) (hst : StoredAt n c slot slot')
    (hlen : pending.length = n) (he : n < r ∨ e = c) : Unmoved (pending ++ [e]) r slot' := by
  intro i hi hlt
  rw [List.length_append, List.length_singleton] at hlt
  rcases Nat.lt_or_ge i pending.length with hin | hend
  · rw [List.getElem?_append_left hin, hst.same i (by omega)]
    exact h i hi hin
  · have heq : i = n := by omega
    have hend : i = pending.length := by omega
    rw [heq, hst.new, ← heq, hend, List.getElem?_concat_length, he.resolve_left (by omega)]

theorem Moved.append_all (h : Moved pending pending.length slot) (hst : StoredAt n c slot slot')
    (hlen : pending.length = n) (he : e = slot (n - 1)) :
    Moved (pending ++ [e]) (pending ++ [e]).length slot' := by
  intro i hi hlt
  rw [List.length_append, List.length_singleton] at hlt
  refine Moved.append h hst hlen (Or.inr he) i (by omega) ?_
  rwa [List.length_append, List.length_singleton]

theorem Moved.append_taken (h : Moved pending pending.length slot) (hst : StoredAt n c slot slot')
    (hlen : pending.length = n + 1) :
    Moved (pending ++ [c]) (pending ++ [c]).length slot' := by
  intro i _ hlt
  rw [List.length_append, List.length_singleton] at hlt
  rcases Nat.lt_or_ge (i + 1) pending.length with hin | hend
  · rw [List.getElem?_append_left hin, hst.same i (by omega)]
    exact h i (by omega) hin
  · have heq : i = n := by omega
    have hnext : i + 1 = pending.length := by omega
    rw [heq, hst.new, ← heq, hnext, List.getElem?_concat_length]

theorem Moved.append_closing (hm : Moved pending r slot) (hu : Unmoved pending (r + 1) slot)
    (hst : StoredAt n c slot slot') (hlen : pending.length = n) (hr : r ≤ n) :
    Moved (pending ++ [if r = n then slot (n - 1) else c]) r slot' ∧
      Unmoved (pending ++ [if r = n then slot (n - 1) else c]) (r + 1) slot' := by
  by_cases hend : r = n
  · rw [if_pos hend]
    exact ⟨hm.append hst hlen (Or.inr rfl), hu.append hst hlen (Or.inl (by omega))⟩
  · rw [if_neg hend]
    exact ⟨hm.append hst hlen (Or.inl (by omega)), hu.append hst hlen (Or.inr rfl)⟩

end append

section arrival

variable {base : Word} {pending : List Byte} {p : Point} {s t : Cpu C64Mem}

theorem Running.received_early (h : Running base p s) (hp : p ∈ [.sei, .ldy, .ldx, .lda])
    (c : Byte) : received base s c = c := by
  have hnot : ¬ Closing base s := by
    unfold Closing
    simp only [h.at_iff]
    rintro (⟨rfl | rfl, -⟩ | ⟨rfl, -⟩ | ⟨rfl, -⟩ | rfl) <;> simp at hp
  exact if_neg hnot

theorem Running.received_late (h : Running base p s) (hp : p.taken = 1) (c : Byte) :
    received base s c = c := by
  have hnot : ¬ Closing base s := by
    unfold Closing
    simp only [h.at_iff]
    rintro (⟨rfl | rfl, -⟩ | ⟨rfl, -⟩ | ⟨rfl, -⟩ | rfl) <;> cases hp
  exact if_neg hnot

theorem Running.received_sta (h : Running base .sta s) (c : Byte) :
    received base s c = if s.x.toNat + 1 = keyCount (ramOf s) then s.a else c := by
  simp [received, Closing, lastCopied, h.at_iff]

theorem Running.received_inx (h : Running base .inx s) (c : Byte) :
    received base s c = if s.x.toNat + 1 = keyCount (ramOf s)
      then keySlot (ramOf s) (keyCount (ramOf s) - 1) else c := by
  simp [received, Closing, lastCopied, h.at_iff]

theorem Running.received_cpx (h : Running base .cpx s) (c : Byte) :
    received base s c = if s.x.toNat = keyCount (ramOf s)
      then keySlot (ramOf s) (keyCount (ramOf s) - 1) else c := by
  simp [received, Closing, lastCopied, h.at_iff]

theorem Running.received_bne (h : Running base .bne s) (c : Byte) :
    received base s c = if flag .z s.p
      then keySlot (ramOf s) (keyCount (ramOf s) - 1) else c := by
  simp [received, Closing, lastCopied, h.at_iff]

theorem Running.received_dec (h : Running base .dec s) (c : Byte) :
    received base s c = keySlot (ramOf s) (keyCount (ramOf s) - 1) := by
  simp [received, Closing, lastCopied, h.at_iff]

theorem Removing.shifting_key {c : Byte} (h : Removing base pending p s)
    (hst : StoredAt (keyCount (ramOf s)) c (keySlot (ramOf s)) (keySlot (ramOf t)))
    (ha : t.a = s.a) (hx : t.x = s.x) (hy : t.y = s.y) (hp : t.p = s.p) :
    Shifting (pending ++ [received base s c]) t p := by
  have hat := h.at_point
  have hlen := h.length
  have hfirst : ∀ e, (pending ++ [e])[0]? = pending[0]? :=
    fun e => List.getElem?_append_left h.pos
  have hlonger : ∀ e, (pending ++ [e]).length = pending.length + 1 := fun e => by simp
  have hshift := h.shifting
  cases p with
  | sei =>
      rw [hat.received_early (by simp)]
      exact Unmoved.append hshift hst hlen (Or.inr rfl)
  | ldy =>
      rw [hat.received_early (by simp)]
      exact Unmoved.append hshift hst hlen (Or.inr rfl)
  | ldx =>
      rw [hat.received_early (by simp)]
      exact ⟨by rw [hfirst, hy]; exact hshift.1, hshift.2.append hst hlen (Or.inr rfl)⟩
  | lda =>
      obtain ⟨hyv, hxlt, hmoved, hrest⟩ := hshift
      rw [hat.received_early (by simp)]
      simp only [Shifting, hfirst, hlonger, hx, hy]
      exact ⟨hyv, by omega, hmoved.append hst hlen (Or.inl (hxlt.trans_eq hlen)),
        hrest.append hst hlen (Or.inr rfl)⟩
  | sta =>
      obtain ⟨hyv, hxlt, hmoved, hrest, hav⟩ := hshift
      rw [hat.received_sta]
      simp only [Shifting, hfirst, hlonger, hx, hy, ha]
      refine ⟨hyv, by omega, hmoved.append hst hlen (Or.inl (hxlt.trans_eq hlen)),
        hrest.append hst hlen ?_, fun hlt => ?_⟩
      · split
        · next hlast => exact Or.inl (by omega)
        · exact Or.inr rfl
      · rcases Nat.lt_or_ge (s.x.toNat + 1) pending.length with hin | hend
        · rw [List.getElem?_append_left hin]
          exact hav hin
        · have hnext : s.x.toNat + 1 = pending.length := by omega
          rw [hnext, List.getElem?_concat_length]
          exact congrArg some (if_pos hlen)
  | inx =>
      obtain ⟨hyv, hxlt, hmoved, hrest⟩ := hshift
      rw [hat.received_inx]
      simp only [Shifting, hfirst, hlonger, hx, hy]
      exact ⟨hyv, by omega, hmoved.append_closing hrest hst hlen (hxlt.trans_eq hlen)⟩
  | cpx =>
      obtain ⟨hyv, hxle, hmoved, hrest⟩ := hshift
      rw [hat.received_cpx]
      simp only [Shifting, hfirst, hlonger, hx, hy]
      exact ⟨hyv, by omega, hmoved.append_closing hrest hst hlen (hxle.trans_eq hlen)⟩
  | bne =>
      obtain ⟨hyv, hslots⟩ := hshift
      rw [hat.received_bne]
      simp only [Shifting, hfirst, hx, hy, hp]
      refine ⟨hyv, ?_⟩
      split
      · next hz =>
        rw [if_pos hz] at hslots
        exact hslots.append_all hst hlen rfl
      · next hz =>
        rw [if_neg hz] at hslots
        obtain ⟨hxlt, hmoved, hrest⟩ := hslots
        exact ⟨by rw [hlonger]; omega, hmoved.append hst hlen (Or.inl (hxlt.trans_eq hlen)),
          hrest.append hst hlen (Or.inr rfl)⟩
  | dec =>
      rw [hat.received_dec]
      exact ⟨by rw [hfirst, hy]; exact hshift.1, hshift.2.append_all hst hlen rfl⟩
  | tya =>
      rw [hat.received_late rfl]
      exact ⟨by rw [hfirst, hy]; exact hshift.1, hshift.2.append_taken hst hlen⟩
  | cli =>
      rw [hat.received_late rfl]
      exact ⟨by rw [hfirst, ha]; exact hshift.1, hshift.2.append_taken hst hlen⟩
  | done =>
      rw [hat.received_late rfl]
      exact ⟨by rw [hfirst, ha]; exact hshift.1, hshift.2.append_taken hst hlen⟩

theorem Removing.key (h : Removing base pending p s) (hplaced : Placed base) {c : Byte}
    (hroom : keyCount (ramOf s) < 10) {m : C64Mem} (hm : m.ram = storeKey c (ramOf s)) :
    Removing base (pending ++ [received base s c]) p { s with mem := m } := by
  have hram : ramOf { s with mem := m } = storeKey c (ramOf s) := hm
  have hcount : keyCount (storeKey c (ramOf s)) = keyCount (ramOf s) + 1 :=
    keyCount_storeKey (by omega) c
  have hst : StoredAt (keyCount (ramOf s)) c (keySlot (ramOf s)) (keySlot (storeKey c (ramOf s))) :=
    { same := fun i hi => by rw [keySlot_storeKey _ _ (by omega), if_neg (by omega)]
      new := by rw [keySlot_storeKey _ _ (by omega), if_pos rfl] }
  refine ⟨⟨h.at_point.run, ?_, h.at_point.pc⟩, ?_, by simp, ?_, ?_⟩
  · rw [hram]
    exact hplaced.code_storeKey h.at_point.code hroom c
  · rw [hram, hcount, List.length_append, h.length, List.length_singleton]
    omega
  · rw [hram, hcount]
    exact hroom
  · exact h.shifting_key (by rw [hram]; exact hst) rfl rfl rfl rfl

end arrival

end CDosX86
