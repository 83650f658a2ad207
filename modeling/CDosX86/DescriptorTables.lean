import CDosX86.Interrupts
import CDosX86.X86Descriptor

namespace CDosX86

open X86

-- `struct gdt_entry`, which is packed.
structure GdtEntry where
  limitLow : Word
  baseLow : Word
  baseMiddle : Byte
  access : Byte
  granularity : Byte
  baseHigh : Byte

def GdtEntry.bits (e : GdtEntry) : BitVec (8 + 8 + 8 + 8 + 16 + 16) :=
  e.baseHigh ++ e.granularity ++ e.access ++ e.baseMiddle ++ e.baseLow ++ e.limitLow

def gdtEntry (base limit : BitVec 32) (access gran : Byte) : GdtEntry where
  baseLow := (base &&& 0xFFFF).setWidth 16
  baseMiddle := (base >>> 16 &&& 0xFF).setWidth 8
  baseHigh := (base >>> 24 &&& 0xFF).setWidth 8
  limitLow := (limit &&& 0xFFFF).setWidth 16
  granularity := (limit >>> 16 &&& 0x0F).setWidth 8 ||| (gran &&& 0xF0)
  access := access

abbrev Gdt := Nat → GdtEntry

def gdtSetGate (num : Nat) (base limit : BitVec 32) (access gran : Byte) (gdt : Gdt) : Gdt :=
  Function.update gdt num (gdtEntry base limit access gran)

def gdtInstall (gdt : Gdt) : Gdt :=
  gdtSetGate 4 0 0xFFFFFFFF 0xF2 0xCF <|
    gdtSetGate 3 0 0xFFFFFFFF 0xFA 0xCF <|
      gdtSetGate 2 0 0xFFFFFFFF 0x92 0xCF <|
        gdtSetGate 1 0 0xFFFFFFFF 0x9A 0xCF <| gdtSetGate 0 0 0 0 0 gdt

-- `struct idt_entry`, which is packed.
structure IdtBytes where
  baseLow : Word
  sel : Word
  always0 : Byte
  flags : Byte
  baseHigh : Word

def IdtBytes.bits (e : IdtBytes) : BitVec (16 + 8 + 8 + 16 + 16) :=
  e.baseHigh ++ e.flags ++ e.always0 ++ e.sel ++ e.baseLow

def idtBytes (base : BitVec 32) (sel : Word) (flags : Byte) : IdtBytes where
  baseLow := (base &&& 0xFFFF).setWidth 16
  baseHigh := (base >>> 16 &&& 0xFFFF).setWidth 16
  sel := sel
  always0 := 0
  flags := flags

abbrev IdtTable := Nat → IdtBytes

def idtSetGateBytes (num : Byte) (base : BitVec 32) (sel : Word) (flags : Byte) (t : IdtTable) :
    IdtTable :=
  Function.update t num.toNat (idtBytes base sel flags)

def idtInstallBytes (t : IdtTable) : IdtTable :=
  Loop.upto (fun i => idtSetGateBytes (BitVec.ofNat 8 i) 0 0 0) 256 t

-- `address` is where the linker put the stubs of isr.asm.
def isrInstallBytes (address : Stub → BitVec 32) (t : IdtTable) : IdtTable :=
  Loop.upto
    (fun i => idtSetGateBytes (BitVec.ofNat 8 i) (address (.isr i)) kernelCode idtFlagsIntGate)
    32 t

def irqInstallBytes (address : Stub → BitVec 32) (t : IdtTable) : IdtTable :=
  Loop.upto
    (fun i =>
      idtSetGateBytes (BitVec.ofNat 8 (32 + i)) (address (.irq i)) kernelCode idtFlagsIntGate)
    16 t

def installedIdt (address : Stub → BitVec 32) (t : IdtTable) : IdtTable :=
  irqInstallBytes address (isrInstallBytes address (idtInstallBytes t))

def stubFor (vector : Nat) : Option Stub :=
  if vector < 32 then some (.isr vector)
  else if vector < 48 then some (.irq (vector - 32))
  else none

theorem low_word (x : BitVec 32) : (x &&& 0xFFFF).setWidth 16 = x.extractLsb' 0 16 := by
  ext k hk
  interval_cases k <;> simp

theorem high_word (x : BitVec 32) : (x >>> 16).extractLsb' 0 16 = x.extractLsb' 16 16 := by
  ext k hk
  interval_cases k <;> simp

theorem third_byte (x : BitVec 32) : (x >>> 16 &&& 0xFF).setWidth 8 = x.extractLsb' 16 8 := by
  ext k hk
  interval_cases k <;> simp

theorem fourth_byte (x : BitVec 32) : (x >>> 24 &&& 0xFF).setWidth 8 = x.extractLsb' 24 8 := by
  ext k hk
  interval_cases k <;> simp

theorem low_nibble (x : BitVec 32) (gran : Byte) :
    ((x >>> 16 &&& 0x0F).setWidth 8 ||| (gran &&& 0xF0)).extractLsb' 0 4 =
      x.extractLsb' 16 4 := by
  ext k hk
  interval_cases k <;> simp

theorem high_nibble (x : BitVec 32) (gran : Byte) :
    ((x >>> 16 &&& 0x0F).setWidth 8 ||| (gran &&& 0xF0)).extractLsb' 4 4 =
      gran.extractLsb' 4 4 := by
  ext k hk
  interval_cases k <;> simp

theorem segment_gdtEntry (base limit : BitVec 32) (access gran : Byte) :
    Segment.ofBits (gdtEntry base limit access gran).bits =
      { base := base
        limit := limit.setWidth 20
        access := access
        flags := gran.extractLsb' 4 4 } := by
  have hbase : base.extractLsb' 24 8 ++ base.extractLsb' 16 8 ++ base.extractLsb' 0 16 = base := by
    rw [BitVec.extractLsb'_append_extractLsb'_eq_extractLsb' (by decide : 24 = 16 + 8),
      BitVec.extractLsb'_append_extractLsb'_eq_extractLsb' (by decide : 16 = 0 + 16)]
    exact BitVec.extractLsb'_eq_self
  have hlimit : limit.extractLsb' 16 4 ++ limit.extractLsb' 0 16 = limit.setWidth 20 := by
    rw [BitVec.extractLsb'_append_extractLsb'_eq_extractLsb' (by decide : 16 = 0 + 16),
      BitVec.setWidth_eq_extractLsb' (by decide)]
  simp only [gdtEntry, GdtEntry.bits, Segment.ofBits_append, low_word, third_byte, fourth_byte,
    low_nibble, high_nibble, hbase, hlimit]

theorem gate_idtBytes (base : BitVec 32) (sel : Word) (flags : Byte) :
    GateDesc.ofBits (idtBytes base sel flags).bits =
      { offset := base, sel := sel, attributes := flags } := by
  have hbase : base.extractLsb' 16 16 ++ base.extractLsb' 0 16 = base := by
    rw [BitVec.extractLsb'_append_extractLsb'_eq_extractLsb' (by decide : 16 = 0 + 16)]
    exact BitVec.extractLsb'_eq_self
  simp only [idtBytes, IdtBytes.bits, GateDesc.ofBits_append, low_word, high_word, hbase]

theorem upto_gates (base : Nat) (entry : Nat → BitVec 32) (sel : Word) (flags : Byte) {n : Nat}
    (hn : base + n ≤ 256) (t : IdtTable) (v : Nat) :
    Loop.upto (fun i => idtSetGateBytes (BitVec.ofNat 8 (base + i)) (entry i) sel flags) n t v =
      if base ≤ v ∧ v < base + n then idtBytes (entry (v - base)) sel flags else t v := by
  have hbody : ∀ i < n, idtSetGateBytes (BitVec.ofNat 8 (base + i)) (entry i) sel flags =
      fun t => Function.update t (base + i) (idtBytes (entry i) sel flags) := by
    intro i hi
    have hnum : (BitVec.ofNat 8 (base + i)).toNat = base + i := by
      rw [BitVec.toNat_ofNat]
      exact Nat.mod_eq_of_lt (by omega)
    funext t
    rw [idtSetGateBytes, hnum]
  rw [Loop.upto_congr hbody, Loop.upto_table]

theorem installedIdt_apply (address : Stub → BitVec 32) (t : IdtTable) {v : Nat} (hv : v < 256) :
    installedIdt address t v =
      match stubFor v with
      | some stub => idtBytes (address stub) kernelCode idtFlagsIntGate
      | none => idtBytes 0 0 0 := by
  have hidt := upto_gates 0 (fun _ => 0) 0 0 (by decide : 0 + 256 ≤ 256) t v
  have hisr := upto_gates 0 (fun i => address (.isr i)) kernelCode idtFlagsIntGate
    (by decide : 0 + 32 ≤ 256) (idtInstallBytes t) v
  have hirq := upto_gates 32 (fun i => address (.irq i)) kernelCode idtFlagsIntGate
    (by decide : 32 + 16 ≤ 256) (isrInstallBytes address (idtInstallBytes t)) v
  simp only [Nat.zero_add, Nat.zero_le, true_and, Nat.sub_zero] at hidt hisr
  rw [installedIdt, irqInstallBytes, hirq, isrInstallBytes, hisr, idtInstallBytes, hidt, stubFor,
    if_pos hv]
  rcases Nat.lt_or_ge v 32 with hlow | hhigh
  · rw [if_neg (by omega), if_pos hlow, if_pos hlow]
  · rw [if_neg (Nat.not_lt.mpr hhigh), if_neg (Nat.not_lt.mpr hhigh)]
    rcases Nat.lt_or_ge v 48 with hirqs | hrest
    · rw [if_pos ⟨hhigh, hirqs⟩, if_pos hirqs]
    · rw [if_neg (by omega), if_neg (by omega)]

def gdtAccess : Nat → Byte
  | 1 => 0x9A
  | 2 => 0x92
  | 3 => 0xFA
  | _ => 0xF2

theorem segment_gdtInstall (gdt : Gdt) {i : Nat} (hi : 1 ≤ i ∧ i ≤ 4) :
    Segment.ofBits (gdtInstall gdt i).bits =
      { base := 0, limit := 0xFFFFF, access := gdtAccess i, flags := 0xC } := by
  have hflat := fun access => segment_gdtEntry 0 0xFFFFFFFF access 0xCF
  obtain ⟨hlow, hhigh⟩ := hi
  interval_cases i
  · exact hflat 0x9A
  · exact hflat 0x92
  · exact hflat 0xFA
  · exact hflat 0xF2

-- The four segments lie over one another, on all of the address space.
theorem gdt_flat (gdt : Gdt) {i : Nat} (hi : 1 ≤ i ∧ i ≤ 4) (offset : Dword) :
    (Segment.ofBits (gdtInstall gdt i).bits).linear offset = some offset := by
  have hpages : (0xC : BitVec 4).getLsbD 3 = true := by decide
  rw [segment_gdtInstall gdt hi]
  exact Segment.linear_flat rfl rfl hpages offset

-- The table of `Interrupts`, which names the stubs instead of their addresses.
theorem irqInstall_apply (idt : Idt) {v : Nat} (hv : v < 256) :
    irqInstall (isrInstall (idtInstall idt)) v =
      match stubFor v with
      | some stub => { base := some stub, sel := kernelCode, flags := idtFlagsIntGate }
      | none => { base := none, sel := 0, flags := 0 } := by
  have hidt := Loop.upto_table 0 (fun _ => ({ base := none, sel := 0, flags := 0 } : IdtEntry))
    idt 256 v
  have hisr := Loop.upto_table 0
    (fun i => ({ base := some (.isr i), sel := kernelCode, flags := idtFlagsIntGate } : IdtEntry))
    (idtInstall idt) 32 v
  have hirq := Loop.upto_table 32
    (fun i => ({ base := some (.irq i), sel := kernelCode, flags := idtFlagsIntGate } : IdtEntry))
    (isrInstall (idtInstall idt)) 16 v
  simp only [Nat.zero_add, Nat.zero_le, true_and, Nat.sub_zero] at hidt hisr
  refine hirq.trans ?_
  rw [stubFor]
  rcases Nat.lt_or_ge v 32 with hlow | hhigh
  · rw [if_neg (by omega), if_pos hlow]
    exact hisr.trans (if_pos hlow)
  · rw [if_neg (Nat.not_lt.mpr hhigh)]
    rcases Nat.lt_or_ge v 48 with hirqs | hrest
    · rw [if_pos ⟨hhigh, hirqs⟩, if_pos hirqs]
    · rw [if_neg (by omega), if_neg (by omega)]
      exact (hisr.trans (if_neg (by omega))).trans (hidt.trans (if_pos hv))

theorem gate_installed (address : Stub → BitVec 32) (t : IdtTable) (v : Byte) :
    GateDesc.ofBits (installedIdt address t v.toNat).bits =
      match stubFor v.toNat with
      | some stub => { offset := address stub, sel := kernelCode, attributes := idtFlagsIntGate }
      | none => { offset := 0, sel := 0, attributes := 0 } := by
  rw [installedIdt_apply address t v.isLt]
  cases stubFor v.toNat with
  | none => exact gate_idtBytes 0 0 0
  | some stub => exact gate_idtBytes (address stub) kernelCode idtFlagsIntGate

theorem present_installed (address : Stub → BitVec 32) (t : IdtTable) (v : Byte) :
    (GateDesc.ofBits (installedIdt address t v.toNat).bits).present =
      (stubFor v.toNat).isSome := by
  have hclear : (0 : BitVec 8).getLsbD 7 = false := by decide
  have hset : idtFlagsIntGate.getLsbD 7 = true := by decide
  rw [gate_installed]
  cases stubFor v.toNat with
  | none => exact hclear
  | some stub => exact hset

theorem isSome_stubFor (v : Nat) : (stubFor v).isSome = true ↔ v < 48 := by
  rw [stubFor]
  split_ifs <;> simp <;> omega

theorem entryPoint_installed (address : Stub → BitVec 32) (gdt : Gdt) (t : IdtTable) (v : Byte) :
    entryPoint (fun i => Segment.ofBits (gdtInstall gdt i).bits)
      (fun i => GateDesc.ofBits (installedIdt address t i).bits) v.toNat =
        (stubFor v.toNat).map address := by
  have hpresent := present_installed address t v
  have hgate := gate_installed address t v
  cases hstub : stubFor v.toNat with
  | none =>
      rw [hstub] at hpresent
      exact entryPoint_absent hpresent
  | some stub =>
      have hopen : (idtFlagsIntGate.getLsbD 7 &&
          decide (idtFlagsIntGate.extractLsb' 0 5 = 0x0E) && (gdtAccess 1).getLsbD 7 &&
            ((gdtAccess 1).getLsbD 4 && (gdtAccess 1).getLsbD 3)) = true := by
        decide
      have hindex : kernelCode.toNat / 8 = 1 := rfl
      have hsegment : Segment.ofBits (gdtInstall gdt (kernelCode.toNat / 8)).bits =
          { base := 0, limit := 0xFFFFF, access := gdtAccess 1, flags := 0xC } := by
        rw [hindex]
        exact segment_gdtInstall gdt (by decide)
      have hflat := gdt_flat gdt (by decide : 1 ≤ 1 ∧ 1 ≤ 4) (address stub)
      rw [hstub] at hgate
      dsimp only at hgate
      rw [segment_gdtInstall gdt (by decide)] at hflat
      exact Eq.trans (entryPoint_open hgate hsegment hopen) hflat

-- What the processor makes of the bytes of both tables is what the model of the interrupts says.
theorem vectors_reach_their_stubs (address : Stub → BitVec 32) (gdt : Gdt) (t : IdtTable)
    (idt : Idt) (v : Byte) :
    (irqInstall (isrInstall (idtInstall idt)) v.toNat).base = stubFor v.toNat ∧
      entryPoint (fun i => Segment.ofBits (gdtInstall gdt i).bits)
        (fun i => GateDesc.ofBits (installedIdt address t i).bits) v.toNat =
          (irqInstall (isrInstall (idtInstall idt)) v.toNat).base.map address ∧
      ((GateDesc.ofBits (installedIdt address t v.toNat).bits).present = true ↔
        v.toNat < 48) := by
  have hbase : (irqInstall (isrInstall (idtInstall idt)) v.toNat).base = stubFor v.toNat := by
    rw [irqInstall_apply idt v.isLt]
    cases stubFor v.toNat with
    | none => rfl
    | some stub => rfl
  refine ⟨hbase, ?_, ?_⟩
  · rw [hbase]
    exact entryPoint_installed address gdt t v
  · rw [present_installed]
    exact isSome_stubFor v.toNat

end CDosX86
