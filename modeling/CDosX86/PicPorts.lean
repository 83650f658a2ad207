import CDosX86.I8259
import CDosX86.IrqStub

namespace CDosX86

open I8259 (Pair Chip)

def pic1Cmd : Port := 0x20

def pic1Data : Port := 0x21

def pic2Cmd : Port := 0xA0

def pic2Data : Port := 0xA1

section

variable {σ : Type} [Ports σ]

def picRemap (w : σ) : σ :=
  let (mask1, w) := Ports.inb pic1Data w
  let (mask2, w) := Ports.inb pic2Data w
  let w := ioWait (Ports.outb pic1Cmd 0x11 w)
  let w := ioWait (Ports.outb pic2Cmd 0x11 w)
  let w := ioWait (Ports.outb pic1Data 0x20 w)
  let w := ioWait (Ports.outb pic2Data 0x28 w)
  let w := ioWait (Ports.outb pic1Data 4 w)
  let w := ioWait (Ports.outb pic2Data 2 w)
  let w := ioWait (Ports.outb pic1Data 0x01 w)
  let w := ioWait (Ports.outb pic2Data 0x01 w)
  Ports.outb pic2Data mask2 (Ports.outb pic1Data mask1 w)

def picLine (irqLine : Nat) : Port × Nat :=
  if irqLine < 8 then (pic1Data, irqLine) else (pic2Data, irqLine - 8)

def picSetMask (irqLine : Nat) (w : σ) : σ :=
  let (port, line) := picLine irqLine
  let (value, w) := Ports.inb port w
  Ports.outb port (value ||| (1 : Byte) <<< line) w

def picClearMask (irqLine : Nat) (w : σ) : σ :=
  let (port, line) := picLine irqLine
  let (value, w) := Ports.inb port w
  Ports.outb port (value &&& ~~~((1 : Byte) <<< line)) w

end

-- The ports of the two controllers on a PC.
instance : Ports Pair where
  inb port p :=
    if port = pic1Cmd then (p.master.irr, p)
    else if port = pic1Data then (p.master.imr, p)
    else if port = pic2Cmd then (p.slave.irr, p)
    else if port = pic2Data then (p.slave.imr, p)
    else (0xFF, p)
  outb port v p :=
    if port = pic1Cmd then { p with master := p.master.command v }
    else if port = pic1Data then { p with master := p.master.data v }
    else if port = pic2Cmd then { p with slave := p.slave.command v }
    else if port = pic2Data then { p with slave := p.slave.data v }
    else p
  inw _ p := (0xFFFF, p)
  outw _ _ p := p

-- What `pic_remap` makes of a controller.
structure Remapped (base cascade : Byte) (c : Chip) : Prop where
  setup : c.setup = .done
  base : c.base = base
  cascade : c.cascade = cascade
  mode8086 : c.mode8086 = true
  autoEoi : c.autoEoi = false

structure Programmed (p : Pair) : Prop where
  master : Remapped 0x20 4 p.master
  slave : Remapped 0x28 2 p.slave

def masksOf (p : Pair) : Pic := { mask1 := p.master.imr, mask2 := p.slave.imr }

theorem picRemap_pair (p : Pair) :
    picRemap p =
      { master :=
          { setup := .done, imr := p.master.imr, irr := 0, isr := 0, base := 0x20, cascade := 4,
            mode8086 := true, autoEoi := false }
        slave :=
          { setup := .done, imr := p.slave.imr, irr := 0, isr := 0, base := 0x28, cascade := 2,
            mode8086 := true, autoEoi := false } } := rfl

theorem programmed_picRemap (p : Pair) : Programmed (picRemap p) := by
  rw [picRemap_pair]
  exact ⟨⟨rfl, rfl, rfl, rfl, rfl⟩, ⟨rfl, rfl, rfl, rfl, rfl⟩⟩

-- The two controllers with other masks.
def withMasks (pic : Pic) (p : Pair) : Pair where
  master := { p.master with imr := pic.mask1 }
  slave := { p.slave with imr := pic.mask2 }

theorem Chip.data_done {c : Chip} (h : c.setup = .done) (v : Byte) :
    c.data v = { c with imr := v } := by
  rw [I8259.Chip.data, h]

theorem picSetMask_pair {p : Pair} (h : Programmed p) (irqLine : Nat) :
    picSetMask irqLine p = withMasks ((masksOf p).setMask irqLine) p := by
  rw [picSetMask, picLine, Pic.setMask]
  split_ifs
  · exact congrArg (fun c => { p with master := c }) (Chip.data_done h.master.setup _)
  · exact congrArg (fun c => { p with slave := c }) (Chip.data_done h.slave.setup _)

theorem picClearMask_pair {p : Pair} (h : Programmed p) (irqLine : Nat) :
    picClearMask irqLine p = withMasks ((masksOf p).clearMask irqLine) p := by
  rw [picClearMask, picLine, Pic.clearMask]
  split_ifs
  · exact congrArg (fun c => { p with master := c }) (Chip.data_done h.master.setup _)
  · exact congrArg (fun c => { p with slave := c }) (Chip.data_done h.slave.setup _)

theorem Programmed.withMasks {p : Pair} (h : Programmed p) (pic : Pic) :
    Programmed (withMasks pic p) :=
  ⟨⟨h.master.setup, h.master.base, h.master.cascade, h.master.mode8086, h.master.autoEoi⟩,
    ⟨h.slave.setup, h.slave.base, h.slave.cascade, h.slave.mode8086, h.slave.autoEoi⟩⟩

theorem Remapped.congr {base cascade : Byte} {c d : Chip} (h : Remapped base cascade c)
    (hsetup : d.setup = c.setup) (hbase : d.base = c.base) (hcascade : d.cascade = c.cascade)
    (hmode : d.mode8086 = c.mode8086) (hauto : d.autoEoi = c.autoEoi) :
    Remapped base cascade d :=
  ⟨hsetup.trans h.setup, hbase.trans h.base, hcascade.trans h.cascade, hmode.trans h.mode8086,
    hauto.trans h.autoEoi⟩

-- The request of `irq` is the one that the processor takes from the controllers.
inductive Acked (p : Pair) : Nat → Pair → Prop
  | master {i : Nat} : i ≠ I8259.slaveLine → p.masterInput.pending = some i →
      Acked p i { p with master := p.masterInput.serve i }
  | slave {j : Nat} : p.masterInput.pending = some I8259.slaveLine → p.slave.pending = some j →
      Acked p (8 + j)
        { master := p.masterInput.serve I8259.slaveLine, slave := p.slave.serve j }

theorem slave_pending {p : Pair} (h : p.masterInput.pending = some I8259.slaveLine) :
    ∃ j, p.slave.pending = some j := by
  obtain ⟨-, hbit, -, -⟩ := Chip.pending_eq_some h
  cases hslave : p.slave.pending with
  | some j => exact ⟨j, rfl⟩
  | none =>
      rw [Pair.masterInput, hslave] at hbit
      simp only [Option.isSome_none, Bool.false_eq_true, if_false, BitVec.getLsbD_and,
        BitVec.getLsbD_not, I8259.getLsbD_line, I8259.slaveLine] at hbit
      simp at hbit

theorem acknowledge_cases {p q : Pair} {v : Byte} (h : Programmed p)
    (hack : p.acknowledge = some (v, q)) :
    ∃ irq < 16, v = BitVec.ofNat 8 (32 + irq) ∧ Acked p irq q := by
  obtain ⟨i, hpending, hanswer⟩ := Option.map_eq_some_iff.mp hack
  obtain ⟨hi, -, -, -⟩ := Chip.pending_eq_some hpending
  have hcascade : (p.masterInput.serve i).cascade.getLsbD i = decide (i = I8259.slaveLine) := by
    rw [show (p.masterInput.serve i).cascade = 4 from h.master.cascade]
    interval_cases i <;> rfl
  dsimp only at hanswer
  rw [hcascade] at hanswer
  rcases eq_or_ne i I8259.slaveLine with rfl | hne
  · obtain ⟨j, hslave⟩ := slave_pending hpending
    obtain ⟨hj, -, -, -⟩ := Chip.pending_eq_some hslave
    have hname : (p.slave.cascade &&& 7).toNat = I8259.slaveLine := by
      rw [h.slave.cascade]
      rfl
    rw [decide_eq_true rfl, if_pos rfl, hslave] at hanswer
    dsimp only at hanswer
    rw [if_pos hname] at hanswer
    obtain ⟨rfl, rfl⟩ := Prod.mk.inj hanswer
    refine ⟨8 + j, by omega, ?_, .slave hpending hslave⟩
    rw [Chip.vector, h.slave.base]
    interval_cases j <;> rfl
  · rw [decide_eq_false hne, if_neg Bool.false_ne_true] at hanswer
    obtain ⟨rfl, rfl⟩ := Prod.mk.inj hanswer
    refine ⟨i, by omega, ?_, .master hne hpending⟩
    rw [Chip.vector, show (p.masterInput.serve i).base = 0x20 from h.master.base]
    interval_cases i <;> rfl

theorem masksOf_raise (irq : Nat) (p : Pair) : masksOf (p.raise irq) = masksOf p := by
  rw [Pair.raise]
  split <;> rfl

theorem masksOf_endOfInterrupt (irq : Nat) (p : Pair) :
    masksOf (p.endOfInterrupt irq) = masksOf p := by
  rw [Pair.endOfInterrupt, masksOf, masksOf, Chip.imr_endOfInterrupt]
  split_ifs
  · rfl
  · rw [Chip.imr_endOfInterrupt]

theorem picSendEoi_pair (irq : Byte) (p : Pair) :
    picSendEoi irq p = p.endOfInterrupt irq.toNat := by
  have hlow : irq ≥ 8 ↔ ¬ irq.toNat < 8 := by bv_omega
  rw [picSendEoi, Pair.endOfInterrupt]
  simp only [hlow]
  split_ifs <;> rfl

-- What one interrupt may do to the controllers while it is served: lines are raised, masks set
-- and cleared, and other interrupts are served from beginning to end.
inductive Nested : Pair → Pair → Prop
  | done (p : Pair) : Nested p p
  | raise {p q : Pair} (irq : Nat) : Nested (p.raise irq) q → Nested p q
  | setMask {p q : Pair} (irqLine : Nat) : Nested (picSetMask irqLine p) q → Nested p q
  | clearMask {p q : Pair} (irqLine : Nat) : Nested (picClearMask irqLine p) q → Nested p q
  | serve {p p' q r : Pair} {v : Byte} : p.acknowledge = some (v, p') → Nested p' q →
      Nested (picSendEoi (v - 32) q) r → Nested p r

structure SameService (p q : Pair) : Prop where
  programmed : Programmed q
  master : q.master.isr = p.master.isr
  slave : q.slave.isr = p.slave.isr

theorem Programmed.acked {p q : Pair} {irq : Nat} (h : Programmed p) (htaken : Acked p irq q) :
    Programmed q := by
  cases htaken with
  | master => exact ⟨h.master.congr rfl rfl rfl rfl rfl, h.slave⟩
  | slave => exact ⟨h.master.congr rfl rfl rfl rfl rfl, h.slave.congr rfl rfl rfl rfl rfl⟩

theorem Programmed.raise {p : Pair} (h : Programmed p) (irq : Nat) : Programmed (p.raise irq) := by
  rw [Pair.raise]
  split_ifs
  · exact ⟨h.master.congr rfl rfl rfl rfl rfl, h.slave⟩
  · exact ⟨h.master, h.slave.congr rfl rfl rfl rfl rfl⟩

theorem eoi_remapped {base cascade : Byte} {c : Chip} (h : Remapped base cascade c) :
    Remapped base cascade c.endOfInterrupt := by
  rw [Chip.endOfInterrupt]
  split
  · exact h.congr rfl rfl rfl rfl rfl
  · exact h

theorem Programmed.endOfInterrupt {p : Pair} (h : Programmed p) (irq : Nat) :
    Programmed (p.endOfInterrupt irq) := by
  rw [Pair.endOfInterrupt]
  split_ifs
  · exact ⟨eoi_remapped h.master, h.slave⟩
  · exact ⟨eoi_remapped h.master, eoi_remapped h.slave⟩

theorem Acked.ended {p q r : Pair} {irq : Nat} (h : Programmed p) (htaken : Acked p irq q)
    (hsame : SameService q r) : SameService p (r.endOfInterrupt irq) := by
  have hauto : p.masterInput.autoEoi = false := h.master.autoEoi
  refine ⟨hsame.programmed.endOfInterrupt irq, ?_, ?_⟩
  · cases htaken with
    | master _ hpending => exact Chip.isr_endOfInterrupt hauto hpending hsame.master
    | slave hpending _ => exact Chip.isr_endOfInterrupt hauto hpending hsame.master
  · cases htaken with
    | master _ hpending =>
        obtain ⟨hi, -, -, -⟩ := Chip.pending_eq_some hpending
        rw [Pair.endOfInterrupt, if_pos hi]
        exact hsame.slave
    | slave _ hslave =>
        rw [Pair.endOfInterrupt, if_neg (by omega)]
        exact Chip.isr_endOfInterrupt h.slave.autoEoi hslave hsame.slave

theorem nested_sameService {p q : Pair} (hnested : Nested p q) (h : Programmed p) :
    SameService p q := by
  induction hnested with
  | done p => exact ⟨h, rfl, rfl⟩
  | @raise p q irq _ ih =>
      obtain ⟨hprog, hmaster, hslave⟩ := ih (h.raise irq)
      rw [Pair.master_isr_raise] at hmaster
      rw [Pair.slave_isr_raise] at hslave
      exact ⟨hprog, hmaster, hslave⟩
  | setMask irqLine _ ih =>
      rw [picSetMask_pair h] at ih
      obtain ⟨hprog, hmaster, hslave⟩ := ih (h.withMasks _)
      exact ⟨hprog, hmaster, hslave⟩
  | clearMask irqLine _ ih =>
      rw [picClearMask_pair h] at ih
      obtain ⟨hprog, hmaster, hslave⟩ := ih (h.withMasks _)
      exact ⟨hprog, hmaster, hslave⟩
  | @serve p p' q r v hack _ _ ihBody ihRest =>
      obtain ⟨irq, hirq, rfl, htaken⟩ := acknowledge_cases h hack
      have hno : (BitVec.ofNat 8 (32 + irq) - 32).toNat = irq := by bv_omega
      rw [picSendEoi_pair, hno] at ihRest
      have hended := htaken.ended h (ihBody (h.acked htaken))
      obtain ⟨hprog, hmaster, hslave⟩ := ihRest hended.programmed
      exact ⟨hprog, hmaster.trans hended.master, hslave.trans hended.slave⟩

-- Two controllers that nobody has set up.
def coldChip : Chip where
  setup := .icw3 true
  imr := 0
  irr := 0xFF
  isr := 0x05
  base := 0x08
  cascade := 0
  mode8086 := false
  autoEoi := true

def coldPics : Pair where
  master := coldChip
  slave := coldChip

-- The keyboard comes in while the disk's interrupt is served.
theorem nested_sameService_disk : ∃ q, SameService (picRemap coldPics) q := by
  have hkeyboard : ∀ q v p', q.acknowledge = some (v, p') → Nested q (picSendEoi (v - 32) p') :=
    fun q v p' hack => .serve hack (.done p') (.done _)
  have hnested : Nested (picRemap coldPics) _ :=
    .raise 14 (.serve (v := 0x2E) rfl (.raise 1 (hkeyboard _ 0x21 _ rfl)) (.done _))
  exact ⟨_, nested_sameService hnested (programmed_picRemap coldPics)⟩

end CDosX86
