import CDosX86.KeyHistory
import CDosX86.PicPorts
import CDosX86.PromptInvariant

namespace CDosX86

open I8259 (Pair)
open Kernel

inductive PicCall where
  | remap
  | setMasks
  | setMask (irqLine : Nat)
  | clearMask (irqLine : Nat)
  | sendEoi (irq : Nat)

namespace PicCall

def run {σ : Type} [Ports σ] : PicCall → σ → σ
  | .remap => picRemap
  | .setMasks => Loop.upto picSetMask 16
  | .setMask irqLine => picSetMask irqLine
  | .clearMask irqLine => picClearMask irqLine
  | .sendEoi irq => picSendEoi (BitVec.ofNat 8 irq)

def masks : PicCall → Pic → Pic
  | .setMasks => Loop.upto Pic.setMask 16
  | .setMask irqLine => Pic.setMask irqLine
  | .clearMask irqLine => Pic.clearMask irqLine
  | _ => id

def service : PicCall → Bool → Bool
  | .sendEoi _, _ => false
  | _, inService => inService

def fromStub : PicCall → Bool
  | .setMask irqLine | .clearMask irqLine => irqLine == keyboardIrq
  | .sendEoi _ => true
  | _ => false

end PicCall

-- The function of pic.c that the kernel calls between two points of its code.
def picCalled : Control → Control → Option PicCall
  | .main .picRemap, _ => some .remap
  | .main .setMasks, _ => some .setMasks
  | .main .clearMask, _ => some (.clearMask keyboardIrq)
  | .stub _ _ .handler, .stub _ _ (.boot _) => some (.setMask 1)
  | .stub _ _ (.boot _), .stub _ _ .eoi => some (.clearMask 1)
  | .stub irq _ .eoi, _ => some (.sendEoi irq)
  | _, _ => none

def MainPoint.remapped : MainPoint → Bool
  | .gdtInstall | .idtInstall | .isrInstall | .picRemap => false
  | _ => true

theorem MainPoint.remapped_of_afterSti {p : MainPoint} (h : p.afterSti = true) :
    p.remapped = true := by
  cases p <;> first | rfl | cases h

theorem picCalled_main {p : MainPoint} (hp : p.remapped = true) (c : Control) :
    picCalled (.main p) c ≠ some .remap := by
  cases p with
  | picRemap => cases hp
  | _ => simp [picCalled]

-- The two controllers do what the masks and the flag of the system say of them.
structure Agrees (p : Pair) (pic : Pic) (inService : Bool) : Prop where
  programmed : Programmed p
  masks : masksOf p = pic
  master : p.master.isr = if inService then 2 else 0
  slave : p.slave.isr = 0

namespace Agrees

variable {p : Pair} {pic : Pic} {inService : Bool}

theorem remap (p : Pair) : Agrees (picRemap p) (masksOf p) false := by
  refine ⟨programmed_picRemap p, ?_, ?_, ?_⟩ <;> rw [picRemap_pair] <;> rfl

theorem setMask (h : Agrees p pic inService) (irqLine : Nat) :
    Agrees (picSetMask irqLine p) (pic.setMask irqLine) inService := by
  rw [picSetMask_pair h.programmed, h.masks]
  exact ⟨h.programmed.withMasks _, rfl, h.master, h.slave⟩

theorem clearMask (h : Agrees p pic inService) (irqLine : Nat) :
    Agrees (picClearMask irqLine p) (pic.clearMask irqLine) inService := by
  rw [picClearMask_pair h.programmed, h.masks]
  exact ⟨h.programmed.withMasks _, rfl, h.master, h.slave⟩

theorem setMasks (h : Agrees p pic inService) (n : Nat) :
    Agrees (Loop.upto picSetMask n p) (Loop.upto Pic.setMask n pic) inService := by
  induction n with
  | zero => exact h
  | succ n ih => exact ih.setMask n

theorem sendEoi (h : Agrees p pic inService) (irq : Byte) :
    Agrees (picSendEoi irq p) pic false := by
  obtain ⟨hprogrammed, hmasks, hmaster, hslave⟩ := h
  rw [picSendEoi_pair]
  refine ⟨hprogrammed.endOfInterrupt _, (masksOf_endOfInterrupt _ p).trans hmasks, ?_, ?_⟩
  · cases inService with
    | false =>
        change p.master.endOfInterrupt.isr = _
        rw [I8259.Chip.endOfInterrupt_idle hmaster]
        exact hmaster
    | true =>
        change p.master.endOfInterrupt.isr = _
        rw [I8259.Chip.endOfInterrupt, hmaster]
        rfl
  · rw [Pair.endOfInterrupt, I8259.Chip.endOfInterrupt_idle hslave]
    split_ifs <;> exact hslave

theorem raise (h : Agrees p pic inService) (irq : Nat) : Agrees (p.raise irq) pic inService :=
  ⟨h.programmed.raise irq, (masksOf_raise irq p).trans h.masks,
    (p.master_isr_raise irq).trans h.master, (p.slave_isr_raise irq).trans h.slave⟩

theorem called (h : Agrees p pic inService) {c : PicCall} (hc : c ≠ .remap) :
    Agrees (c.run p) (c.masks pic) (c.service inService) := by
  cases c with
  | remap => exact absurd rfl hc
  | setMasks => exact h.setMasks 16
  | setMask irqLine => exact h.setMask irqLine
  | clearMask irqLine => exact h.clearMask irqLine
  | sendEoi irq => exact h.sendEoi _

end Agrees

namespace Kernel

variable {δ : Type} [Ports δ] {k k' : Kernel δ}

-- Without polls `cmd_c64boot` ends only when it does not start.
theorem pic_cmdC64boot (hrun : k.cmdC64boot [] = some k') : k'.pic = k.pic := by
  have hinit := (c64Init_undisturbed k).pic
  rw [cmdC64boot] at hrun
  dsimp only at hrun
  split_ifs at hrun with hstart
  · rw [← Option.some_inj.mp hrun]
    rw [bootStart] at hstart ⊢
    dsimp only at hstart ⊢
    split_ifs at hstart ⊢
    · simpa using hinit
    · exact absurd rfl hstart
  · have hrunning := bootStart_running (not_not.mp hstart)
    rw [bootLoop, if_neg (by simpa [bootState])] at hrun
    cases hrun

theorem pic_runCommand {c : Command} {tokens : List (List Byte)}
    (hrun : k.runCommand c tokens [] = some k') : k'.pic = k.pic := by
  cases c with
  | c64boot => exact pic_cmdC64boot hrun
  | c64resume =>
      cases hrun
      exact pic_cmdC64resume k
  | dir =>
      cases hrun
      exact (cmdDir_undisturbed k).pic
  | type =>
      cases hrun
      exact (cmdType_undisturbed tokens k).pic
  | disktest =>
      cases hrun
      exact (cmdDisktest_undisturbed k).pic
  | poke =>
      cases hrun
      exact (cmdPoke_undisturbed tokens k).pic
  | _ =>
      rw [Kernel.runCommand, Option.some_inj] at hrun
      rw [← hrun]
      simp

theorem pic_shellExecute {line : List Byte} (hrun : k.shellExecute line [] = some k') :
    k'.pic = k.pic := by
  obtain rfl | rfl | ⟨s, rfl⟩ | ⟨c, -, hrun⟩ := shellExecute_cases hrun
  · simp
  · rfl
  · simp
  · exact pic_runCommand hrun

theorem pic_keyboardHandler {scancode : Byte} (hrun : k.keyboardHandler scancode [] = some k') :
    k'.pic = k.pic := by
  rw [Kernel.keyboardHandler] at hrun
  dsimp only at hrun
  split at hrun
  · split at hrun
    · rw [← Option.some_inj.mp hrun]
      simp
    · rw [shellInputChar] at hrun
      split_ifs at hrun
      · split at hrun
        · next k₁ hline =>
          have hpic := pic_shellExecute hline
          rw [← Option.some_inj.mp hrun, shellPrompt]
          simpa using hpic
        · cases hrun
      · rw [← Option.some_inj.mp hrun]
        simp
      · rw [← Option.some_inj.mp hrun]
      · rw [← Option.some_inj.mp hrun]
        simp
      · rw [← Option.some_inj.mp hrun]
  · rw [← Option.some_inj.mp hrun]

omit [Ports δ] in
theorem pic_entersCommand {scancode : Byte} {c : Command}
    (h : k.entersCommand scancode = some (c, k')) : k'.pic = k.pic := by
  rw [entersCommand] at h
  dsimp only at h
  split_ifs at h
  obtain ⟨_, -, heq⟩ := Option.map_eq_some_iff.mp h
  rw [← (Prod.mk.inj heq).2]
  simp

omit [Ports δ] in
theorem pic_lineDone (k : Kernel δ) : k.lineDone.pic = k.pic := by
  rw [lineDone, shellPrompt]
  simp

omit [Ports δ] in
theorem pic_resumeEnd (steps : Nat) (k : Kernel δ) : (k.resumeEnd steps).pic = k.pic := by
  simp only [resumeEnd]
  split <;> simp

theorem pic_bootStart (h : k.bootStart.1 = 0) : k.bootStart.2.pic = k.pic.setMask 1 := by
  have hinit := (c64Init_undisturbed k).pic
  rw [bootStart] at h ⊢
  dsimp only at h ⊢
  split_ifs at h ⊢
  · cases h
  · simp [hinit]

end Kernel

namespace System

variable {δ : Type} [Ports δ]

def picsAfter (s s' : System δ) : Pair → Pair :=
  (picCalled s.current s'.current).elim id PicCall.run

theorem mainStep_pic {s : System δ} {p : MainPoint} (hcur : s.current = .main p) :
    (s.mainStep p).kernel.pic =
      ((picCalled s.current (s.mainStep p).current).elim id PicCall.masks) s.kernel.pic := by
  rw [hcur]
  cases p with
  | consoleInit => simp [mainStep, picCalled]
  | ataInit => rfl
  | printReady => simp [mainStep, picCalled, printReady]
  | shellInit => simp [mainStep, picCalled, Kernel.shellInit, shellPrompt]
  | _ => rfl

theorem step_pic {s s' : System δ} (hstep : Step s s') (hcode : s'.below.length ≤ s.below.length) :
    s'.kernel.pic = ((picCalled s.current s'.current).elim id PicCall.masks) s.kernel.pic := by
  cases hstep with
  | main hcur => exact mainStep_pic hcur
  | deliver => exact absurd hcode (Nat.not_succ_le_self _)
  | cli hcur =>
      rw [hcur]
      rfl
  | noRoutine hcur _ =>
      rw [hcur]
      rfl
  | handled hcur _ _ hrun =>
      rw [hcur]
      exact pic_keyboardHandler hrun
  | resumeStart hcur _ henter =>
      rw [hcur]
      simpa [picCalled, Kernel.resumeStart] using pic_entersCommand henter
  | resumeStep hcur _ _ => simp [hcur, picCalled]
  | resumeEnd hcur _ => simp [hcur, picCalled, pic_lineDone, pic_resumeEnd]
  | bootStart hcur _ henter hstart =>
      rw [hcur]
      exact (pic_bootStart hstart).trans (congrArg (Pic.setMask 1) (pic_entersCommand henter))
  | bootRound hcur _ _ =>
      rw [hcur]
      rfl
  | bootExit hcur _ _ =>
      rw [hcur]
      exact (pic_lineDone _).trans (pic_bootEnd _ _)
  | bootHalted hcur _ =>
      rw [hcur]
      exact (pic_lineDone _).trans (pic_bootEnd _ _)
  | eoi hcur =>
      rw [hcur]
      rfl
  | sti hcur =>
      rw [hcur]
      rfl
  | iret hcur _ =>
      rw [hcur]
      rfl

theorem step_service {s s' : System δ} (hstep : Step s s')
    (hcode : s'.below.length ≤ s.below.length) :
    s'.inService =
      ((picCalled s.current s'.current).elim id PicCall.service) s.inService := by
  cases hstep with
  | @main p hcur =>
      rw [hcur]
      cases p <;> simp [mainStep, picCalled, PicCall.service]
  | deliver => exact absurd hcode (Nat.not_succ_le_self _)
  | cli hcur | noRoutine hcur _ | handled hcur _ _ _ | resumeStart hcur _ _ | resumeStep hcur _ _
  | resumeEnd hcur _ | bootStart hcur _ _ _ | bootRound hcur _ _ | bootExit hcur _ _
  | bootHalted hcur _ | eoi hcur | sti hcur | iret hcur _ =>
      simp [hcur, picCalled, PicCall.service]

theorem step_stack {s s' : System δ} {p : MainPoint} (hs : s.Sound) (hstep : Step s s')
    (hcode : s'.below.length ≤ s.below.length) (hstack : Stacked p (s.current :: s.below)) :
    s.current = .main p ∧ s' = s.mainStep p ∨
      p.afterSti = true ∧ Stacked p (s'.current :: s'.below) ∧
        ∀ c, picCalled s.current s'.current = some c → c.fromStub = true := by
  cases hstep with
  | main hcur =>
      rw [hcur] at hstack
      obtain ⟨rfl, -⟩ := hstack.main_top
      exact Or.inl ⟨hcur, rfl⟩
  | deliver => exact absurd hcode (Nat.not_succ_le_self _)
  | cli hcur | noRoutine hcur _ | handled hcur _ _ _ | resumeStart hcur _ _ | resumeStep hcur _ _
  | resumeEnd hcur _ | bootStart hcur _ _ _ | bootRound hcur _ _ | bootExit hcur _ _
  | bootHalted hcur _ | eoi hcur | sti hcur =>
      have hsti := hs.afterSti hcur hstack
      rw [hcur] at hstack ⊢
      exact Or.inr ⟨hsti, hstack.interrupted.stub, by rintro c ⟨⟩ <;> rfl⟩
  | iret hcur hbelow =>
      have hsti := hs.afterSti hcur hstack
      rw [hcur] at hstack ⊢
      rw [hbelow] at hstack
      exact Or.inr ⟨hsti, hstack.interrupted, by rintro c ⟨⟩⟩

omit [Ports δ] in
theorem Sound.afterSti_of_flag {s : System δ} (hs : s.Sound) {p : MainPoint}
    (hflag : s.interruptFlag = true) (hstack : Stacked p (s.current :: s.below)) :
    p.afterSti = true := by
  have hset : s.current.flag = true := hs.flag ▸ hflag
  cases hcur : s.current with
  | main q =>
      rw [hcur] at hset hstack
      obtain ⟨rfl, -⟩ := hstack.main_top
      exact hset
  | stub => exact hs.afterSti hcur hstack

end System

-- Every line but the keyboard's is masked.
def OnlyKeyboard (pic : Pic) : Prop := pic.mask1 ||| 0x02 = 0xFF ∧ pic.mask2 = 0xFF

namespace OnlyKeyboard

variable {pic : Pic}

theorem setMask (h : OnlyKeyboard pic) : OnlyKeyboard (pic.setMask 1) := by
  have hbits : ∀ m : Byte, m ||| 0x02 = 0xFF → m ||| (1 : Byte) <<< 1 ||| 0x02 = 0xFF := by
    decide
  exact ⟨hbits _ h.1, h.2⟩

theorem clearMask (h : OnlyKeyboard pic) : OnlyKeyboard (pic.clearMask 1) := by
  have hbits : ∀ m : Byte, m ||| 0x02 = 0xFF → m &&& ~~~((1 : Byte) <<< 1) ||| 0x02 = 0xFF := by
    decide
  exact ⟨hbits _ h.1, h.2⟩

theorem called (h : OnlyKeyboard pic) {c : PicCall} (hc : c.fromStub = true) :
    OnlyKeyboard (c.masks pic) := by
  cases c with
  | setMask irqLine =>
      obtain rfl := beq_iff_eq.mp hc
      exact h.setMask
  | clearMask irqLine =>
      obtain rfl := beq_iff_eq.mp hc
      exact h.clearMask
  | sendEoi => exact h
  | _ => cases hc

theorem unmasked_line (h : OnlyKeyboard pic) {i : Nat} (hi : i < 8)
    (hclear : pic.mask1.getLsbD i = false) : i = keyboardIrq := by
  have hbit := congrArg (fun b : Byte => b.getLsbD i) h.1
  simp only [BitVec.getLsbD_or, hclear, Bool.false_or] at hbit
  interval_cases i <;> first | rfl | cases hbit

end OnlyKeyboard

theorem Agrees.interrupt {p q : Pair} {pic : Pic} {inService : Bool} {v : Byte}
    (h : Agrees p pic inService) (honly : OnlyKeyboard pic) (hack : p.acknowledge = some (v, q)) :
    v.toNat = keyboardVector ∧ inService = false ∧ pic.masked keyboardIrq = false ∧
      Agrees q pic true := by
  obtain ⟨hprogrammed, hmasks, hmaster, hslave⟩ := h
  obtain ⟨irq, -, rfl, hacked⟩ := acknowledge_cases hprogrammed hack
  have hprogrammed' := hprogrammed.acked hacked
  cases hacked with
  | master _ hpending =>
      obtain ⟨hi, -, hclear, habove⟩ := I8259.Chip.pending_eq_some hpending
      have hclear' : pic.mask1.getLsbD irq = false := by
        rw [← hmasks]
        exact hclear
      obtain rfl := honly.unmasked_line hi hclear'
      have hidle : inService = false := by
        have hbit : p.master.isr.getLsbD keyboardIrq = false := habove _ (Nat.le_refl _)
        rw [hmaster] at hbit
        cases inService with
        | false => rfl
        | true => cases hbit
      refine ⟨rfl, hidle, ?_, hprogrammed', hmasks, ?_, hslave⟩
      · have hbits : ∀ m : Byte, m.getLsbD 1 = false → m >>> 1 &&& 1 = 0 := by decide
        rw [Pic.masked, if_pos (by decide)]
        exact decide_eq_false (not_not.mpr (hbits _ hclear'))
      · have hauto : p.masterInput.autoEoi = false := hprogrammed.master.autoEoi
        have hfree : p.masterInput.isr = 0 := by
          rw [hidle] at hmaster
          exact hmaster
        change (p.masterInput.serve keyboardIrq).isr = 2
        rw [I8259.Chip.serve, hauto, hfree]
        rfl
  | @slave j _ hpending =>
      obtain ⟨hj, -, hclear, -⟩ := I8259.Chip.pending_eq_some hpending
      have hfull : p.slave.imr = 0xFF := by
        rw [← honly.2, ← hmasks]
        rfl
      rw [hfull] at hclear
      interval_cases j <;> cases hclear

theorem Agrees.offers {p : Pair} {pic : Pic} (h : Agrees p pic false) (honly : OnlyKeyboard pic)
    (hmask : pic.masked keyboardIrq = false) :
    ∃ q, (p.raise keyboardIrq).acknowledge = some (0x21, q) := by
  have hbits : ∀ m : Byte, m ||| 0x02 = 0xFF → m >>> 1 &&& 1 = 0 → m = 0xFD := by decide
  rw [Pic.masked, if_pos (by decide), decide_eq_false_iff_not, not_not] at hmask
  have himr : (p.raise keyboardIrq).masterInput.imr = 0xFD := by
    rw [← hbits _ honly.1 hmask, ← h.masks]
    rfl
  have hirr : (p.raise keyboardIrq).masterInput.irr.getLsbD keyboardIrq = true := by
    have hraised : (p.master.irr ||| I8259.line keyboardIrq).getLsbD keyboardIrq = true := by
      rw [BitVec.getLsbD_or, I8259.getLsbD_line]
      simp [keyboardIrq]
    rw [Pair.masterInput]
    split_ifs
    · change ((p.master.irr ||| I8259.line keyboardIrq) ||| _).getLsbD keyboardIrq = true
      rw [BitVec.getLsbD_or, hraised]
      rfl
    · change ((p.master.irr ||| I8259.line keyboardIrq) &&& ~~~_).getLsbD keyboardIrq = true
      rw [BitVec.getLsbD_and, BitVec.getLsbD_not, hraised, I8259.getLsbD_line]
      rfl
  have hpending : (p.raise keyboardIrq).masterInput.pending = some keyboardIrq := by
    refine I8259.Chip.pending_of_idle h.programmed.master.setup h.master (by decide) hirr ?_ ?_
    · rw [himr]
      rfl
    · rw [himr]
      decide
  have hcascade : (p.raise keyboardIrq).masterInput.cascade = 4 := h.programmed.master.cascade
  have hbase : (p.raise keyboardIrq).masterInput.base = 0x20 := h.programmed.master.base
  simp only [Pair.acknowledge, hpending, Option.map_some, I8259.Chip.serve, hcascade,
    I8259.Chip.vector, hbase]
  exact ⟨_, rfl⟩

namespace System

def enterAt {δ : Type} (vector irq : Nat) (s : System δ) : System δ :=
  { s with
    interruptFlag := s.interruptFlag && !(s.idt vector).clearsFlag
    inService := true
    current := .stub irq s.interruptFlag .cli
    below := s.current :: s.below }

end System

-- The system together with the controllers: the devices raise their lines at any time, and the
-- processor takes what the controllers hand it, whatever the masks and the flag of the system say.
structure Board (δ : Type) where
  system : System δ
  pics : Pair

namespace Board

open Relation

variable {δ : Type} [Ports δ]

def initial (h : Hardware δ) (idt : Idt) (pics : Pair) : Board δ where
  system := System.initial { h with pic := masksOf pics } idt
  pics := pics

inductive Step : Board δ → Board δ → Prop
  | code {b : Board δ} {s : System δ} : b.system.Step s →
      s.below.length ≤ b.system.below.length → Step b ⟨s, b.system.picsAfter s b.pics⟩
  | raise {b : Board δ} (irq : Nat) : Step b { b with pics := b.pics.raise irq }
  | interrupt {b : Board δ} {v : Byte} {irq : Nat} {pics : Pair} :
      b.system.interruptFlag = true → b.pics.acknowledge = some (v, pics) →
      (b.system.idt v.toNat).base = some (.irq irq) →
      Step b ⟨b.system.enterAt v.toNat irq, pics⟩

def Reachable (h : Hardware δ) (idt : Idt) (pics : Pair) : Board δ → Prop :=
  ReflTransGen Step (initial h idt pics)

structure Synchronised (b : Board δ) (p : MainPoint) : Prop where
  stack : Stacked p (b.system.current :: b.system.below)
  masks : masksOf b.pics = b.system.kernel.pic
  agrees : p.remapped = true → Agrees b.pics b.system.kernel.pic b.system.inService
  all : p = .clearMask → b.system.kernel.pic = ⟨0xFF, 0xFF⟩
  only : p.maskCleared = true → OnlyKeyboard b.system.kernel.pic

omit [Ports δ] in
theorem Synchronised.interrupt {b : Board δ} {p : MainPoint} (h : b.Synchronised p)
    (hs : b.system.Sound) (hflag : b.system.interruptFlag = true) {v : Byte} {pics : Pair}
    (hack : b.pics.acknowledge = some (v, pics)) :
    v.toNat = keyboardVector ∧ b.system.deliverable ∧ Agrees pics b.system.kernel.pic true := by
  have hsti := hs.afterSti_of_flag hflag h.stack
  have hagrees := h.agrees (MainPoint.remapped_of_afterSti hsti)
  obtain ⟨hv, hidle, hmask, hafter⟩ :=
    hagrees.interrupt (h.only (MainPoint.maskCleared_of_afterSti hsti)) hack
  exact ⟨hv, ⟨hflag, hidle, hmask⟩, hafter⟩

section

variable {b : Board δ} {s : System δ} {p : MainPoint}

theorem Synchronised.agrees_after (h : b.Synchronised p) (hstep : b.system.Step s)
    (hcode : s.below.length ≤ b.system.below.length) (hp : p.remapped = true)
    (hcall : picCalled b.system.current s.current ≠ some .remap) :
    Agrees (b.system.picsAfter s b.pics) s.kernel.pic s.inService := by
  rw [System.step_pic hstep hcode, System.step_service hstep hcode, System.picsAfter]
  cases hc : picCalled b.system.current s.current with
  | none => exact h.agrees hp
  | some c => exact (h.agrees hp).called fun heq => hcall (heq ▸ hc)

theorem Synchronised.main (h : b.Synchronised p) (hs : b.system.Sound)
    (hcur : b.system.current = .main p) :
    Synchronised ⟨b.system.mainStep p, b.system.picsAfter (b.system.mainStep p) b.pics⟩ p.next := by
  obtain ⟨hnext, hbelow, -⟩ := System.mainStep_point hcur
  have hpic := System.mainStep_pic hcur
  have hstack := h.stack
  rw [hcur] at hstack hpic
  have hafter : p.remapped = true →
      Agrees (b.system.picsAfter (b.system.mainStep p) b.pics) (b.system.mainStep p).kernel.pic
        (b.system.mainStep p).inService := by
    intro hp
    refine h.agrees_after (.main hcur) (congrArg List.length hbelow).le hp ?_
    rw [hcur]
    exact picCalled_main hp _
  refine ⟨?_, ?_, ?_, ?_, ?_⟩
  · rw [hnext, hbelow, hstack.main_top.2]
    exact .main
  · cases hp : p.remapped with
    | true => exact (hafter hp).masks
    | false =>
        rw [hpic, System.picsAfter, hcur]
        cases p with
        | gdtInstall | idtInstall | isrInstall | picRemap => exact h.masks
        | _ => cases hp
  · intro hp
    cases p with
    | picRemap =>
        have hidle : b.system.inService = false := by
          rw [hs.service, hcur]
          rfl
        have hremap := Agrees.remap b.pics
        rw [h.masks, ← hidle] at hremap
        rw [System.picsAfter, hcur]
        exact hremap
    | gdtInstall | idtInstall | isrInstall => cases hp
    | _ => exact hafter rfl
  · intro hp
    cases p with
    | setMasks => exact hpic.trans (upto_setMask _)
    | _ => cases hp
  · intro hp
    rw [hpic]
    cases p with
    | clearMask =>
        rw [h.all rfl]
        change OnlyKeyboard (Pic.clearMask keyboardIrq ⟨0xFF, 0xFF⟩)
        rw [clearMask_all]
        exact ⟨rfl, rfl⟩
    | gdtInstall | idtInstall | isrInstall | picRemap | irqInstall | keyboardInstall | setMasks =>
        cases hp
    | _ => exact h.only rfl

theorem Synchronised.code (h : b.Synchronised p) (hs : b.system.Sound)
    (hstep : b.system.Step s) (hcode : s.below.length ≤ b.system.below.length) :
    ∃ p', Synchronised ⟨s, b.system.picsAfter s b.pics⟩ p' := by
  rcases System.step_stack hs hstep hcode h.stack with ⟨hcur, rfl⟩ | ⟨hsti, hstack, hcall⟩
  · exact ⟨p.next, h.main hs hcur⟩
  · have hafter := h.agrees_after hstep hcode (MainPoint.remapped_of_afterSti hsti)
      fun hc => Bool.false_ne_true (hcall _ hc)
    refine ⟨p, hstack, hafter.masks, fun _ => hafter, fun hp => ?_, fun hp => ?_⟩
    · rw [hp] at hsti
      cases hsti
    have honly := h.only hp
    rw [System.step_pic hstep hcode]
    cases hc : picCalled b.system.current s.current with
    | none => exact honly
    | some c => exact honly.called (hcall c hc)

end

theorem reachable_synchronised {h : Hardware δ} {idt : Idt} {pics : Pair} {b : Board δ}
    (hb : Reachable h idt pics b) :
    System.Reachable { h with pic := masksOf pics } idt b.system ∧ ∃ p, b.Synchronised p := by
  induction hb with
  | refl =>
      refine ⟨.refl, .gdtInstall, .main, rfl, ?_, ?_, ?_⟩ <;> intro hp <;> cases hp
  | tail _ hstep ih =>
      obtain ⟨hs, p, hsync⟩ := ih
      have hsound := hs.sound
      cases hstep with
      | code hstep hcode => exact ⟨hs.tail hstep, hsync.code hsound hstep hcode⟩
      | raise irq =>
          refine ⟨hs, p, hsync.stack, (masksOf_raise irq _).trans hsync.masks, fun hp => ?_,
            hsync.all, hsync.only⟩
          exact (hsync.agrees hp).raise irq
      | interrupt hflag hack hgate =>
          obtain ⟨hv, hdeliver, hafter⟩ := hsync.interrupt hsound hflag hack
          rw [hv] at hgate ⊢
          refine ⟨hs.tail (.deliver hdeliver hgate), p, hsync.stack.stub, hafter.masks,
            fun _ => hafter, hsync.all, hsync.only⟩

theorem offered {h : Hardware δ} {idt : Idt} {pics : Pair} {b : Board δ}
    (hb : Reachable h idt pics b) (hdeliver : b.system.deliverable) :
    ∃ q, (b.pics.raise keyboardIrq).acknowledge = some (0x21, q) := by
  obtain ⟨hs, p, hsync⟩ := reachable_synchronised hb
  obtain ⟨hflag, hidle, hmask⟩ := hdeliver
  have hsti := hs.sound.afterSti_of_flag hflag hsync.stack
  have hagrees := hsync.agrees (MainPoint.remapped_of_afterSti hsti)
  rw [hidle] at hagrees
  exact hagrees.offers (hsync.only (MainPoint.maskCleared_of_afterSti hsti)) hmask

theorem below_step {s s' : System δ} (hstep : s.Step s') :
    s'.below.length ≤ s.below.length ∨
      s.deliverable ∧ ∃ irq, (s.idt keyboardVector).base = some (.irq irq) ∧ s' = s.enter irq := by
  cases hstep with
  | deliver hdeliver hgate => exact Or.inr ⟨hdeliver, _, hgate, rfl⟩
  | main hcur => exact Or.inl (congrArg List.length (System.mainStep_point hcur).2.1).le
  | iret _ hbelow =>
      rw [hbelow]
      exact Or.inl (Nat.le_succ _)
  | _ => exact Or.inl (Nat.le_refl _)

theorem board_runs {h : Hardware δ} {idt : Idt} {pics : Pair} {s : System δ}
    (hs : System.Reachable { h with pic := masksOf pics } idt s) :
    ∃ b, Reachable h idt pics b ∧ b.system = s := by
  induction hs with
  | refl => exact ⟨initial h idt pics, .refl, rfl⟩
  | tail _ hstep ih =>
      obtain ⟨b, hb, rfl⟩ := ih
      obtain hcode | ⟨hdeliver, irq, hgate, rfl⟩ := below_step hstep
      · exact ⟨_, hb.tail (.code hstep hcode), rfl⟩
      · obtain ⟨q, hack⟩ := offered hb hdeliver
        exact ⟨_, (hb.tail (.raise keyboardIrq)).tail (.interrupt hdeliver.1 hack hgate), rfl⟩

-- With the controllers the system runs exactly as without them.
theorem board_runs_iff {h : Hardware δ} {idt : Idt} {pics : Pair} {s : System δ} :
    (∃ b, Reachable h idt pics b ∧ b.system = s) ↔
      System.Reachable { h with pic := masksOf pics } idt s := by
  constructor
  · rintro ⟨b, hb, rfl⟩
    exact (reachable_synchronised hb).1
  · exact board_runs

-- Only the keyboard ever interrupts, and only where the system says that it may.
theorem controllers_serve {h : Hardware δ} {idt : Idt} {pics : Pair} {b : Board δ}
    (hb : Reachable h idt pics b) :
    System.Reachable { h with pic := masksOf pics } idt b.system ∧
      ∀ v pics', b.system.interruptFlag = true → b.pics.acknowledge = some (v, pics') →
        v.toNat = keyboardVector ∧ b.system.deliverable ∧
          b.system.idt v.toNat = System.keyboardGate := by
  obtain ⟨hs, p, hsync⟩ := reachable_synchronised hb
  refine ⟨hs, fun v pics' hflag hack => ?_⟩
  obtain ⟨hv, hdeliver, -⟩ := hsync.interrupt hs.sound hflag hack
  rw [hv]
  exact ⟨rfl, hdeliver, hs.sound.gate (Control.gate_of_flag (hs.sound.flag ▸ hflag))⟩

theorem controllers_serve_keyboard :
    ∃ (b : Board IdealDrive) (q : Pair),
      b.pics.acknowledge = some (0x21, q) ∧ b.system.deliverable := by
  obtain ⟨s, hs, hidle, hkernel⟩ := System.boot_runs_to_idle
    { Hardware.plain (IdealDrive.holding []) with pic := masksOf coldPics }
    fun _ => { base := none, sel := 0, flags := 0 }
  obtain ⟨b, hb, rfl⟩ := board_runs hs
  have hmask : b.system.kernel.Unmasked := by
    rw [hkernel]
    exact System.unmasked_booted _
  obtain ⟨q, hack⟩ := offered hb ⟨hidle.interruptFlag, hidle.inService, hmask⟩
  have hraised := hb.tail (.raise keyboardIrq)
  exact ⟨_, q, hack, ((controllers_serve hraised).2 _ q hidle.interruptFlag hack).2.1⟩

end Board

end CDosX86
