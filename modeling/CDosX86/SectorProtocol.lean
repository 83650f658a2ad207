import CDosX86.WriteErrors

namespace CDosX86

open Ports

inductive Access where
  | inb (port : Port) (val : Byte)
  | outb (port : Port) (val : Byte)
  | inw (port : Port) (val : BitVec 16)
  | outw (port : Port) (val : BitVec 16)

-- A device with the accesses to its ports, the oldest first.
structure Recorder (δ : Type) where
  device : δ
  log : List Access

section

variable {δ : Type} [Ports δ]

instance : Ports (Recorder δ) where
  inb port w :=
    ((inb port w.device).1,
      ⟨(inb port w.device).2, w.log ++ [.inb port (inb port w.device).1]⟩)
  outb port val w := ⟨outb port val w.device, w.log ++ [.outb port val]⟩
  inw port w :=
    ((inw port w.device).1,
      ⟨(inw port w.device).2, w.log ++ [.inw port (inw port w.device).1]⟩)
  outw port val w := ⟨outw port val w.device, w.log ++ [.outw port val]⟩

-- The values that one wait for the drive reads from its status register, and what it returns.
inductive Polls : Nat → Int → List Byte → Prop
  | timeout : Polls 0 (-1) []
  | ready {n : Nat} {status : Byte} : DataReady status → Polls (n + 1) 0 [status]
  | failed {n : Nat} {status : Byte} : Errored status → Polls (n + 1) (-1) [status]
  | wait {n : Nat} {r : Int} {status : Byte} {statuses : List Byte} : Waiting status →
      Polls n r statuses → Polls (n + 1) r (status :: statuses)

theorem Polls.length_le {n : Nat} {r : Int} {statuses : List Byte} (h : Polls n r statuses) :
    statuses.length ≤ n := by
  induction h with
  | timeout => exact Nat.le_refl 0
  | ready => exact Nat.succ_le_succ (Nat.zero_le _)
  | failed => exact Nat.succ_le_succ (Nat.zero_le _)
  | wait _ _ ih => exact Nat.succ_le_succ ih

def statusLog (statuses : List Byte) : List Access := statuses.map (.inb ataStatus)

theorem pollLoop_polls (n : Nat) (w : Recorder δ) :
    ∃ statuses, Polls n (pollLoop n w).1 statuses ∧
      (pollLoop n w).2.log = w.log ++ statusLog statuses := by
  induction n generalizing w with
  | zero => exact ⟨[], .timeout, (List.append_nil _).symm⟩
  | succ n ih =>
      rcases status_cases (inb ataStatus w).1 with hready | herr | hwait
      · rw [pollLoop_ready (.now hready)]
        exact ⟨_, .ready hready, rfl⟩
      · rw [pollLoop_failed (.now herr)]
        exact ⟨_, .failed herr, rfl⟩
      · obtain ⟨statuses, hpolls, hlog⟩ := ih (inb ataStatus w).2
        rw [pollLoop_waiting hwait]
        refine ⟨_ :: statuses, .wait hwait hpolls, hlog.trans ?_⟩
        exact List.append_assoc _ _ _

def selectLog (lba : Lba) (command : Byte) : List Access :=
  [.outb ataDriveHead (0xE0 ||| (lba >>> 24 &&& 0x0F).setWidth 8), .outb ataSeccount 1,
    .outb ataLbaLo ((lba &&& 0xFF).setWidth 8), .outb ataLbaMid ((lba >>> 8 &&& 0xFF).setWidth 8),
    .outb ataLbaHi ((lba >>> 16 &&& 0xFF).setWidth 8), .outb ataCommand command]

theorem log_selected (lba : Lba) (command : Byte) (w : Recorder δ) :
    (outb ataCommand command (selectSector lba w)).log = w.log ++ selectLog lba command := by
  change (((((w.log ++ _) ++ _) ++ _) ++ _) ++ _) ++ _ = _
  simp only [List.append_assoc]
  rfl

def unpack (words : List (BitVec 16)) (buffer : Buffer) : Buffer := fun p =>
  match words[p / 2]? with
  | some data => ((data >>> (8 * (p % 2))) &&& 0xFF).setWidth 8
  | none => buffer p

theorem unpack_append (words : List (BitVec 16)) (data : BitVec 16) (buffer : Buffer) :
    unpack (words ++ [data]) buffer =
      Function.update
        (Function.update (unpack words buffer) (words.length * 2) ((data &&& 0xFF).setWidth 8))
        (words.length * 2 + 1) ((data >>> 8 &&& 0xFF).setWidth 8) := by
  funext p
  rw [Function.update_apply, Function.update_apply, unpack, unpack]
  rcases Nat.lt_trichotomy (p / 2) words.length with hlt | heq | hgt
  · rw [List.getElem?_append_left hlt, if_neg (by omega), if_neg (by omega)]
  · rw [List.getElem?_append_right heq.ge, heq, Nat.sub_self]
    rcases Nat.mod_two_eq_zero_or_one p with heven | hodd
    · rw [if_neg (by omega), if_pos (by omega), heven]
      rfl
    · rw [if_pos (by omega), hodd]
      rfl
  · rw [List.getElem?_eq_none (by simp; omega), List.getElem?_eq_none (by omega),
      if_neg (by omega), if_neg (by omega)]

theorem readWords_log (n : Nat) (buffer : Buffer) (w : Recorder δ) :
    ∃ words : List (BitVec 16), words.length = n ∧
      (Loop.upto readWord n (buffer, w)).1 = unpack words buffer ∧
      (Loop.upto readWord n (buffer, w)).2.log = w.log ++ words.map (.inw ataData) := by
  induction n with
  | zero => exact ⟨[], rfl, rfl, (List.append_nil _).symm⟩
  | succ n ih =>
      obtain ⟨words, hlen, hbuffer, hlog⟩ := ih
      rw [Loop.upto]
      generalize Loop.upto readWord n (buffer, w) = s at hbuffer hlog
      refine ⟨words ++ [(inw ataData s.2).1], by simp [hlen], ?_, ?_⟩
      · rw [unpack_append, ← hbuffer, hlen]
        rfl
      · change s.2.log ++ _ = _
        rw [hlog, List.map_append, List.append_assoc]
        rfl

def pack (buffer : Buffer) (i : Nat) : BitVec 16 :=
  (buffer (i * 2)).setWidth 16 ||| (buffer (i * 2 + 1)).setWidth 16 <<< 8

theorem writeWords_log (n : Nat) (buffer : Buffer) (w : Recorder δ) :
    (Loop.upto (writeWord buffer) n w).log =
      w.log ++ (List.range n).map fun i => .outw ataData (pack buffer i) := by
  induction n with
  | zero => exact (List.append_nil _).symm
  | succ n ih =>
      rw [Loop.upto, List.range_succ, List.map_append, ← List.append_assoc, ← ih]
      rfl

-- What `ata_read_sector` does to the ports, and to the buffer.
inductive ReadLog (lba : Lba) (buffer : Buffer) : Int → Buffer → List Access → Prop
  | refused {statuses : List Byte} : Polls pollTimeout (-1) statuses →
      ReadLog lba buffer (-1) buffer (selectLog lba ataCmdRead ++ statusLog statuses)
  | sector {statuses : List Byte} {words : List (BitVec 16)} : Polls pollTimeout 0 statuses →
      words.length = 256 →
      ReadLog lba buffer 0 (unpack words buffer)
        (selectLog lba ataCmdRead ++ statusLog statuses ++ words.map (.inw ataData))

inductive WriteLog (lba : Lba) (buffer : Buffer) : Int → List Access → Prop
  | refused {statuses : List Byte} : Polls pollTimeout (-1) statuses →
      WriteLog lba buffer (-1) (selectLog lba ataCmdWrite ++ statusLog statuses)
  | sector {statuses flushed : List Byte} {r : Int} : Polls pollTimeout 0 statuses →
      Polls pollTimeout r flushed →
      WriteLog lba buffer 0
        (selectLog lba ataCmdWrite ++ statusLog statuses ++
          (List.range 256).map (fun i => .outw ataData (pack buffer i)) ++
          .outb ataCommand ataCmdFlush :: statusLog flushed)

theorem Polls.result {n : Nat} {r : Int} {statuses : List Byte} (h : Polls n r statuses) :
    r = 0 ∨ r = -1 := by
  induction h with
  | timeout => exact Or.inr rfl
  | ready => exact Or.inl rfl
  | failed => exact Or.inr rfl
  | wait _ _ ih => exact ih

theorem ataReadSector_protocol (lba : Lba) (buffer : Buffer) (w : Recorder δ) :
    ∃ log, (ataReadSector lba buffer w).2.2.log = w.log ++ log ∧
      ReadLog lba buffer (ataReadSector lba buffer w).1 (ataReadSector lba buffer w).2.1 log := by
  have hselect := log_selected lba ataCmdRead w
  rw [ataReadSector]
  dsimp only
  generalize outb ataCommand ataCmdRead (selectSector lba w) = w₁ at hselect
  rw [ataPollReady]
  obtain ⟨statuses, hpolls, hlog⟩ := pollLoop_polls pollTimeout w₁
  generalize pollLoop pollTimeout w₁ = answer at hpolls hlog
  rw [hselect] at hlog
  obtain ⟨r, w₂⟩ := answer
  dsimp only at hpolls hlog ⊢
  obtain rfl | rfl := hpolls.result
  · obtain ⟨words, hlen, hbuffer, hdata⟩ := readWords_log 256 buffer w₂
    rw [if_neg (not_not.mpr rfl)]
    refine ⟨selectLog lba ataCmdRead ++ statusLog statuses ++ words.map (.inw ataData), ?_, ?_⟩
    · change (Loop.upto readWord 256 (buffer, w₂)).2.log = _
      rw [hdata, hlog]
      simp only [List.append_assoc]
    · change ReadLog lba buffer 0 (Loop.upto readWord 256 (buffer, w₂)).1 _
      rw [hbuffer]
      exact .sector hpolls hlen
  · rw [if_pos (by decide)]
    refine ⟨_, ?_, .refused hpolls⟩
    change w₂.log = _
    rw [hlog, List.append_assoc]

theorem ataWriteSector_protocol (lba : Lba) (buffer : Buffer) (w : Recorder δ) :
    ∃ log, (ataWriteSector lba buffer w).2.log = w.log ++ log ∧
      WriteLog lba buffer (ataWriteSector lba buffer w).1 log := by
  have hselect := log_selected lba ataCmdWrite w
  rw [ataWriteSector]
  dsimp only
  generalize outb ataCommand ataCmdWrite (selectSector lba w) = w₁ at hselect
  rw [ataPollReady]
  obtain ⟨statuses, hpolls, hlog⟩ := pollLoop_polls pollTimeout w₁
  generalize pollLoop pollTimeout w₁ = answer at hpolls hlog
  rw [hselect] at hlog
  obtain ⟨r, w₂⟩ := answer
  dsimp only at hpolls hlog ⊢
  obtain rfl | rfl := hpolls.result
  · have hdata := writeWords_log 256 buffer w₂
    rw [if_neg (not_not.mpr rfl)]
    generalize Loop.upto (writeWord buffer) 256 w₂ = w₃ at hdata
    obtain ⟨flushed, hflush, hend⟩ := pollLoop_polls pollTimeout (outb ataCommand ataCmdFlush w₃)
    refine ⟨_, ?_, .sector hpolls hflush⟩
    change (pollLoop pollTimeout (outb ataCommand ataCmdFlush w₃)).2.log = _
    rw [hend]
    change (w₃.log ++ _) ++ _ = _
    rw [hdata, hlog]
    simp only [List.append_assoc]
    rfl
  · rw [if_pos (by decide)]
    refine ⟨_, ?_, .refused hpolls⟩
    change w₂.log = _
    rw [hlog, List.append_assoc]

end

end CDosX86
