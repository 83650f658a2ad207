import CDosX86.Drive

namespace CDosX86

open Ports

-- A device with what its status register has returned, the oldest value first.
structure Watched (δ : Type) where
  device : δ
  statuses : List Byte

section

variable {δ : Type} [Ports δ]

namespace Watched

def see (port : Port) (val : Byte) (statuses : List Byte) : List Byte :=
  if port = ataStatus then statuses ++ [val] else statuses

instance : Ports (Watched δ) where
  inb port w :=
    ((inb port w.device).1, ⟨(inb port w.device).2, see port (inb port w.device).1 w.statuses⟩)
  outb port val w := { w with device := outb port val w.device }
  inw port w := ((inw port w.device).1, { w with device := (inw port w.device).2 })
  outw port val w := { w with device := outw port val w.device }

def watch (d : δ) : Watched δ := ⟨d, []⟩

theorem writeWords_eq (buffer : Buffer) (n : Nat) (w : Watched δ) :
    Loop.upto (writeWord buffer) n w =
      { w with device := Loop.upto (writeWord buffer) n w.device } := by
  induction n with
  | zero => rfl
  | succ n ih =>
      rw [Loop.upto, ih]
      rfl

end Watched

theorem status_cases (status : Byte) : DataReady status ∨ Errored status ∨ Waiting status := by
  unfold Waiting
  tauto

section settles

variable {final : Byte → Prop} {n : Nat} {d d' : δ}

theorem settles_wait_iff (hwait : Waiting (inb ataStatus d).1)
    (hfinal : ¬ final (inb ataStatus d).1) :
    Settles final (n + 1) d d' ↔ Settles final n (inb ataStatus d).2 d' := by
  constructor
  · intro h
    cases h with
    | now h => exact absurd h hfinal
    | wait _ h => exact h
  · exact .wait hwait

theorem Settles.final_of_not_waiting (h : Settles final (n + 1) d d')
    (hwait : ¬ Waiting (inb ataStatus d).1) : final (inb ataStatus d).1 := by
  cases h with
  | now h => exact h
  | wait h _ => exact absurd h hwait

end settles

theorem pollLoop_eq_zero_iff (n : Nat) (d : δ) :
    (pollLoop n d).1 = 0 ↔ ∃ d', Settles DataReady n d d' := by
  constructor
  · intro hzero
    induction n generalizing d with
    | zero => exact absurd hzero (show (-1 : Int) ≠ 0 by decide)
    | succ n ih =>
        rcases status_cases (inb ataStatus d).1 with hready | herr | hwait
        · exact ⟨_, .now hready⟩
        · rw [pollLoop_failed (.now herr)] at hzero
          exact absurd hzero (show (-1 : Int) ≠ 0 by decide)
        · rw [pollLoop_waiting hwait] at hzero
          obtain ⟨d', h⟩ := ih _ hzero
          exact ⟨d', .wait hwait h⟩
  · rintro ⟨d', h⟩
    rw [pollLoop_ready h]

theorem pollLoop_watched (n : Nat) (w : Watched δ) : ∃ seen,
    pollLoop n w = ((pollLoop n w.device).1, ⟨(pollLoop n w.device).2, w.statuses ++ seen⟩) ∧
      ((∃ status ∈ seen, Errored status) ↔ ∃ d, Settles Errored n w.device d) := by
  induction n generalizing w with
  | zero =>
      refine ⟨[], by rw [List.append_nil]; rfl, iff_of_false (by simp) ?_⟩
      rintro ⟨d, h⟩
      cases h
  | succ n ih =>
      have hstatus : (inb ataStatus w).1 = (inb ataStatus w.device).1 := rfl
      have hnext : (inb ataStatus w).2 =
          ⟨(inb ataStatus w.device).2, w.statuses ++ [(inb ataStatus w.device).1]⟩ := rfl
      rcases status_cases (inb ataStatus w.device).1 with hready | herr | hwait
      · refine ⟨[(inb ataStatus w.device).1], ?_, ?_⟩
        · rw [pollLoop_ready (d := w) (.now hready), pollLoop_ready (.now hready), hnext]
        · refine iff_of_false ?_ ?_
          · simpa using fun h => h.2 hready.2.1
          · rintro ⟨d, h⟩
            exact (h.final_of_not_waiting fun hwait => hwait.1 hready).2 hready.2.1
      · refine ⟨[(inb ataStatus w.device).1], ?_, ?_⟩
        · rw [pollLoop_failed (d := w) (.now herr), pollLoop_failed (.now herr), hnext]
        · exact iff_of_true ⟨_, List.mem_singleton_self _, herr⟩ ⟨_, .now herr⟩
      · obtain ⟨seen, hpoll, hseen⟩ := ih (inb ataStatus w).2
        refine ⟨(inb ataStatus w.device).1 :: seen, ?_, ?_⟩
        · rw [pollLoop_waiting (hstatus ▸ hwait), pollLoop_waiting hwait, hpoll, hnext,
            List.append_assoc, List.singleton_append]
        · simp only [List.mem_cons, exists_eq_or_imp, hwait.2, false_or, settles_wait_iff hwait hwait.2]
          exact hseen

theorem flushCommanded_watched (buffer : Buffer) (w : Watched δ) :
    flushCommanded buffer w = { w with device := flushCommanded buffer w.device } := by
  rw [flushCommanded, Watched.writeWords_eq]
  rfl

theorem ataWriteSector_watched (lba : Lba) (buffer : Buffer) (d : δ) : ∃ seen,
    ataWriteSector lba buffer (Watched.watch d) =
        ((ataWriteSector lba buffer d).1, ⟨(ataWriteSector lba buffer d).2, seen⟩) ∧
      ((∃ status ∈ seen, Errored status) ↔
        (∃ d₁, Settles Errored pollTimeout (writeCommanded lba d) d₁) ∨
          ∃ d₁ d₂, Settles DataReady pollTimeout (writeCommanded lba d) d₁ ∧
            Settles Errored pollTimeout (flushCommanded buffer d₁) d₂) := by
  obtain ⟨seen, hpoll, hseen⟩ := pollLoop_watched pollTimeout (writeCommanded lba (Watched.watch d))
  have hdevice : (writeCommanded lba (Watched.watch d)).device = writeCommanded lba d := rfl
  have hnone : (writeCommanded lba (Watched.watch d)).statuses = [] := rfl
  rw [hdevice, hnone, List.nil_append] at hpoll
  rw [hdevice] at hseen
  by_cases hready : (pollLoop pollTimeout (writeCommanded lba d)).1 = 0
  · obtain ⟨d₁, hsettles⟩ := (pollLoop_eq_zero_iff _ _).mp hready
    have hpolled := pollLoop_ready hsettles
    rw [hpolled] at hpoll
    obtain ⟨after, hflush, hafter⟩ := pollLoop_watched pollTimeout (flushCommanded buffer ⟨d₁, seen⟩)
    rw [flushCommanded_watched] at hflush hafter
    refine ⟨seen ++ after, ?_, ?_⟩
    · rw [ataWriteSector_sent buffer (by rw [hpoll]), ataWriteSector_sent buffer hready, hpoll, hpolled,
        flushCommanded_watched, hflush]
    · simp only [List.mem_append, or_and_right, exists_or, hseen, hafter]
      refine or_congr_right ⟨fun ⟨d₂, h⟩ => ⟨d₁, d₂, hsettles, h⟩, ?_⟩
      rintro ⟨d₁', d₂, hsettles', h⟩
      obtain rfl : d₁ = d₁' := congrArg Prod.snd (hpolled.symm.trans (pollLoop_ready hsettles'))
      exact ⟨d₂, h⟩
  · refine ⟨seen, ?_, ?_⟩
    · rw [ataWriteSector_refused buffer (by rwa [hpoll]), ataWriteSector_refused buffer hready, hpoll]
    · rw [hseen, or_iff_left]
      rintro ⟨d₁, d₂, hsettles, -⟩
      exact hready ((pollLoop_eq_zero_iff _ _).mpr ⟨d₁, hsettles⟩)

def statusesRead (lba : Lba) (buffer : Buffer) (d : δ) : List Byte :=
  (ataWriteSector lba buffer (Watched.watch d)).2.statuses

theorem error_reported_iff (lba : Lba) (buffer : Buffer) (d : δ) :
    ((∃ status ∈ statusesRead lba buffer d, Errored status) →
        (ataWriteSector lba buffer d).1 ≠ 0) ↔
      ¬ ∃ d₁ d₂, Settles DataReady pollTimeout (writeCommanded lba d) d₁ ∧
        Settles Errored pollTimeout (flushCommanded buffer d₁) d₂ := by
  obtain ⟨seen, hrun, hseen⟩ := ataWriteSector_watched lba buffer d
  rw [statusesRead, hrun, hseen]
  constructor
  · rintro hreported ⟨d₁, d₂, hready, herr⟩
    refine hreported (Or.inr ⟨d₁, d₂, hready, herr⟩) ?_
    rw [ataWriteSector_sent buffer (by rw [pollLoop_ready hready])]
  · rintro hcond (⟨d₁, herr⟩ | hlate)
    · have hfailed := pollLoop_failed herr
      have hne : (-1 : Int) ≠ 0 := by decide
      rw [ataWriteSector_refused buffer (by rwa [hfailed])]
      exact hne
    · exact absurd hlate hcond

end

-- A drive whose status register returns one value of `values` after another.
structure StatusStream where
  values : Nat → Byte
  reads : Nat

namespace StatusStream

instance : Ports StatusStream where
  inb port d :=
    if port = ataStatus then (d.values d.reads, { d with reads := d.reads + 1 }) else (0, d)
  outb _ _ d := d
  inw _ d := (0, d)
  outw _ _ d := d

-- A wait of at most `n` reads, from read `i` on, that read `j` ends.
structure EndsAt (final : Byte → Prop) (values : Nat → Byte) (n i j : Nat) : Prop where
  from_start : i ≤ j
  in_time : j < i + n
  waiting : ∀ k, i ≤ k → k < j → Waiting (values k)
  ends : final (values j)

variable {final : Byte → Prop} {values : Nat → Byte} {n i j : Nat}

theorem EndsAt.wait (hwait : Waiting (values i)) (h : EndsAt final values n (i + 1) j) :
    EndsAt final values (n + 1) i j := by
  obtain ⟨hstart, htime, hwaiting, hends⟩ := h
  refine ⟨by omega, by omega, fun k hk hlt => ?_, hends⟩
  by_cases heq : k = i
  · exact heq ▸ hwait
  · exact hwaiting k (by omega) hlt

theorem EndsAt.settles (h : EndsAt final values n i j) :
    Settles final n (⟨values, i⟩ : StatusStream) ⟨values, j + 1⟩ := by
  induction n generalizing i with
  | zero =>
      obtain ⟨hstart, htime, -, -⟩ := h
      omega
  | succ n ih =>
      obtain ⟨hstart, htime, hwaiting, hends⟩ := h
      by_cases heq : i = j
      · subst heq
        exact .now (d := (⟨values, i⟩ : StatusStream)) hends
      · have hlater : EndsAt final values n (i + 1) j :=
          ⟨by omega, by omega, fun k hk => hwaiting k (by omega), hends⟩
        exact .wait (hwaiting i le_rfl (by omega)) (ih hlater)

theorem endsAt_of_settles {d : StatusStream} (h : Settles final n ⟨values, i⟩ d) :
    ∃ j, EndsAt final values n i j ∧ d = ⟨values, j + 1⟩ := by
  induction n generalizing i with
  | zero => cases h
  | succ n ih =>
      cases h with
      | now hends => exact ⟨i, ⟨le_rfl, by omega, fun k hk hlt => by omega, hends⟩, rfl⟩
      | wait hwait h =>
          obtain ⟨j, hends, hd⟩ := ih (i := i + 1) h
          exact ⟨j, hends.wait hwait, hd⟩

theorem flushCommanded_eq (buffer : Buffer) (d : StatusStream) : flushCommanded buffer d = d := by
  have hwords : ∀ n, Loop.upto (writeWord buffer) n d = d := by
    intro n
    induction n with
    | zero => rfl
    | succ n ih => exact ih
  exact hwords 256

end StatusStream

open StatusStream

theorem failed_write_reported_iff (values : Nat → Byte) (lba : Lba) (buffer : Buffer) :
    ((∃ status ∈ statusesRead lba buffer (⟨values, 0⟩ : StatusStream), Errored status) →
        (ataWriteSector lba buffer (⟨values, 0⟩ : StatusStream)).1 ≠ 0) ↔
      ¬ ∃ i j, EndsAt DataReady values pollTimeout 0 i ∧
        EndsAt Errored values pollTimeout (i + 1) j := by
  rw [error_reported_iff]
  refine not_congr ⟨?_, ?_⟩
  · rintro ⟨d₁, d₂, hready, herr⟩
    obtain ⟨i, hi, rfl⟩ := endsAt_of_settles (i := 0) hready
    rw [flushCommanded_eq] at herr
    obtain ⟨j, hj, -⟩ := endsAt_of_settles herr
    exact ⟨i, j, hi, hj⟩
  · rintro ⟨i, j, hi, hj⟩
    refine ⟨_, ⟨values, j + 1⟩, hi.settles, ?_⟩
    rw [flushCommanded_eq]
    exact hj.settles

-- The drive takes the words, and its status after the flush has ERR set.
def failingFlush (n : Nat) : Byte := if n = 0 then 0x48 else 0x41

theorem failed_flush_unreported :
    (∃ status ∈ statusesRead 0 (fun _ => 0) (⟨failingFlush, 0⟩ : StatusStream), Errored status) ∧
      (ataWriteSector 0 (fun _ => 0) (⟨failingFlush, 0⟩ : StatusStream)).1 = 0 := by
  have hready : EndsAt DataReady failingFlush pollTimeout 0 0 :=
    ⟨le_rfl, by decide, fun k hk hlt => by omega, by unfold DataReady; decide⟩
  have herr : EndsAt Errored failingFlush pollTimeout 1 1 :=
    ⟨le_rfl, by decide, fun k hk hlt => by omega, by unfold Errored; decide⟩
  have hflush : Settles Errored pollTimeout
      (flushCommanded (fun _ => 0) (⟨failingFlush, 1⟩ : StatusStream)) ⟨failingFlush, 2⟩ := by
    rw [flushCommanded_eq]
    exact herr.settles
  have hunreported := mt (error_reported_iff 0 (fun _ => 0) ⟨failingFlush, 0⟩).mp
    (not_not.mpr ⟨_, _, hready.settles, hflush⟩)
  rwa [Classical.not_imp, not_not] at hunreported

end CDosX86
