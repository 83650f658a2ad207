import CDosX86.RemoveKey

namespace CDosX86

open Mos6502

def guest (k : C64) : Cpu C64Mem := arch k.machine

theorem guest_step (k : C64) : guest k.step = step (guest k) := sim_step k.machine

structure Injection where
  state : C64
  char : Byte

namespace Injection

variable {base : Word} {j : Injection}

def accepted (j : Injection) : Option Byte :=
  if j.char = escape ∨ keydMax ≤ j.state.mem.ram ndx then none else some (translateKey j.char)

def delivered (base : Word) (j : Injection) : Option Byte :=
  j.accepted.map (received base (guest j.state))

def Benign (base : Word) (j : Injection) : Prop :=
  j.char = escape ∨ keydMax ≤ j.state.mem.ram ndx ∨ ¬ Closing base (guest j.state) ∨
    lastCopied base (guest j.state) = translateKey j.char

theorem delivered_eq_accepted_iff : j.delivered base = j.accepted ↔ j.Benign base := by
  unfold delivered accepted Benign
  split
  · next hrej =>
    rw [← or_assoc]
    exact iff_of_true rfl (Or.inl hrej)
  · next hacc =>
    rw [Option.map_some, Option.some_inj, ← or_assoc, or_iff_right hacc]
    unfold received
    split
    · next hclosing => exact (or_iff_right (not_not.mpr hclosing)).symm
    · next hopen => exact iff_of_true rfl (Or.inl hopen)

theorem guest_rejected (h : j.accepted = none) : guest (j.state.injectKey j.char) = guest j.state := by
  unfold accepted at h
  split at h
  · next hrej =>
    by_cases hesc : j.char = escape
    · rw [hesc, C64.injectKey_escape]
      rfl
    · rw [C64.injectKey_full hesc (hrej.resolve_left hesc)]
      rfl
  · cases h

theorem guest_accepted {key : Byte} (h : j.accepted = some key) :
    keyCount (ramOf (guest j.state)) < 10 ∧ ∃ m : C64Mem,
      m.ram = storeKey key (ramOf (guest j.state)) ∧
        guest (j.state.injectKey j.char) = { guest j.state with mem := m } := by
  unfold accepted at h
  split at h
  · cases h
  · next hacc =>
    cases h
    obtain ⟨hesc, hfull⟩ := not_or.mp hacc
    have hroom := BitVec.not_le.mp hfull
    refine ⟨BitVec.lt_def.mp hroom, (j.state.injectKey j.char).mem,
      C64.ram_injectKey_room hesc hroom, ?_⟩
    rw [C64.injectKey_room hesc hroom]
    rfl

end Injection

inductive Round (base : Word) : C64 → List Injection → C64 → Prop
  | done {k : C64} : At base .done (guest k) → Round base k [] k
  | step {k k' : C64} {js : List Injection} :
      ¬ At base .done (guest k) → Round base k.step js k' → Round base k js k'
  | key {k k' : C64} {js : List Injection} (c : Byte) :
      Round base (k.injectKey c) js k' → Round base k (⟨k, c⟩ :: js) k'

theorem Round.removing {base : Word} (hplaced : Placed base) {k k' : C64} {js : List Injection}
    (h : Round base k js k') :
    ∀ {pending : List Byte} {p : Point}, Removing base pending p (guest k) →
      Removing base (pending ++ js.filterMap (·.delivered base)) .done (guest k') := by
  induction h with
  | done hdone =>
      intro pending p hk
      rw [List.filterMap_nil, List.append_nil]
      have hp : p = .done := hk.at_point.at_iff.mp hdone
      rwa [hp] at hk
  | step hnot _ ih =>
      intro pending p hk
      obtain ⟨q, hnext⟩ := hk.step (fun hp => hnot (hk.at_point.at_iff.mpr hp)) hplaced
      rw [← guest_step] at hnext
      exact ih hnext
  | @key k k' js c _ ih =>
      intro pending p hk
      cases hacc : (Injection.mk k c).accepted with
      | none =>
          have hnone : (Injection.mk k c).delivered base = none := by
            rw [Injection.delivered, hacc, Option.map_none]
          have hguest : guest (k.injectKey c) = guest k := Injection.guest_rejected hacc
          rw [List.filterMap_cons_none hnone]
          exact ih (by rwa [hguest])
      | some key =>
          have hsome : (Injection.mk k c).delivered base = some (received base (guest k) key) := by
            rw [Injection.delivered, hacc, Option.map_some]
          obtain ⟨hroom, m, hm, hguest⟩ := Injection.guest_accepted hacc
          have hstored := hk.key hplaced hroom hm
          rw [List.filterMap_cons_some hsome, List.append_cons]
          exact ih (hguest ▸ hstored)

theorem Removing.done_eq {base : Word} {pending : List Byte} {s : Cpu C64Mem}
    (h : Removing base pending .done s) : pending = s.a :: keyBuffer (ramOf s) := by
  obtain ⟨ha, hmoved⟩ := h.shifting
  have hlen : pending.length = keyCount (ramOf s) + 1 := h.length
  apply List.ext_getElem?
  intro i
  cases i with
  | zero => exact ha
  | succ i =>
      rw [List.getElem?_cons_succ]
      rcases Nat.lt_or_ge (i + 1) pending.length with hin | hend
      · rw [hmoved i (by omega) hin, List.getElem?_eq_getElem (by rw [length_keyBuffer]; omega),
          getElem_keyBuffer]
      · rw [List.getElem?_eq_none hend, List.getElem?_eq_none (by rw [length_keyBuffer]; omega)]

structure Ready (base : Word) (k : C64) : Prop where
  running : Running base .sei (guest k)
  some_key : 1 ≤ keyCount k.mem.ram
  bounded : keyCount k.mem.ram ≤ 10

theorem Ready.removing {base : Word} {k : C64} (h : Ready base k) :
    Removing base (keyBuffer k.mem.ram) .sei (guest k) := by
  refine ⟨h.running, length_keyBuffer _, by rw [length_keyBuffer]; exact h.some_key, h.bounded, ?_⟩
  intro i _ hi
  rw [List.getElem?_eq_getElem hi, getElem_keyBuffer]
  rfl

theorem filterMap_eq_filterMap_iff {α β : Type} {f g : α → Option β} {xs : List α}
    (h : ∀ x ∈ xs, (f x).isSome = (g x).isSome) :
    xs.filterMap f = xs.filterMap g ↔ ∀ x ∈ xs, f x = g x := by
  induction xs with
  | nil => simp
  | cons x xs ih =>
      have hx := h x List.mem_cons_self
      have ih := ih fun y hy => h y (List.mem_cons_of_mem x hy)
      rw [List.forall_mem_cons, ← ih]
      cases hf : f x <;> cases hg : g x <;> simp_all

theorem round_conserves_iff {base : Word} (hplaced : Placed base) {k k' : C64}
    {js : List Injection} (hk : Ready base k) (h : Round base k js k') :
    k'.cpu.a :: keyBuffer k'.mem.ram = keyBuffer k.mem.ram ++ js.filterMap (·.accepted) ↔
      ∀ j ∈ js, j.Benign base := by
  have hend := (h.removing hplaced hk.removing).done_eq
  change _ = k'.cpu.a :: keyBuffer k'.mem.ram at hend
  rw [← hend, List.append_cancel_left_eq, filterMap_eq_filterMap_iff]
  · simp only [Injection.delivered_eq_accepted_iff]
  · intro j _
    rw [Injection.delivered, Option.isSome_map]

structure Taken where
  injections : List Injection
  after : C64

def Taken.accepted (t : Taken) : List Byte := t.injections.filterMap (·.accepted)

inductive Dequeues (base : Word) : C64 → List Taken → Prop
  | stop (k : C64) : Dequeues base k []
  | take {k k' k'' : C64} {js : List Injection} {ts : List Taken} :
      Ready base k → Round base k js k' → keyBuffer k''.mem.ram = keyBuffer k'.mem.ram →
      Dequeues base k'' ts → Dequeues base k (⟨js, k'⟩ :: ts)

def Conserved (k : C64) (ts : List Taken) (last : Taken) : Prop :=
  (ts ++ [last]).map (·.after.cpu.a) ++ keyBuffer last.after.mem.ram =
    keyBuffer k.mem.ram ++ (ts ++ [last]).flatMap (·.accepted)

def Lossless (k : C64) (ts : List Taken) : Prop :=
  ∀ before last, before ++ [last] <+: ts → Conserved k before last

theorem lossless_cons_iff {k k'' : C64} {t : Taken} {ts : List Taken}
    (hnext : keyBuffer k''.mem.ram = keyBuffer t.after.mem.ram) :
    Lossless k (t :: ts) ↔ Conserved k [] t ∧ Lossless k'' ts := by
  have hshift : Conserved k [] t → ∀ before last,
      (Conserved k (t :: before) last ↔ Conserved k'' before last) := by
    intro hfirst before last
    unfold Conserved at *
    simp only [List.nil_append, List.map_cons, List.map_nil, List.flatMap_cons, List.flatMap_nil,
      List.append_nil, List.cons_append] at hfirst ⊢
    rw [hnext, ← List.append_assoc (keyBuffer k.mem.ram), ← hfirst, List.cons_append,
      List.cons_inj_right]
  constructor
  · intro h
    have hfirst := h [] t (by simp)
    refine ⟨hfirst, fun before last hpre => (hshift hfirst before last).mp ?_⟩
    exact h (t :: before) last (List.cons_prefix_cons.mpr ⟨rfl, hpre⟩)
  · rintro ⟨hfirst, hrest⟩ before last hpre
    cases before with
    | nil =>
        obtain ⟨rfl, -⟩ := List.cons_prefix_cons.mp hpre
        exact hfirst
    | cons b before =>
        obtain ⟨rfl, htail⟩ := List.cons_prefix_cons.mp hpre
        exact (hshift hfirst before last).mpr (hrest before last htail)

theorem dequeue_lossless_iff {base : Word} (hplaced : Placed base) {k : C64} {ts : List Taken}
    (h : Dequeues base k ts) :
    Lossless k ts ↔ ∀ t ∈ ts, ∀ j ∈ t.injections, j.Benign base := by
  induction h with
  | stop k => simp [Lossless]
  | @take k k' k'' js ts hready hround hnext _ ih =>
      have hround := round_conserves_iff hplaced hready hround
      rw [lossless_cons_iff hnext, ih, List.forall_mem_cons, ← hround]
      simp [Conserved, Taken.accepted]

def romBase : Word := 0xE5B4

theorem romBase_placed : Placed romBase where
  plain i hi := ⟨by unfold romBase vicRaster; bv_omega, by unfold romBase cia1Prb; bv_omega⟩
  keys i hi j hj := by unfold romBase keyd; bv_omega
  count i hi := by unfold romBase ndx; bv_omega

def oneKey : C64 :=
  let m := ((Machine.zero.load romBase removeKey).load ndx [1]).load keyd [0x41]
  { C64.zero with machine := { m with cpu := { m.cpu with pc := romBase } } }

theorem oneKey_ready : Ready romBase oneKey where
  running := ⟨rfl, by unfold CodeAt; decide, rfl⟩
  some_key := by decide
  bounded := by decide

def stepsOf : Nat → C64 → C64
  | 0, k => k
  | n + 1, k => stepsOf n k.step

theorem Round.steps {base : Word} {k k' : C64} {js : List Injection} (n : Nat)
    (hrun : ∀ i < n, ¬ At base .done (guest (stepsOf i k))) (h : Round base (stepsOf n k) js k') :
    Round base k js k' := by
  induction n generalizing k with
  | zero => exact h
  | succ n ih =>
      have hfirst := hrun 0 (by omega)
      exact .step hfirst (ih (fun i hi => hrun (i + 1) (by omega)) h)

def atDec : C64 := stepsOf 8 oneKey

def lostKey : Taken := ⟨[⟨atDec, 0x42⟩], stepsOf 3 (atDec.injectKey 0x42)⟩

theorem lostKey_round : Round romBase oneKey lostKey.injections lostKey.after := by
  apply Round.steps 8 (by decide)
  apply Round.key
  apply Round.steps 3 (by decide)
  exact .done (by decide)

theorem oneKey_dequeues : Dequeues romBase oneKey [lostKey] :=
  .take oneKey_ready lostKey_round rfl (.stop lostKey.after)

theorem dequeue_lossless_iff_one_key :
    Lossless oneKey [lostKey] ↔ ∀ t ∈ [lostKey], ∀ j ∈ t.injections, j.Benign romBase :=
  dequeue_lossless_iff romBase_placed oneKey_dequeues

theorem dequeue_loses_key :
    ¬ ∀ base k ts, Placed base → Dequeues base k ts → Lossless k ts := by
  intro hclaim
  have hkept := hclaim romBase oneKey [lostKey] romBase_placed oneKey_dequeues [] lostKey (by simp)
  revert hkept
  unfold Conserved
  decide

end CDosX86
