import CDosX86.BuildDisk
import CDosX86.FsRead

namespace CDosX86

open StoredBytes LittleEndian BuildDisk

theorem length_ljust {width : Nat} {bytes : List Byte} (h : bytes.length ≤ width) :
    (ljust width bytes).length = width := by
  rw [ljust, List.length_append, List.length_replicate]
  omega

theorem length_padded (data : List Byte) :
    (padded data).length = 512 * sectorsNeeded data.length := by
  rw [padded, List.length_append, List.length_replicate, sectorsNeeded, sectorSize]
  omega

theorem length_nameField (name : List Nat) :
    (ljust BuildDisk.fsNameLen ((name.map (BitVec.ofNat 8)).take BuildDisk.fsNameLen)).length = 16 :=
  length_ljust (by simp)

theorem length_entryBytes (e : DiskEntry) : (entryBytes e).length = 24 := by
  rw [entryBytes, List.length_append, length_nameField]
  simp

theorem length_flatten_entries (es : List DiskEntry) :
    (es.map entryBytes).flatten.length = 24 * es.length := by
  induction es with
  | nil => rfl
  | cons e es ih =>
      rw [List.map_cons, List.flatten_cons, List.length_append, length_entryBytes, ih,
        List.length_cons]
      omega

theorem length_dirSector {es : List DiskEntry} (h : es.length ≤ 21) (count : Nat) :
    (dirSector count (es.map entryBytes)).length = 512 := by
  refine length_ljust ?_
  rw [List.length_append, List.length_append, length_flatten_entries, length_encode,
    length_encode, sectorSize]
  omega

theorem endLba_cons (lba : Nat) (f : DirFile) (fs : List DirFile) :
    endLba lba (f :: fs) = endLba (lba + sectorsNeeded f.contents.length) fs := by
  rw [endLba, endLba, List.map_cons, List.sum_cons, Nat.add_assoc]

theorem entriesFrom_bounds {lba : Nat} {fs : List DirFile} {e : DiskEntry}
    (he : e ∈ entriesFrom lba fs) :
    lba ≤ e.startLba ∧ e.startLba + sectorsNeeded e.length ≤ endLba lba fs := by
  induction fs generalizing lba with
  | nil => cases he
  | cons f fs ih =>
      have hend := endLba_cons lba f fs
      rcases List.mem_cons.mp he with rfl | he
      · refine ⟨Nat.le_refl _, ?_⟩
        rw [hend, endLba]
        exact Nat.le_add_right _ _
      · obtain ⟨hlo, hhi⟩ := ih he
        exact ⟨(Nat.le_add_right _ _).trans hlo, hend ▸ hhi⟩

theorem length_eq_of_mem {lba : Nat} {fs : List DirFile} {e : DiskEntry}
    (he : e ∈ entriesFrom lba fs) : e.length = e.contents.length := by
  induction fs generalizing lba with
  | nil => cases he
  | cons f fs ih =>
      rcases List.mem_cons.mp he with rfl | he
      · rfl
      · exact ih he

theorem entriesFrom_disjoint (lba : Nat) (fs : List DirFile) :
    (entriesFrom lba fs).Pairwise fun a b => a.startLba + sectorsNeeded a.length ≤ b.startLba := by
  induction fs generalizing lba with
  | nil => exact List.Pairwise.nil
  | cons f fs ih =>
      exact List.Pairwise.cons (fun e he => (entriesFrom_bounds he).1) (ih _)

theorem entriesFrom_stored {mem : Nat → Byte} {lba : Nat} {fs : List DirFile}
    (h : Stored mem (512 * lba) ((entriesFrom lba fs).map fun e => padded e.contents).flatten)
    {e : DiskEntry} (he : e ∈ entriesFrom lba fs) : Stored mem (512 * e.startLba) e.contents := by
  induction fs generalizing lba with
  | nil => cases he
  | cons f fs ih =>
      rw [entriesFrom, List.map_cons, List.flatten_cons, stored_append, length_padded,
        ← Nat.mul_add] at h
      rcases List.mem_cons.mp he with rfl | he
      · exact (stored_append.mp h.1).1
      · exact ih h.2 he

theorem entriesFrom_getElem (lba : Nat) {fs : List DirFile} {i : Nat}
    (hi : i < (entriesFrom lba fs).length) (hf : i < fs.length) :
    (entriesFrom lba fs)[i].name = fs[i].name ∧
      (entriesFrom lba fs)[i].length = fs[i].contents.length ∧
      (entriesFrom lba fs)[i].contents = fs[i].contents := by
  induction fs generalizing lba i with
  | nil => cases hf
  | cons f fs ih =>
      cases i with
      | zero => exact ⟨rfl, rfl, rfl⟩
      | succ i => exact ih _ _ (by simpa using hf)

def asciiBytes (name : List Nat) : List Byte := name.map (BitVec.ofNat 8)

def onDisk (e : DiskEntry) : FsEntry where
  name i := (ljust BuildDisk.fsNameLen ((asciiBytes e.name).take BuildDisk.fsNameLen)).getD i 0
  startLba := BitVec.ofNat 32 e.startLba
  length := BitVec.ofNat 32 e.length

theorem entryAt_stored {mem : Nat → Byte} {off : Nat} {e : DiskEntry} (hp : Packable e)
    (h : Stored mem off (entryBytes e)) : entryAt mem off = onDisk e := by
  rw [entryBytes, stored_append, stored_append, length_nameField, length_encode,
    Nat.add_assoc] at h
  obtain ⟨hname, hstart, hlength⟩ := h
  rw [entryAt, onDisk, u32At_stored hp.startLba hstart, u32At_stored hp.length hlength]
  congr 1
  funext i
  have hi : i.val < (ljust BuildDisk.fsNameLen ((asciiBytes e.name).take BuildDisk.fsNameLen)).length := by
    rw [asciiBytes, length_nameField]
    exact i.isLt
  rw [List.getD_eq_getElem?_getD, List.getElem?_eq_getElem hi, Option.getD_some]
  exact hname i hi

theorem headerAt_stored {mem : Nat → Byte} {es : List DiskEntry} (hcount : es.length ≤ 21)
    (hp : ∀ e ∈ es, Packable e)
    (h : Stored mem 0 (dirSector es.length (es.map entryBytes))) :
    (headerAt mem).magic = CDosX86.fsMagic ∧
      (headerAt mem).entryCount = BitVec.ofNat 32 es.length ∧
      ∀ (i : Fin 21) (hi : i.val < es.length), (headerAt mem).entries i = onDisk es[i.val] := by
  rw [dirSector, ljust, stored_append, stored_append, stored_append, length_encode,
    length_encode] at h
  obtain ⟨⟨hmagic, hlen, hentries⟩, -⟩ := h
  refine ⟨u32At_stored (by decide) hmagic, u32At_stored (by omega) hlen, fun i hi => ?_⟩
  have hblock := stored_flatten hentries (w := 24) (i := i)
    (by simp [length_entryBytes]) (by rwa [List.length_map])
  rw [List.getElem_map] at hblock
  exact entryAt_stored (hp _ (List.getElem_mem hi)) hblock

end CDosX86
