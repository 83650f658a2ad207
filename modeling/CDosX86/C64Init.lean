import CDosX86.Printing

namespace CDosX86

open Kernel

def basicRomAddr : Word := 0xA000

def basicRomSize : BitVec 32 := 8192

def kernalRomAddr : Word := 0xE000

def kernalRomSize : BitVec 32 := 8192

def kernalRom : List Byte := text "KERNAL.ROM"

def basicRom : List Byte := text "BASIC.ROM"

def storeRom (loadAddr : Word) (buffer : Buffer) (size : Nat) (m : C64Mem) : C64Mem :=
  Loop.upto (fun i m => m.write (loadAddr + BitVec.ofNat 16 i) (buffer i)) size m

namespace Kernel

variable {δ : Type} [Ports δ]

def mount (k : Kernel δ) : Int × Kernel δ :=
  let (r, fs, d) := fsMount k.fs k.dev
  (r, { k with fs := fs, dev := d })

def loadRom (filename : List Byte) (loadAddr : Word) (expectedSize : BitVec 32) (k : Kernel δ) :
    Int × Kernel δ :=
  match k.fs.fsFind filename with
  | none => (-1, ((k.print (text "ROM not found on disk: ")).print filename).putchar newline)
  | some entry =>
      if entry.length ≠ expectedSize then
        let k := (k.print (text "ROM size mismatch for ")).print filename
        let k := (k.print (text ": expected ")).printDec expectedSize
        (-1, ((k.print (text ", got ")).printDec entry.length).putchar newline)
      else
        let (bytesRead, buffer, d) := fsReadFile entry unwritten 8192 k.dev
        let k := { k with dev := d }
        if bytesRead ≠ expectedSize.toInt then
          (-1, ((k.print (text "ROM read failed for ")).print filename).putchar newline)
        else
          let k := k.onC64 fun c => c.withMem (storeRom loadAddr buffer expectedSize.toNat c.mem)
          let k := (k.print (text "Loaded ")).print filename
          (0, ((k.print (text " at $")).printHex (loadAddr.setWidth 32)).putchar newline)

def resetVector (k : Kernel δ) : Word × Kernel δ :=
  let (lo, m) := k.c64.mem.read 0xFFFC
  let (hi, m) := m.read 0xFFFD
  (lo.setWidth 16 ||| hi.setWidth 16 <<< 8, k.onC64 (C64.withMem m))

def c64Init (k : Kernel δ) : Int × Kernel δ :=
  let (mounted, k) := k.mount
  if mounted ≠ 0 then
    (-1, k.print (text "c64_init: disk not mounted, cannot load ROMs\n"))
  else
    let (kernal, k) := k.loadRom kernalRom kernalRomAddr kernalRomSize
    if kernal ≠ 0 then (-1, k)
    else
      let (basic, k) := k.loadRom basicRom basicRomAddr basicRomSize
      if basic ≠ 0 then (-1, k)
      else
        let (vector, k) := k.resetVector
        let k := ((k.print (text "Reset vector: $")).printHex (vector.setWidth 32)).putchar newline
        (0, k.onC64 fun c => { c with machine := resetM vector c.machine })

-- What work with the disk leaves as it was.
structure Undisturbed (k k' : Kernel δ) : Prop where
  keyboard : k'.keyboard = k.keyboard
  pic : k'.pic = k.pic
  exitRequested : k'.c64.exitRequested = k.c64.exitRequested

omit [Ports δ] in
theorem Undisturbed.refl (k : Kernel δ) : Undisturbed k k := ⟨rfl, rfl, rfl⟩

omit [Ports δ] in
theorem Undisturbed.trans {k k' k'' : Kernel δ} (h : Undisturbed k k')
    (h' : Undisturbed k' k'') : Undisturbed k k'' :=
  ⟨h'.keyboard.trans h.keyboard, h'.pic.trans h.pic, h'.exitRequested.trans h.exitRequested⟩

omit [Ports δ] in
@[simp] theorem undisturbed_onC64 {k k' : Kernel δ} {f : C64 → C64}
    (hf : ∀ c, (f c).exitRequested = c.exitRequested) :
    Undisturbed k (k'.onC64 f) ↔ Undisturbed k k' := by
  constructor
  · intro h
    exact ⟨by simpa using h.keyboard, by simpa using h.pic, by simpa [hf] using h.exitRequested⟩
  · intro h
    exact ⟨by simpa using h.keyboard, by simpa using h.pic, by simpa [hf] using h.exitRequested⟩

theorem mount_undisturbed (k : Kernel δ) : Undisturbed k k.mount.2 := ⟨rfl, rfl, rfl⟩

-- Everything that `load_rom` can do; `s` is the message that it prints.
inductive LoadRom (filename : List Byte) (loadAddr : Word) (size : BitVec 32) (k : Kernel δ) :
    Int × Kernel δ → Prop
  | missing (s : List Byte) : k.fs.fsFind filename = none →
      LoadRom filename loadAddr size k (-1, k.print s)
  | wrongSize (s : List Byte) {entry : FsEntry} : k.fs.fsFind filename = some entry →
      entry.length ≠ size → LoadRom filename loadAddr size k (-1, k.print s)
  | readFailed (s : List Byte) {entry : FsEntry} : k.fs.fsFind filename = some entry →
      entry.length = size → (fsReadFile entry unwritten 8192 k.dev).1 ≠ size.toInt →
      LoadRom filename loadAddr size k
        (-1, { k with dev := (fsReadFile entry unwritten 8192 k.dev).2.2 }.print s)
  | stored (s : List Byte) {entry : FsEntry} {buffer : Buffer} {d : δ} :
      k.fs.fsFind filename = some entry → entry.length = size →
      fsReadFile entry unwritten 8192 k.dev = (size.toInt, buffer, d) →
      LoadRom filename loadAddr size k
        (0, ({ k with dev := d }.onC64 fun c =>
          c.withMem (storeRom loadAddr buffer size.toNat c.mem)).print s)

theorem loadRom_cases (filename : List Byte) (loadAddr : Word) (size : BitVec 32) (k : Kernel δ) :
    LoadRom filename loadAddr size k (k.loadRom filename loadAddr size) := by
  rw [loadRom]
  simp only [putchar_eq_print, printHex_eq_print, printDec_eq_print, print_print]
  cases hfind : k.fs.fsFind filename with
  | none => exact .missing _ hfind
  | some entry =>
      dsimp only
      split_ifs with hsize hread
      · exact .wrongSize _ hfind hsize
      · exact .readFailed _ hfind (not_not.mp hsize) hread
      · exact .stored _ hfind (not_not.mp hsize) (Prod.ext (not_not.mp hread) rfl)

theorem loadRom_read {filename : List Byte} (loadAddr : Word) {size : BitVec 32} {k : Kernel δ}
    {entry : FsEntry} (hfind : k.fs.fsFind filename = some entry) (hsize : entry.length = size)
    {buffer : Buffer} {d : δ}
    (hread : fsReadFile entry unwritten 8192 k.dev = (size.toInt, buffer, d)) :
    ∃ s, k.loadRom filename loadAddr size =
      (0, ({ k with dev := d }.onC64 fun c =>
        c.withMem (storeRom loadAddr buffer size.toNat c.mem)).print s) := by
  rw [loadRom, hfind]
  dsimp only
  rw [if_neg (not_not.mpr hsize), hread]
  dsimp only
  rw [if_neg (not_not.mpr rfl)]
  simp only [printHex_eq_print, putchar_eq_print, print_print]
  exact ⟨_, rfl⟩

theorem LoadRom.undisturbed {filename : List Byte} {loadAddr : Word} {size : BitVec 32}
    {k : Kernel δ} {out : Int × Kernel δ} (h : LoadRom filename loadAddr size k out) :
    Undisturbed k out.2 := by
  have hread (d : δ) : Undisturbed k { k with dev := d } := ⟨rfl, rfl, rfl⟩
  cases h with
  | missing s _ => simpa using Undisturbed.refl k
  | wrongSize s _ _ => simpa using Undisturbed.refl k
  | readFailed s _ _ _ => simpa using hread _
  | stored s _ _ _ => simpa using hread _

theorem loadRom_undisturbed (filename : List Byte) (loadAddr : Word) (size : BitVec 32)
    (k : Kernel δ) : Undisturbed k (k.loadRom filename loadAddr size).2 :=
  (loadRom_cases filename loadAddr size k).undisturbed

theorem c64Init_undisturbed (k : Kernel δ) : Undisturbed k k.c64Init.2 := by
  have hmount := mount_undisturbed k
  have hkernal := hmount.trans (loadRom_undisturbed kernalRom kernalRomAddr kernalRomSize _)
  have hbasic := hkernal.trans (loadRom_undisturbed basicRom basicRomAddr basicRomSize _)
  rw [c64Init]
  dsimp only
  split_ifs
  · simpa using hmount
  · exact hkernal
  · exact hbasic
  · simpa [resetVector] using hbasic

end Kernel

end CDosX86
