import CDosX86.C64Keys

namespace CDosX86

namespace C64

def print (s : List Byte) (k : C64) : C64 :=
  k.withMem { k.mem with console := k.mem.console.print s }

def printDec (val : BitVec 32) (k : C64) : C64 :=
  k.withMem { k.mem with console := k.mem.console.printDec val }

def printHex (val : BitVec 32) (k : C64) : C64 :=
  k.withMem { k.mem with console := k.mem.console.printHex val }

def putchar (c : Byte) (k : C64) : C64 :=
  k.withMem { k.mem with console := k.mem.console.putchar c }

end C64

def typeLine (line : List Byte) (k : C64) : C64 :=
  (line.foldl (fun k c => k.injectKey c) k).injectKey returnKey

-- The first number is what is left of `max_steps`.
def typeRun : Nat → Nat → C64 → Nat × C64
  | 0, _, k => (0, k)
  | n + 1, stepsSinceIrq, k =>
      if k.cpu.halted then (0, k)
      else
        let k := k.step
        let r :=
          if stepsSinceIrq + 1 ≥ 1000 then typeRun n 0 k.irq else typeRun n (stepsSinceIrq + 1) k
        (r.1 + 1, r.2)

def typeMaxSteps : Nat := 5000000

def cmdC64type (line : List Byte) (k : C64) : C64 :=
  let k := typeLine line k
  let k := ((k.print (text "Typed: ")).print line).putchar newline
  let (steps, k) := typeRun typeMaxSteps 0 k
  let k := (k.print (text "Ran ")).printDec (BitVec.ofNat 32 steps)
  k.print (text " steps. Use C64SCREEN to see the result.\n")

theorem keyBuffer_typeLine {line : List Byte} (hesc : escape ∉ line) (k : C64) :
    keyBuffer (typeLine line k).mem.ram =
      BoundedQueue.feed 10 (keyBuffer k.mem.ram) (line.map translateKey ++ [returnKey]) := by
  have hreturn : escape ∉ line ++ [returnKey] := by
    rw [List.mem_append]
    exact not_or.mpr ⟨hesc, by decide⟩
  have hall := C64.keyBuffer_foldl_injectKey hreturn k
  rw [List.foldl_append, List.map_append] at hall
  exact hall

def Delivers (line : List Byte) (k : C64) : Prop :=
  keyBuffer (typeLine line k).mem.ram = line.map translateKey ++ [returnKey]

theorem c64type_delivers_iff {line : List Byte} {k : C64} (hesc : escape ∉ line)
    (hempty : k.mem.ram ndx = 0) : Delivers line k ↔ line.length ≤ 9 := by
  have hnil : keyBuffer k.mem.ram = [] := by
    rw [← List.length_eq_zero_iff, length_keyBuffer, keyCount, hempty]
    rfl
  have hroom : ([] : List Byte).length ≤ 10 := Nat.zero_le 10
  have hkept := BoundedQueue.feed_keeps_all_iff hroom (line.map translateKey ++ [returnKey])
  rw [List.nil_append] at hkept
  rw [Delivers, keyBuffer_typeLine hesc, hnil, hkept]
  simp only [List.length_nil, List.length_append, List.length_map, List.length_singleton]
  omega

theorem c64type_delivers_iff_list :
    Delivers (text "LIST") C64.zero ↔ (text "LIST").length ≤ 9 :=
  c64type_delivers_iff (by decide) rfl

theorem c64type_drops_return :
    ¬ ∀ (line : List Byte) (k : C64), line.length ≤ 119 → 0 ∉ line → escape ∉ line →
      k.mem.ram ndx = 0 → Delivers line k := by
  intro hclaim
  have hline := hclaim (text "PRINT 1+23") C64.zero (by decide) (by decide) (by decide) rfl
  revert hline
  rw [Delivers, keyBuffer_typeLine (by decide)]
  decide

end CDosX86
