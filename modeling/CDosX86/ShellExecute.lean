import CDosX86.C64Boot

namespace CDosX86

open Ports

def testPattern : Buffer := fun i => BitVec.ofNat 8 (i % 256)

def mismatch (readBuf writeBuf : Buffer) : Bool :=
  (List.range 512).any fun i => readBuf i ≠ writeBuf i

def c64typePrefix : List Byte := text "C64TYPE "

def lineMax : Nat := 128

-- The command that `shell_execute` runs, C64TYPE apart.
def commandOf (line : List Byte) : Option Command :=
  if kStrncasecmp line c64typePrefix 8 = 0 then none else (tokens line).head?.bind lookup

namespace Kernel

variable {δ : Type} [Ports δ]

def cmdDir (k : Kernel δ) : Kernel δ :=
  let (r, k) := k.mount
  if r ≠ 0 then k.print (text "No disk mounted or unformatted disk.\n")
  else
    let k := k.print (text "Directory listing:\n")
    k.onConsole fun con => (k.fs.fsList (dirPrintEntry k.behindHeader) con).2

def cmdType (tokens : List (List Byte)) (k : Kernel δ) : Kernel δ :=
  match tokens with
  | _ :: name :: _ =>
      let (r, k) := k.mount
      if r ≠ 0 then k.print (text "No disk mounted or unformatted disk.\n")
      else
        match k.fs.fsFind name with
        | none => ((k.print (text "File not found: ")).print name).putchar newline
        | some entry =>
            let (len, buffer, d) := fsReadFile entry unwritten 512 k.dev
            let k := { k with dev := d }
            if len < 0 then k.print (text "Read error.\n")
            else (k.print (cString ((List.range len.toNat).map buffer))).putchar newline
  | _ => k.print (text "Usage: TYPE <filename>\n")

def cmdDisktest (k : Kernel δ) : Kernel δ :=
  let k := k.print (text "Writing test pattern to LBA 0...\n")
  let (r, d) := ataWriteSector 0 testPattern k.dev
  let k := { k with dev := d }
  if r ≠ 0 then k.print (text "WRITE FAILED\n")
  else
    let k := k.print (text "Write OK. Reading back...\n")
    let (r, readBuf, d) := ataReadSector 0 (fun _ => 0) k.dev
    let k := { k with dev := d }
    if r ≠ 0 then k.print (text "READ FAILED\n")
    else if mismatch readBuf testPattern then k.print (text "MISMATCH -- data corrupted\n")
    else k.print (text "PASS -- 512 bytes verified\n")

-- `polls` is what a C64BOOT session finds at the keyboard controller.
def runCommand (c : Command) (tokens : List (List Byte)) (polls : List (Option Byte))
    (k : Kernel δ) : Option (Kernel δ) :=
  match c with
  | .help => some (k.onConsole cmdHelp)
  | .c64tracedump => some (k.onC64 cmdC64tracedump)
  | .c64trace => some (k.onC64 (cmdC64trace tokens))
  | .c64mem => some (k.onC64 (cmdC64mem tokens))
  | .c64screen => some (k.onC64 cmdC64screen)
  | .c64enter => some (k.onC64 cmdC64enter)
  | .c64resume => some k.cmdC64resume
  | .c64key => some (k.onC64 (cmdC64key tokens))
  | .kbdstat => some (k.onConsole (cmdKbdstat k.keyboard))
  | .c64boot => k.cmdC64boot polls
  | .cputest => some (k.onC64 cpu6502RunTest)
  | .dir => some k.cmdDir
  | .type => some (k.cmdType tokens)
  | .disktest => some k.cmdDisktest
  | .clear => some (k.onConsole cmdClear)
  | .peek => some (k.onConsole (cmdPeek k.memory tokens))
  | .poke => some (k.cmdPoke tokens)
  | .dump => some (k.onC64 (cmdDump k.memory tokens))

def shellExecute (line : List Byte) (polls : List (Option Byte)) (k : Kernel δ) :
    Option (Kernel δ) :=
  if kStrncasecmp line c64typePrefix 8 = 0 then some (k.onC64 (cmdC64type (line.drop 8)))
  else
    match tokens line with
    | [] => some k
    | name :: args =>
        match lookup name with
        | some c => k.runCommand c (name :: args) polls
        | none => some (((k.print (text "Unknown command: ")).print name).putchar newline)

theorem cmdType_cases (tokens : List (List Byte)) (k : Kernel δ) :
    (∃ s, k.cmdType tokens = k.print s) ∨ (∃ s, k.cmdType tokens = k.mount.2.print s) ∨
      ∃ entry s, k.cmdType tokens = { k.mount.2 with
        dev := (fsReadFile entry unwritten 512 k.mount.2.dev).2.2 }.print s := by
  match tokens with
  | [] => exact Or.inl ⟨_, rfl⟩
  | [_] => exact Or.inl ⟨_, rfl⟩
  | _ :: name :: _ =>
      simp only [cmdType, putchar_eq_print, print_print]
      split
      · exact Or.inr (Or.inl ⟨_, rfl⟩)
      · cases k.mount.2.fs.fsFind name with
        | none => exact Or.inr (Or.inl ⟨_, rfl⟩)
        | some entry =>
            refine Or.inr (Or.inr ⟨entry, ?_⟩)
            dsimp only
            split
            · exact ⟨_, rfl⟩
            · exact ⟨_, rfl⟩

theorem cmdDisktest_cases (k : Kernel δ) :
    ∃ d s, k.cmdDisktest = { k with dev := d }.print s := by
  have hprint : ∀ d s t, ({ k.print s with dev := d } : Kernel δ).print t =
      { k with dev := d }.print (s ++ t) := fun d s t => print_print s t { k with dev := d }
  rw [cmdDisktest]
  dsimp only
  rw [hprint, hprint]
  split_ifs
  · exact ⟨_, _, rfl⟩
  · exact ⟨_, _, hprint _ _ _⟩
  · exact ⟨_, _, hprint _ _ _⟩
  · exact ⟨_, _, hprint _ _ _⟩

omit [Ports δ] in
theorem cmdPoke_cases (tokens : List (List Byte)) (k : Kernel δ) :
    ∃ memory s, k.cmdPoke tokens = { k with memory := memory }.print s := by
  match tokens with
  | [] => exact ⟨k.memory, _, rfl⟩
  | [_] => exact ⟨k.memory, _, rfl⟩
  | [_, _] => exact ⟨k.memory, _, rfl⟩
  | _ :: a :: v :: _ =>
      rw [cmdPoke]
      split
      · exact ⟨_, _, rfl⟩
      · exact ⟨k.memory, _, rfl⟩

theorem shellExecute_cases {line : List Byte} {polls : List (Option Byte)} {k k' : Kernel δ}
    (hrun : k.shellExecute line polls = some k') :
    k' = k.onC64 (cmdC64type (line.drop 8)) ∨ k' = k ∨ (∃ s, k' = k.print s) ∨
      ∃ c, commandOf line = some c ∧ k.runCommand c (tokens line) polls = some k' := by
  rw [shellExecute] at hrun
  rw [commandOf]
  split at hrun
  · exact Or.inl (Option.some_inj.mp hrun).symm
  · next htype =>
    rw [if_neg htype]
    cases htokens : tokens line with
    | nil =>
        rw [htokens, Option.some_inj] at hrun
        exact Or.inr (Or.inl hrun.symm)
    | cons name args =>
        rw [htokens] at hrun
        dsimp only [List.head?_cons, Option.bind_some] at hrun ⊢
        cases hlookup : lookup name with
        | none =>
            rw [hlookup] at hrun
            simp only [putchar_eq_print, print_print, Option.some_inj] at hrun
            exact Or.inr (Or.inr (Or.inl ⟨_, hrun.symm⟩))
        | some c =>
            rw [hlookup] at hrun
            exact Or.inr (Or.inr (Or.inr ⟨c, rfl, hrun⟩))

theorem shellExecute_command {line : List Byte} (polls : List (Option Byte)) (k : Kernel δ)
    {c : Command} (hline : commandOf line = some c) :
    k.shellExecute line polls = k.runCommand c (tokens line) polls := by
  rw [commandOf] at hline
  split at hline
  · cases hline
  · next htype =>
    rw [shellExecute, if_neg htype]
    cases htokens : tokens line with
    | nil =>
        rw [htokens] at hline
        cases hline
    | cons name args =>
        rw [htokens, List.head?_cons, Option.bind_some] at hline
        dsimp only
        rw [hline]

theorem runCommand_polls {c : Command} (hc : c ≠ .c64boot) (tokens : List (List Byte))
    (polls : List (Option Byte)) (k : Kernel δ) :
    k.runCommand c tokens polls = k.runCommand c tokens [] := by
  cases c with
  | c64boot => exact absurd rfl hc
  | _ => rw [runCommand, runCommand]

theorem shellExecute_polls {line : List Byte} (hline : commandOf line ≠ some .c64boot)
    (polls : List (Option Byte)) (k : Kernel δ) :
    k.shellExecute line polls = k.shellExecute line [] := by
  rw [commandOf] at hline
  rw [shellExecute, shellExecute]
  split
  · rfl
  · next htype =>
    rw [if_neg htype] at hline
    cases htokens : tokens line with
    | nil => rfl
    | cons name args =>
        rw [htokens, List.head?_cons, Option.bind_some] at hline
        dsimp only
        cases hlookup : lookup name with
        | none => rfl
        | some c =>
            rw [hlookup] at hline
            exact runCommand_polls (fun hc => hline (congrArg some hc)) _ _ _

def shellPrompt (k : Kernel δ) : Kernel δ :=
  (k.print (text "NULL:\\>")).onConsole Console.markLineStart

def shellInit (k : Kernel δ) : Kernel δ := { k with lineBuf := [] }.shellPrompt

def shellInputChar (c : Byte) (polls : List (Option Byte)) (k : Kernel δ) : Option (Kernel δ) :=
  if c = newline then
    match (k.putchar newline).shellExecute k.lineBuf polls with
    | some k => some { k with lineBuf := [] }.shellPrompt
    | none => none
  else if c = 0x08 then
    if k.lineBuf.length > 0 then
      some ({ k with lineBuf := k.lineBuf.dropLast }.onConsole Console.backspace)
    else some k
  else if k.lineBuf.length < lineMax - 1 then
    some ({ k with lineBuf := k.lineBuf ++ [c] }.putchar c)
  else some k

def keyboardHandler (scancode : Byte) (polls : List (Option Byte)) (k : Kernel δ) :
    Option (Kernel δ) :=
  let (c, kb) := k.keyboard.handlerChar scancode
  let k := { k with keyboard := kb }
  if c ≠ 0 then
    if kb.c64ModeActive then some (k.onC64 (C64.injectKey c)) else k.shellInputChar c polls
  else some k

theorem keyboardHandler_command {scancode : Byte} {k : Kernel δ} {c : Command}
    (hnewline : (k.keyboard.handlerChar scancode).1 = newline)
    (hmode : (k.keyboard.handlerChar scancode).2.c64ModeActive = false)
    (hcommand : commandOf k.lineBuf = some c) (polls : List (Option Byte)) :
    k.keyboardHandler scancode polls =
      ((putchar newline { k with keyboard := (k.keyboard.handlerChar scancode).2 }).runCommand c
        (tokens k.lineBuf) polls).map fun k' => shellPrompt { k' with lineBuf := [] } := by
  have hchar : (k.keyboard.handlerChar scancode).1 ≠ 0 := by
    rw [hnewline]
    decide
  rw [keyboardHandler]
  dsimp only
  rw [if_pos hchar, hmode, if_neg (by decide), shellInputChar, if_pos hnewline,
    shellExecute_command polls _ hcommand]
  cases (putchar newline { k with keyboard := (k.keyboard.handlerChar scancode).2 }).runCommand c
    (tokens k.lineBuf) polls with
  | none => rfl
  | some k' => rfl

end Kernel

end CDosX86
