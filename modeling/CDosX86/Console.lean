import CDosX86.Loop

namespace CDosX86

abbrev Byte := BitVec 8

abbrev Cell := BitVec 16

structure Console where
  vga : Nat → Cell
  cursorPos : Nat
  lineStart : Nat
  hwCursor : BitVec 16

def vgaWhiteOnBlack : Cell := 0x0F00

def vgaCols : Nat := 80

def vgaRows : Nat := 25

def attrChar (c : Byte) : Cell := vgaWhiteOnBlack ||| c.setWidth 16

def blank : Cell := attrChar 0x20

def text (s : String) : List Byte := s.toList.map fun c => BitVec.ofNat 8 c.toNat

def newline : Byte := 0x0A

def hexDigit (d : BitVec 32) : Byte :=
  if d < 10 then 0x30 + d.setWidth 8 else 0x41 + (d.setWidth 8 - 10)

def hexDigits (val : BitVec 32) : Nat → List Byte
  | 0 => []
  | width + 1 => hexDigits (val >>> 4) width ++ [hexDigit (val &&& 0xF)]

def decDigits : Nat → BitVec 32 → List Byte
  | 0, _ => []
  | i + 1, val => if val > 0 then decDigits i (val / 10) ++ [0x30 + (val % 10).setWidth 8] else []

namespace Console

def zero : Console := { vga := fun _ => 0, cursorPos := 0, lineStart := 0, hwCursor := 0 }

def updateCursor (k : Console) : Console :=
  { k with hwCursor := BitVec.ofNat 16 (k.cursorPos / 2) }

def setHwCursor (row col : Int) (k : Console) : Console :=
  let row := if row < 0 then 0 else row
  let row := if row ≥ vgaRows then (vgaRows : Int) - 1 else row
  let col := if col < 0 then 0 else col
  let col := if col ≥ vgaCols then (vgaCols : Int) - 1 else col
  { k with hwCursor := BitVec.ofInt 16 (row * vgaCols + col) }

def scrollIfNeeded (k : Console) : Console :=
  if k.cursorPos < vgaCols * vgaRows * 2 then k
  else
    let moved := Loop.upto (fun i vga => Function.update vga i (vga (i + vgaCols)))
      (vgaCols * (vgaRows - 1)) k.vga
    let cleared := Loop.upto
      (fun i vga => Function.update vga (vgaCols * (vgaRows - 1) + i) blank) vgaCols moved
    { k with
      vga := cleared
      cursorPos := k.cursorPos - vgaCols * 2
      lineStart :=
        if k.lineStart ≥ vgaCols * 2 then k.lineStart - vgaCols * 2 else k.lineStart }

def init (k : Console) : Console :=
  updateCursor { k with cursorPos := 0, lineStart := 0 }

def clear (k : Console) : Console :=
  updateCursor
    { k with
      vga := Loop.upto (fun i vga => Function.update vga i blank) (vgaCols * vgaRows) k.vga
      cursorPos := 0
      lineStart := 0 }

def markLineStart (k : Console) : Console :=
  { k with lineStart := k.cursorPos }

def putchar (c : Byte) (k : Console) : Console :=
  let k :=
    if c = newline then
      { k with cursorPos := k.cursorPos + (vgaCols * 2 - k.cursorPos % (vgaCols * 2)) }
    else
      { k with
        vga := Function.update k.vga (k.cursorPos / 2) (attrChar c)
        cursorPos := k.cursorPos + 2 }
  updateCursor (scrollIfNeeded k)

def backspace (k : Console) : Console :=
  if k.cursorPos ≤ k.lineStart then k
  else
    let pos := k.cursorPos - 2
    updateCursor { k with cursorPos := pos, vga := Function.update k.vga (pos / 2) blank }

def putcharAt (row col : Int) (c : Byte) (k : Console) : Console :=
  if row < 0 ∨ row ≥ vgaRows ∨ col < 0 ∨ col ≥ vgaCols then k
  else { k with vga := Function.update k.vga (row * vgaCols + col).toNat (attrChar c) }

def print (s : List Byte) (k : Console) : Console :=
  s.foldl (fun k c => putchar c k) k

def printHexW (val : BitVec 32) (width : Nat) (k : Console) : Console :=
  k.print (hexDigits val width)

def printHex (val : BitVec 32) (k : Console) : Console :=
  (k.print (text "0x")).print (hexDigits val 8)

def printDec (val : BitVec 32) (k : Console) : Console :=
  if val = 0 then k.putchar 0x30 else k.print (decDigits 10 val)

end Console

end CDosX86
