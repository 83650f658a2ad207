import CDosX86.Console

namespace CDosX86

abbrev Port := BitVec 16

abbrev Lba := BitVec 32

abbrev Buffer := Nat → Byte

class Ports (δ : Type) where
  inb : Port → δ → Byte × δ
  outb : Port → Byte → δ → δ
  inw : Port → δ → BitVec 16 × δ
  outw : Port → BitVec 16 → δ → δ

open Ports

def ataData : Port := 0x1F0

def ataSeccount : Port := 0x1F2

def ataLbaLo : Port := 0x1F3

def ataLbaMid : Port := 0x1F4

def ataLbaHi : Port := 0x1F5

def ataDriveHead : Port := 0x1F6

def ataStatus : Port := 0x1F7

def ataCommand : Port := 0x1F7

def ataCmdRead : Byte := 0x20

def ataCmdWrite : Byte := 0x30

def ataCmdFlush : Byte := 0xE7

def statusBsy : Byte := 0x80

def statusDrq : Byte := 0x08

def statusErr : Byte := 0x01

def pollTimeout : Nat := 1000000

section

variable {δ : Type} [Ports δ]

def pollLoop : Nat → δ → Int × δ
  | 0, d => (-1, d)
  | timeout + 1, d =>
      let (status, d) := inb ataStatus d
      if status &&& statusBsy = 0 then
        if status &&& statusErr ≠ 0 then (-1, d)
        else if status &&& statusDrq ≠ 0 then (0, d)
        else pollLoop timeout d
      else pollLoop timeout d

def ataPollReady (d : δ) : Int × δ := pollLoop pollTimeout d

def ioWait (d : δ) : δ := outb 0x80 0 d

def ataInit (d : δ) : δ := ioWait (outb ataDriveHead 0xE0 d)

def selectSector (lba : Lba) (d : δ) : δ :=
  let d := outb ataDriveHead (0xE0 ||| (lba >>> 24 &&& 0x0F).setWidth 8) d
  let d := outb ataSeccount 1 d
  let d := outb ataLbaLo ((lba &&& 0xFF).setWidth 8) d
  let d := outb ataLbaMid ((lba >>> 8 &&& 0xFF).setWidth 8) d
  outb ataLbaHi ((lba >>> 16 &&& 0xFF).setWidth 8) d

def readWord (i : Nat) (s : Buffer × δ) : Buffer × δ :=
  let (data, d) := inw ataData s.2
  let buffer := Function.update s.1 (i * 2) ((data &&& 0xFF).setWidth 8)
  (Function.update buffer (i * 2 + 1) ((data >>> 8 &&& 0xFF).setWidth 8), d)

def ataReadSector (lba : Lba) (buffer : Buffer) (d : δ) : Int × Buffer × δ :=
  let d := outb ataCommand ataCmdRead (selectSector lba d)
  let (ready, d) := ataPollReady d
  if ready ≠ 0 then (-1, buffer, d)
  else (0, Loop.upto readWord 256 (buffer, d))

def writeWord (buffer : Buffer) (i : Nat) (d : δ) : δ :=
  outw ataData ((buffer (i * 2)).setWidth 16 ||| (buffer (i * 2 + 1)).setWidth 16 <<< 8) d

def ataWriteSector (lba : Lba) (buffer : Buffer) (d : δ) : Int × δ :=
  let d := outb ataCommand ataCmdWrite (selectSector lba d)
  let (ready, d) := ataPollReady d
  if ready ≠ 0 then (-1, d)
  else
    let d := Loop.upto (writeWord buffer) 256 d
    let d := outb ataCommand ataCmdFlush d
    (0, (ataPollReady d).2)

end

end CDosX86
