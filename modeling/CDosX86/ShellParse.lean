import CDosX86.KString

namespace CDosX86

def space : Byte := 0x20

def digitValue (c : Byte) : Option (BitVec 32) :=
  if c ≥ 0x30 ∧ c ≤ 0x39 then some (c.setWidth 32 - 0x30) else none

def hexDigitValue (c : Byte) : Option (BitVec 32) :=
  if c ≥ 0x30 ∧ c ≤ 0x39 then some (c.setWidth 32 - 0x30)
  else if c ≥ 0x41 ∧ c ≤ 0x46 then some (c.setWidth 32 - 0x41 + 10)
  else if c ≥ 0x61 ∧ c ≤ 0x66 then some (c.setWidth 32 - 0x61 + 10)
  else none

def parseHexDigits (val : BitVec 32) : List Byte → Option (BitVec 32)
  | [] => some val
  | c :: s =>
      if c = 0 then some val
      else
        match hexDigitValue c with
        | some digit => parseHexDigits (val <<< 4 ||| digit) s
        | none => none

def parseDecDigits (val : BitVec 32) : List Byte → Option (BitVec 32)
  | [] => some val
  | c :: s =>
      if c = 0 then some val
      else
        match digitValue c with
        | some digit => parseDecDigits (val * 10 + digit) s
        | none => none

-- `none` is the return value 0, with `*out` left alone.
def parseNumber (s : List Byte) : Option (BitVec 32) :=
  if deref s = 0x24 then
    if deref s.tail = 0 then none else parseHexDigits 0 s.tail
  else if deref s = 0x30 ∧ (deref s.tail = 0x78 ∨ deref s.tail = 0x58) then
    if deref (s.drop 2) = 0 then none else parseHexDigits 0 (s.drop 2)
  else if deref s = 0 then none
  else parseDecDigits 0 s

def inWord (c : Byte) : Bool := c ≠ 0 ∧ c ≠ space

-- The starts of the tokens, counted from the start of the line, and the line with its NULs.
def tokenizeFrom : Nat → Nat → List Byte → List Nat × List Byte
  | 0, _, rest => ([], rest)
  | n + 1, p, rest =>
      let spaces := rest.takeWhile (· = space)
      let word := (rest.drop spaces.length).takeWhile inWord
      let start := p + spaces.length
      if word = [] then ([], rest)
      else
        match rest.drop (spaces.length + word.length) with
        | [] => ([start], rest)
        | c :: after =>
            if c = 0 then ([start], rest)
            else
              let (starts, line) := tokenizeFrom n (start + word.length + 1) after
              (start :: starts, spaces ++ (word ++ 0 :: line))

def tokenize (line : List Byte) : List Nat × List Byte := tokenizeFrom 4 0 line

def tokens (line : List Byte) : List (List Byte) :=
  (tokenize line).1.map fun start => cString ((tokenize line).2.drop start)

end CDosX86
