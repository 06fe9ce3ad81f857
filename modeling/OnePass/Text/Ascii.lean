/-! # Character classes of source bytes

The lexer works on single bytes; a byte outside ASCII can only be part of a name or a literal. -/
namespace OnePass.Ascii

def isDigit (b : UInt8) : Bool := 0x30 ≤ b && b ≤ 0x39

def isLetter (b : UInt8) : Bool := (0x41 ≤ b && b ≤ 0x5a) || (0x61 ≤ b && b ≤ 0x7a)

def isGraphic (b : UInt8) : Bool := 0x21 ≤ b && b ≤ 0x7e

/-- Space, tab, vertical tab, form feed and carriage return: what separates tokens in a line. -/
def isBlank (b : UInt8) : Bool := b == 0x20 || b == 0x09 || b == 0x0b || b == 0x0c || b == 0x0d

def newline : UInt8 := 0x0a

/-- Space and the control characters from tab to carriage return, without the vertical tab. -/
def isSpace (b : UInt8) : Bool := b == 0x20 || b == 0x09 || b == 0x0a || b == 0x0c || b == 0x0d

def isNameStart (b : UInt8) : Bool := isLetter b || b == 0x5f || b == 0x24 || 0x80 ≤ b

def isNamePart (b : UInt8) : Bool := isNameStart b || isDigit b

def hexValue? (b : UInt8) : Option Nat :=
  if isDigit b then some (b.toNat - 0x30)
  else if 0x61 ≤ b && b ≤ 0x66 then some (b.toNat - 0x61 + 10)
  else if 0x41 ≤ b && b ≤ 0x46 then some (b.toNat - 0x41 + 10)
  else none

def hexDigit (n : Nat) : Char :=
  if n < 10 then Char.ofNat (0x30 + n) else Char.ofNat (0x61 + (n - 10))

def hexPair (b : UInt8) : String :=
  String.ofList [hexDigit (b.toNat / 16), hexDigit (b.toNat % 16)]

def char (b : UInt8) : Char := Char.ofNat b.toNat

end OnePass.Ascii
