import OnePass.Preprocess.Directive

/-! # Preprocessed text

The expanded tokens are written on lines like those they came from. Where two tokens would be read
differently when they touch, a blank is put between them. -/
namespace OnePass.Printer

def maxLineEnds : Nat := 8

def isWordByte (b : UInt8) : Bool :=
  Ascii.isLetter b || Ascii.isDigit b || b == '_'.toUInt8 || 0x80 ≤ b

/-- Pairs of characters that begin a longer punctuator or a comment. -/
def gluingPairs : List (Char × Char) := [
  ('+', '+'), ('-', '-'), ('+', '='), ('-', '='), ('-', '>'), ('*', '='), ('/', '='), ('%', '='),
  ('&', '='), ('|', '='), ('^', '='), ('<', '<'), ('>', '>'), ('<', '='), ('>', '='), ('=', '='),
  ('!', '='), ('&', '&'), ('|', '|'), ('#', '#'), ('/', '/'), ('/', '*'), ('.', '.')]

/-- Two spellings would be read as other tokens when they touch. -/
def wouldGlue (left right : Bytes) : Bool :=
  match left.head?, left.getLast?, right.head? with
  | some start, some last, some first =>
    let isNumber := Ascii.isDigit start || (start == '.'.toUInt8 && left.length > 1)
    let exponent := "eEpP".contains (Ascii.char last)
    let sign := first == '+'.toUInt8 || first == '-'.toUInt8
    (isWordByte last && (isWordByte first || first == '"'.toUInt8 || first == '\''.toUInt8)) ||
      (isNumber && (first == '.'.toUInt8 || isWordByte first)) ||
      (isNumber && exponent && sign) ||
      (last == '.'.toUInt8 && Ascii.isDigit first) ||
      gluingPairs.contains (Ascii.char last, Ascii.char first)
  | _, _, _ => false

structure Previous where
  text : Bytes
  line : UInt32
  switches : Nat
  deriving DecidableEq, Repr

def separator (previous : Previous) (switches : Nat) (tok : Token) : Bytes :=
  if switches != previous.switches then [Ascii.newline]
  else if previous.line < tok.line then
    List.replicate (min (tok.line - previous.line).toNat maxLineEnds) Ascii.newline
  else if tok.space || wouldGlue previous.text tok.bytes then [' '.toUInt8]
  else []

def write (text : Bytes) : PreM Unit :=
  modify fun pp => { pp with printed := pp.printed.write text }

def flush : PreM Unit := modify fun pp => { pp with printed := pp.printed.flush }

def print : PreM Unit := do
  iterate (fun (previous : Option Previous) => do
    let tok ← PreM.next
    if tok.isEof then
      if previous.isSome then write [Ascii.newline]
      flush
      return .inr ()
    let switches := (← get).fileSwitches
    match previous with
    | some p => write (separator p switches tok)
    | none => pure ()
    write tok.bytes
    return .inl (some { text := tok.bytes, line := tok.line, switches })) (← read).fuel none

end OnePass.Printer
