import OnePass.Text.Bytes
import OnePass.Text.Ascii

/-! # Source text

A source file is read as logical characters: a backslash at the end of a line joins it with the next
one and is never seen. The line counter follows the physical lines; lines joined before a character
are counted when that character is first looked at, not when the one before it is read. -/
namespace OnePass

/-- A logical character, with the number of line ends joined away between it and the one before. -/
structure Glyph where
  byte : UInt8
  joins : UInt32 := 0
  deriving DecidableEq, Repr

/-- The logical characters of a text in order, and the line ends joined away behind the last one.
`joins` counts those passed since the latest character, `read` holds the characters before it. -/
def splice (joins : UInt32) (read : List Glyph) : Bytes → List Glyph × UInt32
  | 0x5c :: 0x0a :: rest => splice (joins + 1) read rest
  | 0x5c :: 0x0d :: 0x0a :: rest => splice (joins + 1) read rest
  | 0x5c :: 0x0d :: rest => splice (joins + 1) read rest
  | b :: rest => splice 0 (⟨b, joins⟩ :: read) rest
  | [] => (read.reverse, joins)

structure Source where
  name : String
  line : UInt32 := 1
  /-- Only white space since the last line end. -/
  lineStart : Bool := true
  text : List Glyph
  /-- Line ends joined away behind the last character and not yet counted. -/
  tail : UInt32 := 0
  openConditionals : Nat := 0
  /-- The end of the file has been looked at. It is not looked at again, even if the file grows. -/
  ended : Bool := false
  /-- For the file that the preprocessed text goes to: how many of its bytes have been taken. -/
  follows : Option Nat := none
  deriving DecidableEq, Repr

inductive Move (σ α : Type) where
  /-- Read it and go on. -/
  | take (state : σ)
  /-- Read it and stop. -/
  | last (result : α)
  /-- Stop before it. -/
  | leave (result : α)

/-- A machine over logical characters. It sees the line of the character it looks at. -/
structure Scanner (σ α : Type) where
  onChar : σ → UInt32 → UInt8 → Move σ α
  onEnd : σ → α

namespace Source

def ofBytes (name : String) (text : Bytes) : Source :=
  let (text, tail) := splice 0 [] text
  { name, text, tail }

/-- Look at the current character: count the lines joined before it. -/
def settle (src : Source) : Source :=
  match src.text with
  | [] => { src with line := src.line + src.tail, tail := 0, ended := true }
  | glyph :: rest => { src with line := src.line + glyph.joins, text := ⟨glyph.byte, 0⟩ :: rest }

def head? (src : Source) : Option UInt8 := src.text.head?.map (·.byte)

def lineAfter (line : UInt32) (byte : UInt8) : UInt32 :=
  if byte == Ascii.newline then line + 1 else line

def next (src : Source) : Option UInt8 × Source :=
  let src := src.settle
  match src.text with
  | [] => (none, src)
  | glyph :: rest => (some glyph.byte, { src with line := lineAfter src.line glyph.byte, text := rest })

def eat (expected : UInt8) (src : Source) : Bool × Source :=
  let src := src.settle
  if src.head? == some expected then (true, src.next.2) else (false, src)

/-- What a scanner ends with: its result, the line and the unread text, or no text when the end of the
file was looked at. -/
def drive (m : Scanner σ α) : σ → UInt32 → List Glyph → α × UInt32 × Option (List Glyph)
  | state, line, [] => (m.onEnd state, line, none)
  | state, line, glyph :: rest =>
    let line := line + glyph.joins
    match m.onChar state line glyph.byte with
    | .take state => drive m state (lineAfter line glyph.byte) rest
    | .last result => (result, lineAfter line glyph.byte, some rest)
    | .leave result => (result, line, some (⟨glyph.byte, 0⟩ :: rest))

def scan (m : Scanner σ α) (state : σ) (src : Source) : α × Source :=
  match drive m state src.line src.text with
  | (result, line, some text) => (result, { src with line, text })
  | (result, line, none) => (result, ({ src with line, text := [] }).settle)

end Source

/-- A file that the lexer can read, whatever way it holds its text. -/
class CharStream (S : Type) where
  line : S → UInt32
  lineStart : S → Bool
  restart : Bool → S → S
  settle : S → S
  head? : S → Option UInt8
  next : S → Option UInt8 × S
  eat : UInt8 → S → Bool × S
  scan {σ α : Type} : Scanner σ α → σ → S → α × S

instance : CharStream Source where
  line := Source.line
  lineStart := Source.lineStart
  restart fresh src := { src with lineStart := fresh }
  settle := Source.settle
  head? := Source.head?
  next := Source.next
  eat := Source.eat
  scan m state src := src.scan m state

namespace Source

@[simp] theorem stream_scan (m : Scanner σ α) (state : σ) (src : Source) :
    CharStream.scan m state src = src.scan m state := rfl

@[simp] theorem stream_line (src : Source) : CharStream.line src = src.line := rfl

@[simp] theorem stream_lineStart (src : Source) : CharStream.lineStart src = src.lineStart := rfl

@[simp] theorem stream_head? (src : Source) : CharStream.head? src = src.head? := rfl

@[simp] theorem stream_settle (src : Source) : CharStream.settle src = src.settle := rfl

@[simp] theorem stream_next (src : Source) : CharStream.next src = src.next := rfl

@[simp] theorem stream_eat (b : UInt8) (src : Source) : CharStream.eat b src = src.eat b := rfl

@[simp] theorem stream_restart (fresh : Bool) (src : Source) :
    CharStream.restart fresh src = { src with lineStart := fresh } := rfl

end Source

def CharStream.rest [CharStream S] (src : S) : Bytes × S :=
  scan { onChar := fun read _ b => .take (b :: read), onEnd := List.reverse } [] src

end OnePass
