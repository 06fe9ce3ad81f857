import OnePass.Text.Bytes

/-! # Decoding UTF-8

A machine that reads one byte at a time. A byte that no encoding can hold at its place ends the
sequence before it: what was read of that sequence counts as one ill-formed piece, and the byte is
looked at again as the start of a new one. `lossy` shows each ill-formed piece as the replacement
character; `decode?` refuses the text. -/
namespace OnePass.Utf8

/-- Between characters, or inside one: how many bytes are still owed, the range the next one must
lie in, and the code point bits so far. -/
inductive State where
  | start
  | inside (owed : Nat) (low high : UInt8) (code : Nat)
  deriving DecidableEq, Repr

inductive Step where
  | char (c : Char)
  | more (state : State)
  | illFormed
  deriving DecidableEq, Repr

def first (b : UInt8) : Step :=
  if b < 0x80 then .char (Char.ofNat b.toNat)
  else if b < 0xc2 then .illFormed
  else if b < 0xe0 then .more (.inside 1 0x80 0xbf (b.toNat - 0xc0))
  else if b == 0xe0 then .more (.inside 2 0xa0 0xbf 0)
  else if b == 0xed then .more (.inside 2 0x80 0x9f 13)
  else if b < 0xf0 then .more (.inside 2 0x80 0xbf (b.toNat - 0xe0))
  else if b == 0xf0 then .more (.inside 3 0x90 0xbf 0)
  else if b < 0xf4 then .more (.inside 3 0x80 0xbf (b.toNat - 0xf0))
  else if b == 0xf4 then .more (.inside 3 0x80 0x8f 4)
  else .illFormed

def next (owed : Nat) (low high : UInt8) (code : Nat) (b : UInt8) : Step :=
  if low ≤ b && b ≤ high then
    let code := code * 64 + (b.toNat - 0x80)
    if owed ≤ 1 then .char (Char.ofNat code) else .more (.inside (owed - 1) 0x80 0xbf code)
  else .illFormed

/-- The state after a step at the start of a character, and the output with it, latest first. -/
def Step.settle (out : List (Option Char)) : Step → State × List (Option Char)
  | .char c => (.start, some c :: out)
  | .more state => (state, out)
  | .illFormed => (.start, none :: out)

/-- The characters of a text in order; `none` for each ill-formed piece. -/
def pieces : State → Bytes → List (Option Char) → List (Option Char)
  | .start, [], out => out.reverse
  | .inside .., [], out => (none :: out).reverse
  | .start, b :: rest, out =>
    let (state, out) := (first b).settle out
    pieces state rest out
  | .inside owed low high code, b :: rest, out =>
    let (state, out) :=
      match next owed low high code b with
      | .illFormed => (first b).settle (none :: out)
      | step => step.settle out
    pieces state rest out

def replacement : Char := Char.ofNat 0xfffd

def lossyChars (bytes : Bytes) : List Char := (pieces .start bytes []).map (·.getD replacement)

def lossy (bytes : Bytes) : String := String.ofList (lossyChars bytes)

def decode? (bytes : Bytes) : Option String :=
  let found := pieces .start bytes []
  if found.all Option.isSome then some (String.ofList (found.map (·.getD replacement))) else none

end OnePass.Utf8
