import OnePass.Text.Utf8
import OnePass.Text.Ascii

/-! # Values of literals -/
namespace OnePass

inductive LiteralFault where
  | noDigits (text : String)
  | tooLarge (text : String)
  | badSuffix (suffix : String)
  | notQuoted (spelling : Bytes)
  | openEscape
  | noHexDigits
  | unknownEscape (byte : UInt8)
  deriving DecidableEq, Repr

def LiteralFault.text : LiteralFault → String
  | .noDigits text => "invalid number '" ++ text ++ "'"
  | .tooLarge text => "integer constant '" ++ text ++ "' is too large"
  | .badSuffix suffix => "invalid suffix '" ++ suffix ++ "' on integer constant"
  | .notQuoted spelling => "invalid literal " ++ Utf8.lossy spelling
  | .openEscape => "invalid escape at end of literal"
  | .noHexDigits => "\\x used with no following hex digits"
  | .unknownEscape byte =>
    "unknown escape sequence: '\\" ++ String.singleton (Ascii.char byte) ++ "'"

structure IntLiteral where
  value : UInt64
  unsigned : Bool
  long : Bool
  decimal : Bool
  deriving DecidableEq, Repr

namespace Literal

def digit? (radix : Nat) (c : Char) : Option Nat :=
  let value? :=
    if '0' ≤ c && c ≤ '9' then some (c.toNat - '0'.toNat)
    else if 'a' ≤ c && c ≤ 'f' then some (c.toNat - 'a'.toNat + 10)
    else none
  value?.filter (· < radix)

def readDigits (radix : Nat) : List Char → List Nat × List Char
  | [] => ([], [])
  | c :: rest =>
    match digit? radix c with
    | none => ([], c :: rest)
    | some d =>
      let (digits, suffix) := readDigits radix rest
      (d :: digits, suffix)

def ofDigits (radix : Nat) (digits : List Nat) : Nat :=
  digits.foldl (fun n d => n * radix + d) 0

/-- The digits of a number, its radix and whether it is decimal. A leading zero marks octal and is
no digit of its own there. -/
def radixOf : List Char → List Char × Nat × Bool
  | '0' :: 'x' :: rest => (rest, 16, false)
  | '0' :: 'b' :: rest => (rest, 2, false)
  | '0' :: c :: rest => (c :: rest, 8, false)
  | text => (text, 10, true)

def suffix? : String → Option (Bool × Bool)
  | "" => some (false, false)
  | "u" => some (true, false)
  | "l" | "ll" => some (false, true)
  | "ul" | "lu" | "ull" | "llu" => some (true, true)
  | _ => none

def integer (text : String) : Except LiteralFault IntLiteral :=
  let (body, radix, decimal) := radixOf (text.toList.map Char.toLower)
  let (digits, suffix) := readDigits radix body
  let value := ofDigits radix digits
  if digits.isEmpty && radix != 8 then .error (.noDigits text)
  else if value ≥ 0x10000000000000000 then .error (.tooLarge text)
  else match suffix? (String.ofList suffix) with
    | none => .error (.badSuffix (String.ofList suffix))
    | some (unsigned, long) => .ok ⟨UInt64.ofNat value, unsigned, long, decimal⟩

def isFloat (text : String) : Bool :=
  let text := text.toList.map Char.toLower
  match text with
  | '0' :: 'x' :: _ => text.contains '.' || text.contains 'p'
  | _ => text.contains '.' || text.contains 'e'

/-- Where decoding stands: in a run of plain bytes, latest first, or in an escape. -/
inductive DecodeState where
  | plain (run : Bytes)
  | escape
  | octal (owed : Nat) (value : UInt32)
  | hex (digits : Bool) (value : UInt32)
  deriving DecidableEq, Repr

/-- The units of a run of plain bytes: the bytes themselves, or the characters they encode. -/
def runUnits (wide : Bool) (run : Bytes) : List UInt32 :=
  if wide then (Utf8.lossyChars run.reverse).map (·.val) else run.reverse.map (·.toUInt32)

def escapedUnit (wide : Bool) (value : UInt32) : UInt32 := if wide then value else value &&& 0xff

def simpleEscape? : Char → Option UInt32
  | 'n' => some 10
  | 't' => some 9
  | 'r' => some 13
  | 'a' => some 7
  | 'b' => some 8
  | 'f' => some 12
  | 'v' => some 11
  | 'e' | 'E' => some 27
  | '\\' => some 0x5c
  | '\'' => some 0x27
  | '"' => some 0x22
  | '?' => some 0x3f
  | _ => none

def isOctal (b : UInt8) : Bool := 0x30 ≤ b && b ≤ 0x37

def plainStep (wide : Bool) (run : Bytes) (out : List UInt32) (b : UInt8) :
    DecodeState × List UInt32 :=
  if b == '\\'.toUInt8 then (.escape, (runUnits wide run).reverse ++ out) else (.plain (b :: run), out)

def decodeStep (wide : Bool) (out : List UInt32) :
    DecodeState → UInt8 → Except LiteralFault (DecodeState × List UInt32)
  | .plain run, b => .ok (plainStep wide run out b)
  | .escape, b =>
    if isOctal b then .ok (.octal 2 (b.toUInt32 - 0x30), out)
    else if b == 'x'.toUInt8 then .ok (.hex false 0, out)
    else match simpleEscape? (Ascii.char b) with
      | some unit => .ok (.plain [], unit :: out)
      | none => .error (.unknownEscape b)
  | .octal owed value, b =>
    if owed > 0 && isOctal b then .ok (.octal (owed - 1) (value * 8 + (b.toUInt32 - 0x30)), out)
    else .ok (plainStep wide [] (escapedUnit wide value :: out) b)
  | .hex digits value, b =>
    match Ascii.hexValue? b with
    | some d => .ok (.hex true (value * 16 + UInt32.ofNat d), out)
    | none =>
      if digits then .ok (plainStep wide [] (escapedUnit wide value :: out) b)
      else .error .noHexDigits

def decodeEnd (wide : Bool) (out : List UInt32) : DecodeState → Except LiteralFault (List UInt32)
  | .plain run => .ok (out.reverse ++ runUnits wide run)
  | .escape => .error .openEscape
  | .octal _ value => .ok (escapedUnit wide value :: out).reverse
  | .hex true value => .ok (escapedUnit wide value :: out).reverse
  | .hex false _ => .error .noHexDigits

def decodeFrom (wide : Bool) : DecodeState → List UInt32 → Bytes → Except LiteralFault (List UInt32)
  | state, out, [] => decodeEnd wide out state
  | state, out, b :: rest =>
    match decodeStep wide out state b with
    | .error fault => .error fault
    | .ok (state, out) => decodeFrom wide state out rest

structure Decoded where
  units : List UInt32
  wide : Bool
  deriving DecidableEq, Repr

/-- The units of a character constant or string literal given with its quotes. Plain bytes of a
narrow literal stand for themselves; those of a wide one are decoded to characters. -/
def decode (spelling : Bytes) : Except LiteralFault Decoded :=
  let (wide, body) := match spelling with
    | 0x4c :: body => (true, body)
    | _ => (false, spelling)
  match body with
  | _ :: second :: rest =>
    (decodeFrom wide (.plain []) [] (second :: rest).dropLast).map fun units => { units, wide }
  | _ => .error (.notQuoted spelling)

end Literal
end OnePass
