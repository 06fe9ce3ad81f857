import OnePass.Text.Invisible

/-! # Quoted text

Text between double quotes on one line. What would end the text, what begins an escape, and what does not
show by itself is escaped. -/
namespace OnePass.Quoted

def numbered (c : Char) : String :=
  "\\u\x7b" ++ String.ofList (Nat.toDigits 16 c.toNat) ++ "\x7d"

def char (c : Char) : String :=
  match c with
  | '"' => "\\\""
  | '\\' => "\\\\"
  | '\n' => "\\n"
  | '\r' => "\\r"
  | '\t' => "\\t"
  | '\x00' => "\\0"
  | c => if Invisible.contains c then numbered c else c.toString

def text (content : String) : String :=
  "\"" ++ String.join (content.toList.map char) ++ "\""

end OnePass.Quoted
