import OnePass.Text.Utf8
import OnePass.Token.Keyword
import OnePass.Token.Punct

/-! # Preprocessing tokens

Numbers, character constants and strings keep their spelling until a value is needed. -/
namespace OnePass

inductive TokenKind where
  | ident (name : String)
  | number (spelling : String)
  | char (spelling : Bytes)
  | string (spelling : Bytes)
  | punct (p : Punct)
  | newline
  | paste
  /-- An empty argument beside the pasting operator. -/
  | placemarker
  | eof
  deriving DecidableEq, Repr, Inhabited

structure Token where
  kind : TokenKind
  line : UInt32
  space : Bool := false
  lineStart : Bool := false
  noExpand : Bool := false
  deriving DecidableEq, Repr, Inhabited

def TokenKind.text : TokenKind → String
  | .ident name => name
  | .number spelling => spelling
  | .char spelling | .string spelling => Utf8.lossy spelling
  | .punct p => p.spelling
  | .newline => "\n"
  | .paste => "##"
  | .placemarker => ""
  | .eof => "<eof>"

/-- The exact spelling; literals keep bytes that are no text. -/
def TokenKind.bytes : TokenKind → Bytes
  | .char spelling | .string spelling => spelling
  | kind => Bytes.ofString kind.text

namespace Token

def eof (line : UInt32) : Token := ⟨.eof, line, false, false, false⟩

def isPunct (tok : Token) (p : Punct) : Bool := tok.kind == .punct p

def ident? (tok : Token) : Option String :=
  match tok.kind with
  | .ident name => some name
  | _ => none

def isEof (tok : Token) : Bool := tok.kind == .eof

def endsLine (tok : Token) : Bool := tok.kind == .newline || tok.kind == .eof

def text (tok : Token) : String := tok.kind.text

def bytes (tok : Token) : Bytes := tok.kind.bytes

end Token

def spaced : List Token → String
  | [] => ""
  | tok :: rest => rest.foldl (fun line t => line ++ (if t.space then " " else "") ++ t.text) tok.text

end OnePass
