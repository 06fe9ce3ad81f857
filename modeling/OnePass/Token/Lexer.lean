import OnePass.Source
import OnePass.Token

/-! # Reading tokens

Each step of reading a token is a scanner: over the gap before it, over a name, a number, a quoted
text or a punctuator. A token ends at the first character that cannot belong to it. -/
namespace OnePass

inductive LexFault where
  | unterminatedComment
  | missingQuote (quote : Char)
  | doubleDot
  | unrecognized (byte : UInt8)
  deriving DecidableEq, Repr

def LexFault.text : LexFault → String
  | .unterminatedComment => "unterminated comment"
  | .missingQuote quote => "missing terminating " ++ String.singleton quote ++ " character"
  | .doubleDot => "'..' is not a valid token"
  | .unrecognized byte =>
    "unrecognized character " ++
      if Ascii.isGraphic byte then "'" ++ String.singleton (Ascii.char byte) ++ "'"
      else "\\x" ++ Ascii.hexPair byte

structure LexError where
  fault : LexFault
  line : UInt32
  deriving DecidableEq, Repr

namespace Lexer

/-- Where a scanner stands in the gap before a token. `space` says whether white space was seen
since the line began, `fresh` whether the token will be the first of its line. -/
inductive GapState where
  | blank (space fresh : Bool)
  | slash (line : UInt32) (space fresh : Bool)
  | lineComment (fresh : Bool)
  | blockComment (line : UInt32) (fresh star : Bool)
  deriving DecidableEq, Repr

inductive GapEnd where
  | token (space : Bool)
  | slash (line : UInt32) (space : Bool)
  | newline
  | eof (space : Bool)
  | unterminated (line : UInt32)
  deriving DecidableEq, Repr

def blankMove (newlines space fresh : Bool) (line : UInt32) (b : UInt8) :
    Move GapState (GapEnd × Bool) :=
  if Ascii.isBlank b then .take (.blank true fresh)
  else if b == Ascii.newline then
    if newlines then .leave (.newline, fresh) else .take (.blank false true)
  else if b == '/'.toUInt8 then .take (.slash line space fresh)
  else .leave (.token space, fresh)

/-- White space and comments; a line end stops the scanner when `newlines` asks for it. -/
def gap (newlines : Bool) : Scanner GapState (GapEnd × Bool) where
  onChar
    | .blank space fresh, line, b => blankMove newlines space fresh line b
    | .slash start space fresh, _, b =>
      if b == '*'.toUInt8 then .take (.blockComment start fresh false)
      else if b == '/'.toUInt8 then .take (.lineComment fresh)
      else .leave (.slash start space, fresh)
    | .lineComment fresh, line, b =>
      if b == Ascii.newline then blankMove newlines true fresh line b
      else .take (.lineComment fresh)
    | .blockComment start fresh star, _, b =>
      if star && b == '/'.toUInt8 then .take (.blank true fresh)
      else .take (.blockComment start fresh (b == '*'.toUInt8))
  onEnd
    | .blank space fresh => (.eof space, fresh)
    | .slash line space fresh => (.slash line space, fresh)
    | .lineComment fresh => (.eof true, fresh)
    | .blockComment line fresh _ => (.unterminated line, fresh)

def span (p : UInt8 → Bool) : Scanner Bytes Bytes where
  onChar read _ b := if p b then .take (b :: read) else .leave read.reverse
  onEnd := List.reverse

/-- A preprocessing number behind its first character: letters, digits, dots, and a sign behind an
exponent letter. The state is what was read, latest first. -/
def number : Scanner Bytes Bytes where
  onChar read _ b :=
    let afterExponent := match read with
      | [] => false
      | latest :: _ => "eEpP".contains (Ascii.char latest)
    let sign := b == '+'.toUInt8 || b == '-'.toUInt8
    if Ascii.isNamePart b || b == '.'.toUInt8 || (sign && afterExponent) then .take (b :: read)
    else .leave read.reverse
  onEnd := List.reverse

/-- The rest of a quoted text with its closing quote; nothing when the line ends first. The state is
what was read, latest first, and whether a backslash protects the next character. -/
def quoted (quote : UInt8) : Scanner (Bytes × Bool) (Option Bytes) where
  onChar := fun (read, escaped) _ b =>
    if b == Ascii.newline then .leave none
    else if escaped then .take (b :: read, false)
    else if b == quote then .last (some (b :: read).reverse)
    else .take (b :: read, b == '\\'.toUInt8)
  onEnd _ := none

def punct : Scanner Punct Punct where
  onChar p _ b :=
    match p.extend? (Ascii.char b) with
    | none => .leave p
    | some longer => if longer.canGrow then .take longer else .last longer
  onEnd p := p

def dots : Scanner Nat Nat where
  onChar n _ b :=
    if b != '.'.toUInt8 then .leave n else if n < 2 then .take (n + 1) else .last (n + 1)
  onEnd n := n

section Reading

open CharStream

variable {S : Type} [CharStream S]

def quotedText (quote : UInt8) (opening : Bytes) (src : S) :
    Except LexFault Bytes × S :=
  let (found, src) := scan (quoted quote) (opening.reverse, false) src
  match found with
  | some spelling => (.ok spelling, src)
  | none => (.error (.missingQuote (Ascii.char quote)), src)

def numberText (first : UInt8) (src : S) : TokenKind × S :=
  let (spelling, src) := scan number [first] src
  (.number (String.ofList (spelling.map Ascii.char)), src)

def word (src : S) : Except LexFault TokenKind × S :=
  let (name, src) := scan (span Ascii.isNamePart) [] src
  let plain := TokenKind.ident (Utf8.lossy name)
  if name == ['L'.toUInt8] then
    match eat '"'.toUInt8 src with
    | (true, src) =>
      let (result, src) := quotedText '"'.toUInt8 ['L'.toUInt8, '"'.toUInt8] src
      (result.map .string, src)
    | (false, src) =>
      match eat '\''.toUInt8 src with
      | (true, src) =>
        let (result, src) := quotedText '\''.toUInt8 ['L'.toUInt8, '\''.toUInt8] src
        (result.map .char, src)
      | (false, src) => (.ok plain, src)
  else (.ok plain, src)

def afterDot (src : S) : Except LexFault TokenKind × S :=
  let src := settle src
  if ((head? src).map Ascii.isDigit).getD false then
    let (kind, src) := numberText '.'.toUInt8 src
    (.ok kind, src)
  else
    let (count, src) := scan dots 1 src
    match count with
    | 1 => (.ok (.punct .dot), src)
    | 2 => (.error .doubleDot, src)
    | _ => (.ok (.punct .ellipsis), src)

def afterFirst (b : UInt8) (src : S) : Except LexFault TokenKind × S :=
  if Ascii.isDigit b then
    let (kind, src) := numberText b src
    (.ok kind, src)
  else if b == '"'.toUInt8 then
    let (result, src) := quotedText b [b] src
    (result.map .string, src)
  else if b == '\''.toUInt8 then
    let (result, src) := quotedText b [b] src
    (result.map .char, src)
  else
    match Punct.ofChar? (Ascii.char b) with
    | none => (.error (.unrecognized b), src)
    | some .dot => afterDot src
    | some p =>
      if p.canGrow then
        let (p, src) := scan punct p src
        (.ok (.punct p), src)
      else (.ok (.punct p), src)

/-- A token whose kind has been read; the next one is no longer the first of its line. -/
def finish (line : UInt32) (space : Bool) : Except LexFault TokenKind × S → Except LexError Token × S
  | (.ok kind, src) => (.ok ⟨kind, line, space, lineStart src, false⟩, restart false src)
  | (.error fault, src) => (.error ⟨fault, line⟩, src)

def tokenHere (space : Bool) (src : S) : Except LexError Token × S :=
  finish (CharStream.line src) space <|
    if ((head? src).map Ascii.isNameStart).getD false then word src
    else match next src with
      | (some b, src) => afterFirst b src
      | (none, src) => (.ok .eof, src)

/-- The next token. With `newlines`, a line end is a token of its own and stays unread. -/
def nextToken (newlines : Bool) (src : S) : Except LexError Token × S :=
  let ((ending, fresh), src) := scan (gap newlines) (.blank false (lineStart src)) src
  let src := restart fresh src
  match ending with
  | .unterminated line => (.error ⟨.unterminatedComment, line⟩, src)
  | .newline => (.ok ⟨.newline, CharStream.line src, false, false, false⟩, src)
  | .eof space => (.ok ⟨.eof, CharStream.line src, space, false, false⟩, src)
  | .slash line space =>
    let (p, src) := scan punct .slash src
    finish line space (.ok (.punct p), src)
  | .token space => tokenHere space src

def skipBlanks (src : S) : S :=
  (scan (gap true) (.blank false (lineStart src)) src).2

inductive SkipState where
  | plain
  | slash
  | lineComment
  | blockComment (star : Bool)
  | quote (quote : UInt8) (escaped : Bool)
  deriving DecidableEq, Repr

def skipMove (b : UInt8) : Move SkipState Bool :=
  if b == Ascii.newline then .last true
  else if b == '/'.toUInt8 then .take .slash
  else if b == '"'.toUInt8 || b == '\''.toUInt8 then .take (.quote b false)
  else .take .plain

/-- The rest of a line and its end. Quotes may stay open; a comment may run over several lines. The
result says whether a new line begins, which it does not behind an unfinished comment. -/
def skippedLine : Scanner SkipState Bool where
  onChar
    | .plain, _, b => skipMove b
    | .slash, _, b =>
      if b == '*'.toUInt8 then .take (.blockComment false)
      else if b == '/'.toUInt8 then .take .lineComment
      else skipMove b
    | .lineComment, _, b => if b == Ascii.newline then .last true else .take .lineComment
    | .blockComment star, _, b =>
      if star && b == '/'.toUInt8 then .take .plain
      else .take (.blockComment (b == '*'.toUInt8))
    | .quote q escaped, _, b =>
      if b == Ascii.newline then .last true
      else if escaped then .take (.quote q false)
      else if b == q then .take .plain
      else .take (.quote q (b == '\\'.toUInt8))
  onEnd
    | .blockComment _ => false
    | _ => true

def skipLine (src : S) : S :=
  let (fresh, src) := scan skippedLine .plain src
  restart (lineStart src || fresh) src

def fileName (close : UInt8) : Scanner Bytes (Option Bytes) where
  onChar read _ b :=
    if b == Ascii.newline then .leave none
    else if b == close then .last (some read.reverse)
    else .take (b :: read)
  onEnd _ := none

/-- The file an include directive names in quotes or, with `true`, in angle brackets; nothing when
the operand is written otherwise. -/
def includeOperand (src : S) : Except LexError (Option (String × Bool)) × S :=
  let src := skipBlanks src
  let line := CharStream.line src
  let close? :=
    if head? src == some '<'.toUInt8 then some '>'.toUInt8
    else if head? src == some '"'.toUInt8 then some '"'.toUInt8
    else none
  match close? with
  | none => (.ok none, src)
  | some close =>
    match scan (fileName close) [] (next src).2 with
    | (none, src) => (.error ⟨.missingQuote (Ascii.char close), line⟩, src)
    | (some name, src) => (.ok (some (Utf8.lossy name, close == '>'.toUInt8)), src)

end Reading

/-- Read tokens until `stop` accepts one, which is the last, or an error. The count bounds their
number. -/
def tokensUntil (newlines : Bool) (stop : Token → Bool) :
    Nat → List Token → Source → List Token × Option LexError × Source
  | 0, read, src => (read.reverse, none, src)
  | fuel + 1, read, src =>
    match nextToken newlines src with
    | (.error e, src) => (read.reverse, some e, src)
    | (.ok tok, src) =>
      if stop tok then ((tok :: read).reverse, none, src)
      else tokensUntil newlines stop fuel (tok :: read) src

/-- All tokens of a source up to its end, or to the first line end when `newlines` shows them. Each
token but the last takes a character, so the bound is never reached. -/
def tokens (newlines : Bool) (src : Source) : List Token × Option LexError × Source :=
  tokensUntil newlines Token.endsLine (src.text.length + 1) [] src

def tokenize (text : Bytes) : Except LexError (List Token) :=
  match tokens false (Source.ofBytes "<string>" text) with
  | (found, none, _) => .ok found.dropLast
  | (_, some e, _) => .error e

end Lexer
end OnePass
