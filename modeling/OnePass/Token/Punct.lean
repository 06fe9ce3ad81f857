/-! # Punctuators

A punctuator is read one character at a time: `ofChar?` starts one and `extend?` lengthens it while
a longer punctuator can come out of it. The ellipsis is no extension of the dot, because no
punctuator lies between them. -/
namespace OnePass

inductive Punct where
  | lparen | rparen | lbracket | rbracket | lbrace | rbrace
  | semicolon | comma | dot | ellipsis | arrow | plusPlus | minusMinus
  | amp | star | plus | minus | tilde | bang | slash | percent | shl | shr
  | lt | gt | le | ge | eqEq | notEq | caret | pipe | andAnd | orOr | question | colon
  | assign | starEq | slashEq | percentEq | plusEq | minusEq | shlEq | shrEq | ampEq | caretEq | pipeEq
  | hash | hashHash
  deriving DecidableEq, Repr

namespace Punct

def spelling : Punct → String
  | .lparen => "("
  | .rparen => ")"
  | .lbracket => "["
  | .rbracket => "]"
  | .lbrace => "\x7b"
  | .rbrace => "\x7d"
  | .semicolon => ";"
  | .comma => ","
  | .dot => "."
  | .ellipsis => "..."
  | .arrow => "->"
  | .plusPlus => "++"
  | .minusMinus => "--"
  | .amp => "&"
  | .star => "*"
  | .plus => "+"
  | .minus => "-"
  | .tilde => "~"
  | .bang => "!"
  | .slash => "/"
  | .percent => "%"
  | .shl => "<<"
  | .shr => ">>"
  | .lt => "<"
  | .gt => ">"
  | .le => "<="
  | .ge => ">="
  | .eqEq => "=="
  | .notEq => "!="
  | .caret => "^"
  | .pipe => "|"
  | .andAnd => "&&"
  | .orOr => "||"
  | .question => "?"
  | .colon => ":"
  | .assign => "="
  | .starEq => "*="
  | .slashEq => "/="
  | .percentEq => "%="
  | .plusEq => "+="
  | .minusEq => "-="
  | .shlEq => "<<="
  | .shrEq => ">>="
  | .ampEq => "&="
  | .caretEq => "^="
  | .pipeEq => "|="
  | .hash => "#"
  | .hashHash => "##"

def ofChar? : Char → Option Punct
  | '(' => some .lparen
  | ')' => some .rparen
  | '[' => some .lbracket
  | ']' => some .rbracket
  | '\x7b' => some .lbrace
  | '\x7d' => some .rbrace
  | ';' => some .semicolon
  | ',' => some .comma
  | '?' => some .question
  | ':' => some .colon
  | '~' => some .tilde
  | '.' => some .dot
  | '+' => some .plus
  | '-' => some .minus
  | '*' => some .star
  | '/' => some .slash
  | '%' => some .percent
  | '^' => some .caret
  | '=' => some .assign
  | '!' => some .bang
  | '&' => some .amp
  | '|' => some .pipe
  | '<' => some .lt
  | '>' => some .gt
  | '#' => some .hash
  | _ => none

def extend? : Punct → Char → Option Punct
  | .plus, '+' => some .plusPlus
  | .plus, '=' => some .plusEq
  | .minus, '-' => some .minusMinus
  | .minus, '=' => some .minusEq
  | .minus, '>' => some .arrow
  | .star, '=' => some .starEq
  | .slash, '=' => some .slashEq
  | .percent, '=' => some .percentEq
  | .caret, '=' => some .caretEq
  | .assign, '=' => some .eqEq
  | .bang, '=' => some .notEq
  | .amp, '&' => some .andAnd
  | .amp, '=' => some .ampEq
  | .pipe, '|' => some .orOr
  | .pipe, '=' => some .pipeEq
  | .lt, '<' => some .shl
  | .lt, '=' => some .le
  | .shl, '=' => some .shlEq
  | .gt, '>' => some .shr
  | .gt, '=' => some .ge
  | .shr, '=' => some .shrEq
  | .hash, '#' => some .hashHash
  | _, _ => none

/-- Some character extends the punctuator, so that its end shows only in the character behind it. -/
def canGrow : Punct → Bool
  | .plus | .minus | .star | .slash | .percent | .caret | .assign | .bang | .amp | .pipe
  | .lt | .shl | .gt | .shr | .hash => true
  | _ => false

end Punct
end OnePass
