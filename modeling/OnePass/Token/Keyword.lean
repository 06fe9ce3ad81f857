/-! # Keywords

Alternative spellings of a keyword are one keyword. -/
namespace OnePass

inductive Keyword where
  | int | void | char | short | long | signed | unsigned | bool | float | double
  | struct | union | enum
  | typedef | external | static | auto | register
  | const | volatile | inline | restrict
  | ifWord | elseWord | whileWord | doWord | forWord | switchWord | caseWord | defaultWord
  | breakWord | continueWord | returnWord | gotoWord
  | sizeof | attribute | asm | extension | typeof | alignof | noreturn
  deriving DecidableEq, Repr

namespace Keyword

def spellings : List (String × Keyword) := [
  ("int", .int), ("void", .void), ("char", .char), ("short", .short), ("long", .long),
  ("signed", .signed), ("__signed__", .signed), ("__signed", .signed), ("unsigned", .unsigned),
  ("_Bool", .bool), ("float", .float), ("double", .double),
  ("struct", .struct), ("union", .union), ("enum", .enum),
  ("typedef", .typedef), ("extern", .external), ("static", .static), ("auto", .auto),
  ("register", .register),
  ("const", .const), ("__const", .const), ("__const__", .const),
  ("volatile", .volatile), ("__volatile", .volatile), ("__volatile__", .volatile),
  ("inline", .inline), ("__inline", .inline), ("__inline__", .inline),
  ("restrict", .restrict), ("__restrict", .restrict), ("__restrict__", .restrict),
  ("if", .ifWord), ("else", .elseWord), ("while", .whileWord), ("do", .doWord), ("for", .forWord),
  ("switch", .switchWord), ("case", .caseWord), ("default", .defaultWord), ("break", .breakWord),
  ("continue", .continueWord), ("return", .returnWord), ("goto", .gotoWord),
  ("sizeof", .sizeof), ("__attribute__", .attribute), ("__attribute", .attribute),
  ("asm", .asm), ("__asm", .asm), ("__asm__", .asm), ("__extension__", .extension),
  ("typeof", .typeof), ("__typeof", .typeof), ("__typeof__", .typeof),
  ("_Alignof", .alignof), ("__alignof__", .alignof), ("_Noreturn", .noreturn)]

def ofSpelling? (name : String) : Option Keyword := spellings.lookup name

def isSpelling (name : String) : Bool := (ofSpelling? name).isSome

end Keyword
end OnePass
