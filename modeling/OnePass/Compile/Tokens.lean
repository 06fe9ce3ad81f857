import OnePass.Compile.State

/-! # Reading tokens

The grammar looks at the current token and, where it must, at the one behind it. Tokens can be
recorded and read again. -/
namespace OnePass

def Token.keyword? (tok : Token) : Option Keyword := tok.ident?.bind Keyword.ofSpelling?

namespace Compile

def fetch : CompileM Token := do
  let tok ← preprocess PreM.next
  modify fun s => { s with recording := s.recording.map (tok :: ·) }
  return tok

def next : CompileM Unit := do
  match (← get).peeked with
  | some tok => modify fun s => { s with tok, peeked := none }
  | none =>
    let tok ← fetch
    modify fun s => { s with tok }

def peek : CompileM Token := do
  match (← get).peeked with
  | some tok => return tok
  | none =>
    let tok ← fetch
    modify fun s => { s with peeked := some tok }
    return tok

def token : CompileM Token := return (← get).tok

def tokenText : CompileM String := return (← get).tok.text

def atPunct (p : Punct) : CompileM Bool := return (← get).tok.isPunct p

def accept (p : Punct) : CompileM Bool := do
  if ← atPunct p then
    next
    return true
  return false

def expect (p : Punct) : CompileM Unit := do
  if ← accept p then return
  fail (.expected p (← tokenText))

def keyword? : CompileM (Option Keyword) := return (← get).tok.keyword?

def atKeyword (kw : Keyword) : CompileM Bool := return (← keyword?) == some kw

def acceptKeyword (kw : Keyword) : CompileM Bool := do
  if ← atKeyword kw then
    next
    return true
  return false

def name? : CompileM (Option String) :=
  return (← get).tok.ident?.filter fun name => !Keyword.isSpelling name

def expectName : CompileM String := do
  match ← name? with
  | some name =>
    next
    return name
  | none => fail (.identifierExpected (← tokenText))

def atString : CompileM Bool := do
  match (← get).tok.kind with
  | .string _ => return true
  | _ => return false

def startRecording : CompileM Unit :=
  modify fun s => { s with recording := some (s.peeked.toList ++ [s.tok]) }

def stopRecording : CompileM (List Token) :=
  modifyGet fun s => ((s.recording.getD []).reverse, { s with recording := none })

def rewind (tokens : List Token) : CompileM Unit := do
  modify fun s => { s with peeked := none }
  preprocess (Expand.replay tokens)
  next

def readGroup (opening closing : Punct) : CompileM (List Token) :=
  loop (0, []) fun (depth, read) => do
    let tok ← token
    if tok.isEof then fail .endOfFile
    let depth := if tok.isPunct opening then depth + 1 else if tok.isPunct closing then depth - 1
      else depth
    next
    return if depth == 0 then .inr (tok :: read).reverse else .inl (depth, tok :: read)

end Compile
end OnePass
