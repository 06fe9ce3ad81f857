import OnePass.Preprocess.Expand
import OnePass.Preprocess.Condition

/-! # Directives

A `#` that begins a line starts a directive, which is read with the line end visible. The groups that
a conditional leaves out are skipped line by line and need not consist of tokens. -/
namespace OnePass

inductive DirectiveFault where
  | unknown (name : String)
  | noMacroName
  | macroNamedDefined
  | badParameters
  | stringizeNoParameter
  | pasteAtEnd
  | needsName (directive : String)
  | includeDepth
  | includeOperand
  | includeNotFound (name : String)
  | noLineNumber
  | badLineFile
  | lineLiteral (fault : LiteralFault)
  | elifAlone
  | elifAfterElse
  | elseAlone
  | elseAfterElse
  | endifAlone
  | endifMissing
  | userError (text : String)
  | condition (fault : Condition.Fault)
  deriving DecidableEq, Repr

def DirectiveFault.kind : DirectiveFault → ErrorKind
  | .includeDepth | .includeNotFound _ => .resource
  | .lineLiteral _ => .lexical
  | _ => .grammar

def DirectiveFault.text : DirectiveFault → String
  | .unknown name => "invalid preprocessing directive #" ++ name
  | .noMacroName => "macro name required"
  | .macroNamedDefined => "'defined' cannot be used as a macro name"
  | .badParameters => "bad macro parameter list"
  | .stringizeNoParameter => "'#' is not followed by a macro parameter"
  | .pasteAtEnd => "'##' cannot appear at either end of macro expansion"
  | .needsName directive => "#" ++ directive ++ " needs an identifier"
  | .includeDepth => "#include recursion too deep"
  | .includeOperand => "#include expects \"FILENAME\" or <FILENAME>"
  | .includeNotFound name => "include file '" ++ name ++ "' not found"
  | .noLineNumber => "#line expects a line number"
  | .badLineFile => "invalid filename for #line"
  | .lineLiteral fault => fault.text
  | .elifAlone => "#elif without matching #if"
  | .elifAfterElse => "#elif after #else"
  | .elseAlone => "#else without matching #if"
  | .elseAfterElse => "#else after #else"
  | .endifAlone => "#endif without matching #if"
  | .endifMissing => "missing #endif"
  | .userError text => "#error " ++ text
  | .condition fault => fault.text

def DirectiveFault.complaint (fault : DirectiveFault) : Complaint := ⟨fault.kind, fault.text⟩

namespace Directive

def fail (fault : DirectiveFault) : PreM α := PreM.fail fault.complaint

def report (fault : DirectiveFault) : PreM Unit := do let _ ← PreM.report fault.complaint

def maxIncludeDepth : Nat := 32

def enterFile (src : Source) : PreM Unit := do
  let pp ← get
  if pp.files.length ≥ maxIncludeDepth then fail .includeDepth
  set { pp with
    files := { src with openConditionals := pp.conditionals.length } :: pp.files
    deps := pp.deps ++ [src.name]
    fileSwitches := pp.fileSwitches + 1 }

/-! ## Definitions -/

def define (name : String) (m : Macro) : PreM Unit := do
  match (← get).macros.find? name with
  | some old => if !old.sameAs m then PreM.warn (name ++ " redefined")
  | none => pure ()
  modify fun pp => { pp with macros := pp.macros.define name m }

/-- The parameters behind an opening parenthesis, up to the closing one. The result also says
whether the last one takes all remaining arguments. -/
def readParameters : PreM (List String × Bool) := do
  iterate (fun (names : List String) => do
    let tok ← PreM.lex true
    if tok.isPunct .rparen && names.isEmpty then return .inr ([], false)
    let (names, variadic, tok) ←
      if tok.isPunct .ellipsis then
        pure ("__VA_ARGS__" :: names, true, ← PreM.lex true)
      else match tok.ident? with
        | none => fail .badParameters
        | some name =>
          let tok ← PreM.lex true
          if tok.isPunct .ellipsis then pure (name :: names, true, ← PreM.lex true)
          else pure (name :: names, false, tok)
    if tok.isPunct .rparen then return .inr (names.reverse, variadic)
    if variadic || !tok.isPunct .comma then fail .badParameters
    return .inl names) (← read).fuel []

def parameter? (params : Option (List String)) (tok : Token) : Option Nat := do
  (← params).idxOf? (← tok.ident?)

def bodyPart (params : Option (List String)) (tok : Token) : PreM BodyPart := do
  match parameter? params tok with
  | some n => return .param n
  | none =>
    if tok.isPunct .hash && params.isSome then
      match parameter? params (← PreM.lex true) with
      | some n => return .stringize n
      | none => fail .stringizeNoParameter
    else if tok.isPunct .hashHash then return .token .paste
    else return .token tok.kind

def readBody (params : Option (List String)) (first : Token) : PreM (List BodyToken) := do
  iterate (fun (tok, body) => do
    if tok.endsLine then return .inr body.reverse
    let part ← bodyPart params tok
    return .inl (← PreM.lex true, { part, space := tok.space : BodyToken } :: body))
    (← read).fuel (first, [])

def readDefine : PreM Unit := do
  let some name := (← PreM.lex true).ident? | fail .noMacroName
  if name == "defined" then fail .macroNamedDefined
  let tok ← PreM.lex true
  let (params, variadic, tok) ←
    if tok.isPunct .lparen && !tok.space then do
      let (names, variadic) ← readParameters
      pure (some names, variadic, ← PreM.lex true)
    else pure (none, false, tok)
  let body ← readBody params tok
  let isPaste := fun (t : Option BodyToken) => (t.map Expand.isPaste).getD false
  if isPaste body.head? || isPaste body.getLast? then fail .pasteAtEnd
  let body := match body with
    | [] => []
    | first :: rest => { first with space := false } :: rest
  define name { params, variadic, body }

def defineText (name : String) (value : Option String) : PreM Unit := do
  let text := name ++ " " ++ value.getD "1" ++ "\n"
  modify fun pp => { pp with files := Source.ofBytes "<define>" (Bytes.ofString text) :: pp.files }
  PreM.finishing readDefine fun pp => { pp with files := pp.files.drop 1 }

def undefine (name : String) : PreM Unit :=
  modify fun pp => { pp with macros := pp.macros.undefine name }

/-! ## Files -/

def nameFromTokens? (tokens : List Token) : Option (String × Bool) :=
  match tokens with
  | [] => none
  | first :: rest =>
    match first.kind with
    | .string spelling =>
      if !rest.isEmpty then none
      else match spelling with
        | 0x22 :: inner =>
          if inner.getLast? == some 0x22 then some (Utf8.lossy inner.dropLast, false) else none
        | _ => none
    | .punct .lt =>
      match rest.findIdx? (·.isPunct .gt) with
      | some close => some (spaced (rest.take close), true)
      | none => none
    | _ => none

def includeName : PreM (String × Bool) := do
  let some src := (← get).current? | fail .includeOperand
  let (result, src) := Lexer.includeOperand src
  PreM.setFile src
  match result with
  | .error e => PreM.failAt e.line ⟨.lexical, e.fault.text⟩
  | .ok (some found) =>
    let extra ← PreM.readLine
    if !extra.isEmpty then PreM.warn "extra tokens after #include"
    return found
  | .ok none =>
    match nameFromTokens? (← Expand.list (← PreM.readLine)) with
    | some found => return found
    | none => fail .includeOperand

def candidates (pp : Preprocessor) (name : String) (angle : Bool) : List String :=
  if Path.isAbsolute name then [name]
  else
    let beside := if angle then [] else [Path.join (Path.parentDir pp.fileName) name]
    beside ++ pp.searchPaths.map (Path.join · name)

/-- Enter the first candidate that is a file; one that is included only once ends the search. -/
def search (name : String) : List String → PreM Unit
  | [] => fail (.includeNotFound name)
  | path :: rest => do
    if (← get).onceFiles.contains path then return
    match ← PreM.openFile path with
    | .ok (some src) => enterFile src
    | _ => search name rest

def include_ : PreM Unit := do
  let (name, angle) ← includeName
  search name (candidates (← get) name angle)

def lineNumber? (text : String) : Option Nat :=
  let digits := text.toList
  let value := Literal.ofDigits 10 (digits.map fun c => c.toNat - '0'.toNat)
  if !digits.isEmpty && digits.all Char.isDigit && value < 0x100000000 then some value else none

def lineFile (spelling : Bytes) : PreM String := do
  match Literal.decode spelling with
  | .ok literal => return Utf8.lossy (literal.units.map (·.toUInt8))
  | .error fault => fail (.lineLiteral fault)

/-- Set the line, which the pending line end will count up to the given one, and the file's name. -/
def line (tokens : List Token) : PreM Unit := do
  let number? := match tokens.head?.map Token.kind with
    | some (.number text) => lineNumber? text
    | _ => none
  let some number := number? | fail .noLineNumber
  let name? ← match tokens[1]?.map Token.kind with
    | none => pure none
    | some (.string spelling) => some <$> lineFile spelling
    | some _ => fail .badLineFile
  match (← get).files with
  | [] => return
  | src :: _ =>
    PreM.setFile { src with line := UInt32.ofNat (number - 1), name := name?.getD src.name }

def pragma : PreM Unit := do
  let first := (← PreM.readLine).head?.map (·.text)
  let pp ← get
  if first == some "once" then set { pp with onceFiles := pp.fileName :: pp.onceFiles }
  else if pp.diagnostics.switches.unsupported then
    PreM.warn ("#pragma " ++ first.getD "" ++ " is ignored")

/-! ## Conditionals -/

def condition : PreM Bool := do
  let raw ← PreM.readLine
  let pp ← get
  match Condition.resolveDefined pp.macros.isDefined raw with
  | .error fault => fail (.condition fault)
  | .ok tokens =>
    match Condition.evaluate (← Expand.list tokens) with
    | .ok value => return value
    | .error fault => fail (.condition fault)

def current? (pp : Preprocessor) : Option Conditional :=
  if pp.conditionals.length > pp.fileDepth then pp.conditionals.head? else none

def setCurrent (c : Conditional) : PreM Unit :=
  modify fun pp => { pp with conditionals := c :: pp.conditionals.drop 1 }

/-- Decide the group behind an `#elif`; the result says whether it is left out. -/
def elif : PreM Bool := do
  match current? (← get) with
  | none => fail .elifAlone
  | some c =>
    if c.inElse then fail .elifAfterElse
    else if c.taken then
      let _ ← PreM.readLine
      return true
    else if ← condition then
      setCurrent { c with taken := true }
      return false
    else return true

def else_ : PreM Bool := do
  match current? (← get) with
  | none => report .elseAlone; return false
  | some c =>
    if c.inElse then report .elseAfterElse; return false
    setCurrent { taken := true, inElse := true }
    return c.taken

def endif : PreM Unit := do
  match current? (← get) with
  | none => report .endifAlone
  | some _ => modify fun pp => { pp with conditionals := pp.conditionals.drop 1 }

inductive GroupEnd where
  | elif
  | else_
  | endif
  | eof
  deriving DecidableEq, Repr

/-- The word behind a `#` in a group that is left out, and the file behind it; nothing for an empty
directive. -/
def skippedWord (src : Source) : Option String × Source :=
  match Lexer.nextToken true src with
  | (.ok tok, src) =>
    match tok.kind with
    | .ident name => (some name, src)
    | .newline => (none, src)
    | _ => (some "", src)
  | (.error _, src) => (some "", src)

/-- Skip one line of a group. `depth` counts the conditionals opened inside it. -/
def skipLine (depth : Nat) (src : Source) : (Nat ⊕ GroupEnd) × Source :=
  let src := (Lexer.skipBlanks src).settle
  if src.head?.isNone then (.inr .eof, src)
  else match src.eat '#'.toUInt8 with
    | (false, src) => (.inl depth, Lexer.skipLine src)
    | (true, src) =>
      match skippedWord src with
      | (none, src) => (.inl depth, src)
      | (some word, src) =>
        match word with
        | "if" | "ifdef" | "ifndef" => (.inl (depth + 1), Lexer.skipLine src)
        | "endif" => if depth > 0 then (.inl (depth - 1), Lexer.skipLine src) else (.inr .endif, src)
        | "else" => if depth > 0 then (.inl depth, Lexer.skipLine src) else (.inr .else_, src)
        | "elif" => if depth > 0 then (.inl depth, Lexer.skipLine src) else (.inr .elif, src)
        | _ => (.inl depth, Lexer.skipLine src)

def skipGroup : PreM GroupEnd := do
  iterate (fun depth => do
    match (← get).current? with
    | none => return .inr .eof
    | some src =>
      let (next, src) := skipLine depth src
      PreM.setFile src
      return next) (← read).fuel 0

/-- Skip groups until one is included or the conditional ends. The end of the file is left to its
own handling. -/
def skipGroups : PreM Unit := do
  iterate (fun () => do
    let out ← match ← skipGroup with
      | .eof => pure false
      | .endif => do
        let _ ← PreM.readLine
        endif
        pure false
      | .else_ => do
        let _ ← PreM.readLine
        else_
      | .elif => elif
    return if out then .inl () else .inr ()) (← read).fuel ()

def openConditional (holds : Bool) : PreM Unit := do
  modify fun pp => { pp with conditionals := { taken := holds } :: pp.conditionals }
  if !holds then skipGroups

/-! ## All directives -/

def named (name : String) : PreM Unit := do
  match name with
  | "define" => readDefine
  | "undef" =>
    match (← PreM.readLine).head?.bind Token.ident? with
    | some macroName => undefine macroName
    | none => fail .noMacroName
  | "include" => include_
  | "if" => openConditional (← condition)
  | "ifdef" | "ifndef" =>
    match (← PreM.readLine).head?.bind Token.ident? with
    | some macroName => openConditional ((← get).macros.isDefined macroName == (name == "ifdef"))
    | none => fail (.needsName name)
  | "elif" => if ← elif then skipGroups
  | "else" =>
    let _ ← PreM.readLine
    if ← else_ then skipGroups
  | "endif" =>
    let _ ← PreM.readLine
    endif
  | "line" => line (← Expand.list (← PreM.readLine))
  | "error" => fail (.userError (spaced (← PreM.readLine)))
  | "warning" => PreM.warn ("#warning " ++ spaced (← PreM.readLine))
  | "pragma" => pragma
  | "ident" | "sccs" => let _ ← PreM.readLine
  | _ =>
    report (.unknown name)
    let _ ← PreM.readLine

def read_ : PreM Unit := do
  let tok ← PreM.lex true
  match tok.kind with
  | .newline | .eof => return
  | .ident name => named name
  | .number _ => line (tok :: (← PreM.readLine))
  | _ =>
    report (.unknown tok.text)
    let _ ← PreM.readLine

end Directive

namespace PreM

def endFile : PreM Bool := do
  let pp ← get
  if pp.conditionals.length > pp.fileDepth then
    Directive.report .endifMissing
    modify fun pp => { pp with
      conditionals := pp.conditionals.drop (pp.conditionals.length - pp.fileDepth) }
  if pp.files.length > 1 then
    modify Preprocessor.popFile
    return true
  return false

def fromFiles : PreM Token := do
  iterate (fun () => do
    if (← get).files.isEmpty then return .inr (Token.eof 0)
    let tok ← lex false
    if tok.isPunct .hash && tok.lineStart then
      Directive.read_
      return .inl ()
    else if tok.isEof then
      return if ← endFile then .inl () else .inr tok
    else return .inr tok) (← read).fuel ()

def next : PreM Token := Expand.nextFrom (Expand.rawFrom fromFiles) Expand.list

end PreM
end OnePass
