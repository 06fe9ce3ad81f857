import OnePass.Calendar
import OnePass.Preprocess.State

/-! # Macro expansion

A name with a definition is replaced by its replacement list, which is read again. While an
expansion is being read its macro is hidden, and a name met in that state is marked for good.
Arguments are expanded on their own before they are put in place, except next to `#` and `##`. -/
namespace OnePass

inductive ExpandFault where
  | openArguments (name : String)
  | argumentCount (name : String) (tooMany : Bool)
  | paste (left right : String)
  deriving DecidableEq, Repr

def ExpandFault.text : ExpandFault → String
  | .openArguments name => "unterminated argument list invoking macro '" ++ name ++ "'"
  | .argumentCount name tooMany =>
    "macro '" ++ name ++ "' used with too " ++ (if tooMany then "many" else "few") ++ " args"
  | .paste left right =>
    "pasting \"" ++ left ++ "\" and \"" ++ right ++ "\" does not give a valid preprocessing token"

def ExpandFault.complaint (fault : ExpandFault) : Complaint := ⟨.grammar, fault.text⟩

namespace Expand

def quote (text : Bytes) : Bytes :=
  let escaped := text.flatMap fun b =>
    if b == '"'.toUInt8 || b == '\\'.toUInt8 then ['\\'.toUInt8, b] else [b]
  '"'.toUInt8 :: escaped ++ ['"'.toUInt8]

def quotedBytes (tok : Token) : Bytes :=
  match tok.kind with
  | .string spelling | .char spelling => ((quote spelling).drop 1).dropLast
  | _ => tok.bytes

def stringify (arg : List Token) : Bytes :=
  let parts := match arg with
    | [] => []
    | first :: rest => quotedBytes first :: rest.map fun (tok : Token) =>
        (if tok.space then [' '.toUInt8] else []) ++ quotedBytes tok
  '"'.toUInt8 :: parts.flatten ++ ['"'.toUInt8]

def inPlace (space : Bool) : List Token → List Token
  | [] => []
  | first :: rest => { first with space } :: rest

def isPaste (t : BodyToken) : Bool := t.part == .token .paste

def made (call : Token) (kind : TokenKind) (space : Bool) : Token :=
  { kind, line := call.line, space }

/-- Put the arguments into a replacement list. `before` and `out` are what was read and what was
made of it, latest first. -/
def arguments (expandArg : List Token → PreM (List Token)) (m : Macro) (args : List (List Token))
    (call : Token) : List BodyToken → List Token → List BodyToken → PreM (List Token)
  | _, out, [] => return out.reverse
  | before, out, t :: rest => do
    match t.part with
    | .token kind => arguments expandArg m args call (t :: before) (made call kind t.space :: out) rest
    | .stringize n =>
      let text := stringify ((args[n]?).getD [])
      arguments expandArg m args call (t :: before) (made call (.string text) t.space :: out) rest
    | .param n =>
      let arg := (args[n]?).getD []
      let afterPaste := (before.head?.map isPaste).getD false
      let beforePaste := (rest.head?.map isPaste).getD false
      if afterPaste || beforePaste then
        let takesRest := m.variadic && n + 1 == m.arity
        let comma := (before[1]?.map (·.part)) == some (.token (.punct .comma))
        let out :=
          if afterPaste && takesRest && comma then
            -- the comma goes when nothing follows it, and nothing is pasted to it
            if arg.isEmpty then out.drop 2 else (inPlace t.space arg).reverse ++ out.drop 1
          else if arg.isEmpty then made call .placemarker false :: out
          else (inPlace t.space arg).reverse ++ out
        arguments expandArg m args call (t :: before) out rest
      else
        let expanded ← expandArg arg
        arguments expandArg m args call (t :: before) ((inPlace t.space expanded).reverse ++ out) rest

/-- Make one token of two. When that fails it is reported and both stay. -/
def paste (left right : Token) : PreM (List Token) := do
  if left.kind == .placemarker then return [right]
  if right.kind == .placemarker then return [left]
  match Lexer.tokenize (left.bytes ++ right.bytes) with
  | .ok [tok] => return [{ tok with line := left.line, space := left.space, lineStart := false }]
  | _ =>
    let _ ← PreM.report (ExpandFault.paste left.text right.text).complaint
    return [left, right]

/-- Carry out the pastings of a list; `done` is what stands before, latest first. -/
def pasteAll (call : Token) : List Token → List Token → PreM (List Token)
  | done, [] => return done.reverse
  | done, [tok] =>
    if tok.kind == .paste then do
      let left := done.headD (made call .placemarker false)
      let made ← paste left (made call .placemarker false)
      return (made.reverse ++ done.drop 1).reverse
    else return (tok :: done).reverse
  | done, tok :: next :: rest =>
    if tok.kind == .paste then do
      let left := done.headD (made call .placemarker false)
      let made ← paste left next
      pasteAll call (made.reverse ++ done.drop 1) rest
    else pasteAll call (tok :: done) (next :: rest)

/-- The tokens that replace a call. They take its line, and the first one its white space. -/
def substitute (expandArg : List Token → PreM (List Token)) (m : Macro) (args : List (List Token))
    (call : Token) : PreM (List Token) := do
  let out ← arguments expandArg m args call [] [] m.body
  let pasted ← pasteAll call [] out
  match pasted.filter (·.kind != .placemarker) with
  | [] => return []
  | first :: rest =>
    return { first with line := call.line, space := call.space, lineStart := call.lineStart } ::
      rest.map fun tok => { tok with line := call.line, lineStart := false }

structure Collected where
  args : List (List Token) := []
  current : List Token := []
  depth : Nat := 0

def collect (m : Macro) (c : Collected) (tok : Token) : Collected ⊕ List (List Token) :=
  let kept := { c with current := tok :: c.current }
  match tok.kind with
  | .punct .lparen => .inl { kept with depth := c.depth + 1 }
  | .punct .rparen =>
    if c.depth == 0 then .inr (c.current.reverse :: c.args).reverse
    else .inl { kept with depth := c.depth - 1 }
  | .punct .comma =>
    if c.depth == 0 && !(m.variadic && c.args.length + 1 ≥ m.arity) then
      .inl { c with args := c.current.reverse :: c.args, current := [] }
    else .inl kept
  | _ => .inl kept

def fitArguments (m : Macro) (args : List (List Token)) : Except Bool (List (List Token)) :=
  let args := if m.arity == 0 && args == [[]] then [] else args
  let args := if m.variadic && args.length + 1 == m.arity then args ++ [[]] else args
  if args.length == m.arity then .ok args else .error (args.length > m.arity)

def readArguments (raw : PreM Token) (name : String) (m : Macro) : PreM (List (List Token)) := do
  let args ← iterate (fun c => do
    let tok ← raw
    if tok.isEof then PreM.fail (ExpandFault.openArguments name).complaint
    return collect m c tok) (← read).fuel {}
  match fitArguments m args with
  | .ok args => return args
  | .error tooMany => PreM.fail (ExpandFault.argumentCount name tooMany).complaint

def dynamic? (host : Host) (name : String) (call : Token) (pp : Preprocessor) :
    Option Token × Preprocessor :=
  let result := fun kind => some { kind, line := call.line, space := call.space, lineStart := call.lineStart }
  match name with
  | "__LINE__" => (result (.number (toString call.line.toNat)), pp)
  | "__FILE__" => (result (.string (quote (Bytes.ofString pp.fileName))), pp)
  | "__DATE__" => (result (.string (quote (Bytes.ofString (Calendar.dateText host.clock)))), pp)
  | "__TIME__" => (result (.string (quote (Bytes.ofString (Calendar.timeText host.clock)))), pp)
  | "__COUNTER__" =>
    (result (.number (toString pp.counter)), { pp with counter := pp.counter + 1 })
  | _ => (none, pp)

def dropFinished : List Frame → List Frame
  | [] => []
  | frame :: frames =>
    if frame.tokens.isEmpty && !frame.barrier then dropFinished frames else frame :: frames

/-- The next token before expansion: one read too far, one of a frame, or what `source` gives when
no frame is left. -/
def rawFrom (source : PreM Token) : PreM Token := do
  let pp ← get
  match pp.pushback with
  | some tok =>
    set { pp with pushback := none }
    return tok
  | none =>
    match dropFinished pp.frames with
    | [] =>
      set { pp with frames := [] }
      source
    | frame :: frames =>
      match frame.tokens with
      | [] =>
        set { pp with frames := frame :: frames }
        return Token.eof pp.line
      | tok :: tokens =>
        set { pp with frames := { frame with tokens } :: frames }
        return tok

def isHidden (pp : Preprocessor) (name : String) : Bool :=
  pp.frames.any fun frame => frame.hides == some name

def pushFrame (frame : Frame) : PreM Unit :=
  modify fun pp => { pp with frames := frame :: pp.frames }

/-- Read one token. The result is the token, or nothing when it was replaced. -/
def step (raw : PreM Token) (expandArg : List Token → PreM (List Token)) : PreM (Option Token) := do
  let tok ← raw
  match tok.kind with
  | .ident name =>
    if tok.noExpand then return some tok
    match (← get).macros.find? name with
    | none => return some tok
    | some m =>
      if isHidden (← get) name then return some { tok with noExpand := true }
      let host ← read
      match ← modifyGet (dynamic? host name tok) with
      | some value => return some value
      | none =>
        match m.params with
        | none =>
          let tokens ← substitute expandArg m [] tok
          pushFrame { tokens, hides := some name }
          return none
        | some _ =>
          let after ← raw
          if !after.isPunct .lparen then
            modify fun pp => { pp with pushback := some after }
            return some tok
          let args ← readArguments raw name m
          let tokens ← substitute expandArg m args tok
          pushFrame { tokens, hides := some name }
          return none
  | _ => return some tok

def nextFrom (raw : PreM Token) (expandArg : List Token → PreM (List Token)) : PreM Token := do
  iterate (fun () => do
    match ← step raw expandArg with
    | some tok => return .inr tok
    | none => return .inl ()) (← read).fuel ()

def nothing : PreM Token := return Token.eof (← get).line

/-- Expand a list of tokens on its own. The barrier cuts it off from the input around it, whatever
`source` would give. The depth bounds how far arguments nest. -/
def listFrom (source : PreM Token) : Nat → List Token → PreM (List Token)
  | 0, _ => throw .exhausted
  | depth + 1, tokens => do
    let pp ← get
    let restore := fun (after : Preprocessor) =>
      { after with frames := pp.frames, pushback := pp.pushback }
    PreM.finishing (do
      modify fun pp => { pp with pushback := none }
      pushFrame { tokens, barrier := true }
      iterate (fun out => do
        let tok ← nextFrom (rawFrom source) (listFrom source depth)
        return if tok.isEof then .inr out.reverse else .inl (tok :: out)) (← read).fuel []) restore

abbrev listTo : Nat → List Token → PreM (List Token) := listFrom nothing

def list (tokens : List Token) : PreM (List Token) := do listTo (← read).fuel tokens

/-- Read tokens again that were read and expanded before. A token read too far comes behind them. -/
def replay (tokens : List Token) : PreM Unit :=
  modify fun pp => { pp with
    frames := { tokens := tokens.map ({ · with noExpand := true }) ++ pp.pushback.toList } :: pp.frames
    pushback := none }

end Expand
end OnePass
