import OnePass.Compile.State

/-! # Entities and symbols

An entity gets its symbol when it is first referred to or defined. A later definition changes that
symbol in place, so that code emitted before it refers to the definition as well. -/
namespace OnePass.Compile

open Elf

def checkedFunctions : List String :=
  ["memcpy", "memmove", "memset", "strlen", "strcpy", "strncpy", "strcat", "strchr", "strdup",
    "malloc", "free", "realloc", "calloc"]

def argumentBytes (structs : Array StructDef) (params : List CType) : UInt64 :=
  params.foldl (fun bytes ty => bytes + alignUp (((ty.extent? structs).map (·.size)).getD 8) 8) 0

def functionName (settings : Settings) (structs : Array StructDef) (entity : Entity) : String :=
  let name := entity.name.text
  match entity.type with
  | .func _ params info _ =>
    let name :=
      if settings.boundsCheck && !entity.flags.defined && checkedFunctions.contains name then
        "__bound_" ++ name
      else name
    if settings.argumentSizes && info.conv == .stdcall then
      name ++ "@" ++ toString (argumentBytes structs params).toNat
    else name
  | _ => name

def externalName (settings : Settings) (structs : Array StructDef) (entity : Entity) : String :=
  match entity.asmLabel with
  | some label => label
  | none =>
    if entity.name.isAnonymous then entity.name.text
    else
      let name := functionName settings structs entity
      if settings.leadingUnderscore then "_" ++ name else name

def bindingOf (flags : EntityFlags) : UInt8 :=
  if flags.isStatic then Binding.ownFile else if flags.isWeak then Binding.weak else Binding.global

def symbolType (ty : CType) : UInt8 :=
  if ty.isFunc then SymbolType.func else if ty.isVoid then SymbolType.none else SymbolType.object

def entity (id : EntityId) : CompileM Entity := return (← get).scope.get id

def modifyEntity (id : EntityId) (f : Entity → Entity) : CompileM Unit :=
  modify fun s => { s with scope := s.scope.update id f }

/-- Give an entity a symbol with the given section, value and size, or change the one it has. The
result is the clash with another definition, if there is one. -/
def bind? (id : EntityId) (index : UInt16) (value size : UInt64) : CompileM (Option DefinedTwice) := do
  let settings ← settings
  modifyGet fun s =>
    let e := s.scope.get id
    let symtab := s.arena.symtab
    if e.symbol != 0 then
      let sym := s.arena.symbol symtab e.symbol
      (none, { s with arena := s.arena.setSymbol symtab e.symbol { sym with value, size, index } })
    else
      let info := Symbol.makeInfo (bindingOf e.flags) (symbolType e.type)
      match s.arena.addSymbol symtab { info, index, value, size }
          (externalName settings s.scope.structs e) with
      | .ok (symbol, arena) =>
        (none, { s with arena, scope := s.scope.update id ({ · with symbol }) })
      | .error twice => (some twice, s)

def bind (id : EntityId) (index : UInt16) (value size : UInt64) : CompileM Unit := do
  if let some twice ← bind? id index value size then fail (.definedTwice twice.name)

/-- The symbol of an entity that is referred to. A reference clashes with no definition. -/
def symbolOf (id : EntityId) : CompileM Nat := do
  modifyEntity id fun e => { e with flags := { e.flags with used := true } }
  let e ← entity id
  if e.symbol != 0 then return e.symbol
  let _ ← bind? id SectionIndex.undef 0 0
  return (← entity id).symbol

def allocStatic (sec : SectionId) (size align : UInt64) : CompileM UInt64 := do
  modify fun s => { s with arena := s.arena.update sec fun section_ => (section_.alignTo (max align 1)).2 }
  let section_ := (← get).arena.get sec
  match section_.grow? size.toNat with
  | some (offset, grown) =>
    modify fun s => { s with arena := s.arena.update sec fun _ => grown }
    return UInt64.ofNat offset
  | none => fail (.sectionTooLarge section_.name)

def sectionIndex (sec : SectionId) : CompileM UInt16 :=
  return UInt16.ofNat ((← get).arena.get sec).number

/-- Give an object without initializer its storage: a common symbol if the settings say so, room
in a section otherwise. -/
def allocTentative (id : EntityId) (size align : UInt64) : CompileM Unit := do
  let e ← entity id
  if (← settings).common && !e.flags.isStatic && e.section_.isNone then
    bind id SectionIndex.common align size
  else
    let sec := e.section_.getD (← get).arena.bss
    let offset ← allocStatic sec size align
    bind id (← sectionIndex sec) offset size

def namedSection (name : String) (isCode : Bool) : CompileM SectionId :=
  modifyGet fun s =>
    match s.arena.find? name with
    | some id => (id, s)
    | none =>
      let extra := if isCode then SectionFlag.exec else SectionFlag.write
      let (id, arena) := s.arena.create name SectionType.progbits (SectionFlag.alloc ||| extra)
      (id, { s with arena })

def writeSection (sec : SectionId) (offset : Nat) (bytes : Bytes) : CompileM Unit :=
  modify fun s => { s with arena := s.arena.update sec (·.patch offset bytes) }

end OnePass.Compile
