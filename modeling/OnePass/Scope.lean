import OnePass.CType.Layout

/-! # Scopes

Everything a unit declares. Each namespace maps a name to its innermost binding, and
each entity remembers the binding it hides, so that leaving a block puts the outer bindings back. -/
namespace OnePass

abbrev EntityId := Nat

inductive Storage where
  | global
  | frame (offset : Int32)
  | typedef
  | enumConst (value : Int64)
  /-- At a code position once the label is placed, with the jumps that wait for it. -/
  | label (position : Option Nat) (pending : List Nat)
  | tag
  deriving DecidableEq, Repr, Inhabited

structure EntityFlags where
  isStatic : Bool := false
  isExternal : Bool := false
  isWeak : Bool := false
  isInline : Bool := false
  noReturn : Bool := false
  defined : Bool := false
  tentative : Bool := false
  used : Bool := false
  deriving DecidableEq, Repr

structure Entity where
  name : Name
  type : CType
  storage : Storage
  flags : EntityFlags := {}
  symbol : Nat := 0
  asmLabel : Option String := none
  section_ : Option Nat := none
  align : UInt64 := 0
  depth : Nat := 0
  hides : Option EntityId := none
  deriving Repr, Inhabited

inductive Namespace where
  | ident
  | tag
  | label
  deriving DecidableEq, Repr

structure Scope where
  entities : Array Entity := #[]
  idents : List (Name × EntityId) := []
  tags : List (Name × EntityId) := []
  labels : List (Name × EntityId) := []
  fileStack : List (Namespace × EntityId) := []
  blockStack : List (Namespace × EntityId) := []
  labelStack : List EntityId := []
  /-- 0 at file scope, one more in each block. -/
  depth : Nat := 0
  structs : Array StructDef := #[]
  nextAnonymous : Nat := 0
  deriving Repr, Inhabited

namespace Scope

def bindings (scope : Scope) : Namespace → List (Name × EntityId)
  | .ident => scope.idents
  | .tag => scope.tags
  | .label => scope.labels

def setBindings (scope : Scope) (ns : Namespace) (bindings : List (Name × EntityId)) : Scope :=
  match ns with
  | .ident => { scope with idents := bindings }
  | .tag => { scope with tags := bindings }
  | .label => { scope with labels := bindings }

def find? (scope : Scope) (ns : Namespace) (name : Name) : Option EntityId :=
  (scope.bindings ns).lookup name

def rebind (bindings : List (Name × EntityId)) (name : Name) (id : Option EntityId) :
    List (Name × EntityId) :=
  let others := bindings.filter (·.1 != name)
  match id with
  | some id => (name, id) :: others
  | none => others

def freshName (scope : Scope) : Name × Scope :=
  (.anonymous scope.nextAnonymous, { scope with nextAnonymous := scope.nextAnonymous + 1 })

def alloc (scope : Scope) (entity : Entity) : EntityId × Scope :=
  (scope.entities.size,
    { scope with entities := scope.entities.push { entity with depth := scope.depth } })

def bindAt (scope : Scope) (ns : Namespace) (entity : Entity) (depth : Nat) : EntityId × Scope :=
  let id := scope.entities.size
  let hides := scope.find? ns entity.name
  let scope := { scope with entities := scope.entities.push { entity with depth, hides } }
  (id, scope.setBindings ns (rebind (scope.bindings ns) entity.name (some id)))

def push (scope : Scope) (ns : Namespace) (entity : Entity) : EntityId × Scope :=
  let (id, scope) := scope.bindAt ns entity scope.depth
  match ns with
  | .label => (id, { scope with labelStack := id :: scope.labelStack })
  | _ =>
    if scope.depth > 0 then (id, { scope with blockStack := (ns, id) :: scope.blockStack })
    else (id, { scope with fileStack := (ns, id) :: scope.fileStack })

def pushGlobal (scope : Scope) (ns : Namespace) (entity : Entity) : EntityId × Scope :=
  let (id, scope) := scope.bindAt ns entity 0
  (id, { scope with fileStack := (ns, id) :: scope.fileStack })

def get (scope : Scope) (id : EntityId) : Entity := scope.entities[id]?.getD default

def update (scope : Scope) (id : EntityId) (f : Entity → Entity) : Scope :=
  { scope with entities := scope.entities.modify id f }

/-- Put back the binding that an entity hides, if the entity is the one bound. -/
def unbind (scope : Scope) (ns : Namespace) (id : EntityId) : Scope :=
  let entity := scope.get id
  if scope.find? ns entity.name == some id then
    scope.setBindings ns (rebind (scope.bindings ns) entity.name entity.hides)
  else scope

def unbindAll (scope : Scope) (bound : List (Namespace × EntityId)) : Scope :=
  bound.foldl (fun scope (ns, id) => scope.unbind ns id) scope

def mark (scope : Scope) : Nat := scope.blockStack.length

def popTo (scope : Scope) (mark : Nat) : Scope :=
  let count := scope.blockStack.length - mark
  ({ scope with blockStack := scope.blockStack.drop count }).unbindAll (scope.blockStack.take count)

def takeLabels (scope : Scope) : List EntityId × Scope :=
  let labels := scope.labelStack
  (labels.reverse, ({ scope with labelStack := [] }).unbindAll (labels.map (Namespace.label, ·)))

def globals (scope : Scope) : List EntityId :=
  (scope.fileStack.reverse.filter (·.1 == .ident)).map (·.2)

def popGlobals (scope : Scope) : Scope :=
  ({ scope with fileStack := [] }).unbindAll scope.fileStack

def newStruct (scope : Scope) (tag : Name) (isUnion : Bool) : StructId × Scope :=
  (scope.structs.size, { scope with structs := scope.structs.push { tag, isUnion } })

def struct? (scope : Scope) (id : StructId) : Option StructDef := scope.structs[id]?

def findField? (scope : Scope) (id : StructId) (name : String) : Option Field :=
  (scope.struct? id).bind (·.field? (.ident name))

end Scope
end OnePass
