import OnePass.Proofs.Declarations

/-! # Declarations and statements, part by part -/
namespace OnePass

open Theory
open Compile

/-- The property also holds of making sections. -/
class Theory.Makes (R : Theory) : Prop extends Parses R where
  namedSection : ∀ name isCode, Keeps R (namedSection name isCode)

/-- The property also holds of the expressions in statements together with what takes their values, and of objects
that are given their storage. -/
class Theory.States (R : Theory) : Prop extends Makes R, Codes R where
  completeArray : ∀ ty, Keeps R (completeArray ty)
  localInitializer : ∀ offset ty, Keeps R (localInitializer offset ty)
  declareStatic : ∀ {d : Declared} isGlobal, d.type.isFunc = false → d.type.isVoid = false →
    Keeps R (declareStatic d isGlobal)
  discarded : Keeps R discarded
  branchOn : ∀ wanted, Keeps R (do condition; branch wanted)
  forCondition : Keeps R forCondition
  switchValueSlot : Keeps R switchValueSlot
  returnValue : ∀ result, Keeps R (returnValue result)

namespace Compile

variable {R : Theory}

/-! ## Instructions -/

section Codes

variable [R.Codes]

@[grind ←] instance emit_keeps (instr : X86.Instr) : Keeps R (emit instr) := Codes.emit instr

theorem fill_keeps (hole : Nat) (value : Compiler → Int32) :
    Keeps R (modify fun s => s.fill hole (value s) : CompileM PUnit) :=
  Codes.fill hole value

@[grind ←] instance extentOr_keeps (fault : CompileFault) (ty : CType) : Keeps R (extentOr fault ty) := by
  unfold extentOr
  grind

@[grind ←] instance emitHole_keeps (instr : X86.Instr) : Keeps R (emitHole instr) := by
  unfold emitHole
  grind

@[grind ←] instance patchTo_keeps (target hole : Nat) : Keeps R (patchTo target hole) :=
  fill_keeps hole _

@[grind ←] instance patchAll_keeps (target : Nat) (holes : List Nat) : Keeps R (patchAll target holes) :=
  .forM (fun hole => patchTo_keeps target hole) holes

@[grind ←] instance patchHere_keeps (holes : List Nat) : Keeps R (patchHere holes) :=
  position_keeps.bind fun _ => patchAll_keeps _ holes

@[grind ←] instance jump_keeps : Keeps R jump := emitHole_keeps _

@[grind ←] instance jumpIf_keeps (cond : X86.Cond) : Keeps R (jumpIf cond) := emitHole_keeps _

@[grind ←] instance (target : Nat) : Keeps R (jumpTo target) :=
  jump_keeps.bind fun _ => patchAll_keeps target _

@[grind ←] instance (value : Int64) (cond : X86.Cond) : Keeps R (compareAndJump value cond) := by
  unfold compareAndJump
  grind

@[grind ←] instance convertRegister_keeps (reg : X86.Reg) (source target : CType) :
    Keeps R (convertRegister reg source target) := by
  unfold convertRegister
  grind

@[grind ←] instance : Keeps R atLabel := by
  unfold atLabel
  grind

@[grind ←] instance (unsigned : Bool) (c : SwitchCase) : Keeps R (dispatchCase unsigned c) := by
  unfold dispatchCase
  grind

@[grind ←] instance (sw : Switch) : Keeps R (dispatch sw) := by
  unfold dispatch
  grind

@[grind ←] instance breakStatement_keeps : Keeps R breakStatement := by
  unfold breakStatement
  grind

@[grind ←] instance continueStatement_keeps : Keeps R continueStatement := by
  unfold continueStatement
  grind

@[grind ←] instance labelOf_keeps (name : String) : Keeps R (labelOf name) := by
  unfold labelOf
  grind

@[grind ←] instance gotoStatement_keeps : Keeps R gotoStatement := by
  refine next_keeps.bind fun _ => expectName_keeps.bind fun name => (labelOf_keeps name).bind fun id => ?_
  refine jump_keeps.bind fun hole => (entity_keeps id).bind fun e => ?_
  split <;> grind

@[grind ←] instance (index : Nat) (ty : CType) (extent : Extent) : Keeps R (parameterOffset index ty extent) := by
  unfold parameterOffset storeParameter
  grind

@[grind ←] instance bindParameter_keeps (index : Nat) (ty : CType) (name : Option String) :
    Keeps R (bindParameter index ty name) := by
  unfold bindParameter
  grind

@[grind ←] instance (index : Nat) (params : List (CType × Option String)) : Keeps R (bindParameters index params) := by
  induction params generalizing index with
  | nil => exact .pure _
  | cons param rest ih => exact (bindParameter_keeps index _ _).bind fun _ => ih _

@[grind ←] instance : Keeps R checkLabels := by
  refine .bind (.declare (f := fun s => s.scope.takeLabels) fun s => .of_entities ?_) fun labels => ?_
  · exact Scope.unbindAll_entities _ _
  · grind

@[grind ←] instance (frameHole : Nat) (returns : List Nat) (isMain : Bool) :
    Keeps R (epilogue frameHole returns isMain) := by
  have filled := fill_keeps (R := R) frameHole fun s => Int32.ofNat ((s.frameUsed + 15) / 16 * 16)
  unfold epilogue
  grind

end Codes

/-! ## Initializers -/

section Parses

variable [R.Parses]

@[grind ←] instance designatorIndex_keeps : Keeps R designatorIndex := by
  unfold designatorIndex
  grind

@[grind ←] instance stringLength_keeps : Keeps R stringLength := by
  unfold stringLength
  grind

@[grind ←] instance (braced : Bool) : Keeps R (nextElement braced) := by
  unfold nextElement
  grind

@[grind ←] instance designatedMember_keeps (fields : List Field) : Keeps R (designatedMember fields) := by
  unfold designatedMember
  grind

variable {element : InitTarget → Int64 → CType → CompileM Unit}

section

variable (each : ∀ offset ty, Keeps R (element target offset ty))

include each

@[grind ←] theorem arrayElements_keeps (offset : Int64) (elem : CType) (length : Option UInt64) (braced : Bool) :
    Keeps R (arrayElements element target offset elem length braced) := by
  refine .bind .get fun s => ?_
  split
  · exact fail_keeps _
  · refine .loop (fun index => ?_) _
    grind

@[grind ←] theorem structMembers_keeps (offset : Int64) (id : StructId) (braced : Bool) :
    Keeps R (structMembers element target offset id braced) := by
  refine .bind .get fun s => ?_
  split
  · exact fail_keeps _
  · refine check_keeps fun _ => .loop (fun i => (atPunct_keeps _).bind fun closed => ?_) _
    split
    · exact .pure _
    · refine (atPunct_keeps _).bind fun atDesignator => ?_
      split
      · exact .pure _
      · extract_lets chosen
        have chosenKeeps : ∀ i, Keeps R (chosen i) := by
          intro i
          dsimp only [chosen]
          split
          · grind
          · exact (each _ _).bind fun _ => by grind
        clear_value chosen
        grind

variable (scalar : ∀ offset ty, Keeps R (scalarInitializer target offset ty))
  (text : ∀ offset elem length, Keeps R (stringInitializer target offset elem length))

include scalar text

@[grind ←] theorem initializerWith_keeps
    (offset : Int64) (ty : CType) : Keeps R (initializerWith element target offset ty) := by
  unfold initializerWith
  split
  · refine atString_keeps.bind fun isText => ?_
    split
    · exact text _ _ _
    · refine (accept_keeps _).bind fun _ => check_keeps fun _ => atString_keeps.bind fun isText => ?_
      extract_lets closed
      have closedKeeps : ∀ u, Keeps R (closed u) := fun _ => expect_keeps _
      split
      · exact (text _ _ _).bind fun _ => by grind
      · exact (arrayElements_keeps each _ _ _ _).bind closedKeeps
  · refine (accept_keeps _).bind fun braced => ?_
    split
    · exact (structMembers_keeps each _ _ _).bind fun _ => expect_keeps _
    · grind
  · grind

end

section

variable (scalar : ∀ offset ty, Keeps R (scalarInitializer target offset ty))
  (text : ∀ offset elem length, Keeps R (stringInitializer target offset elem length))

include scalar text

@[grind ←] theorem elementAt_keeps (depth : Nat) (offset : Int64) (ty : CType) :
    Keeps R (elementAt depth target offset ty) := by
  induction depth generalizing offset ty with
  | zero => exact .exhausted
  | succ depth ih =>
    unfold elementAt
    grind

theorem initializer_parts (offset : Int64) (ty : CType) : Keeps R (initializer target offset ty) := by
  unfold initializer
  grind

end

/-! ## Declarations -/

@[grind ←] instance (name : String) (ty : CType) : Keeps R (declareTypedef name ty) := by
  unfold declareTypedef
  grind

@[grind ←] instance declared_keeps (spec : Specifiers) : Keeps R (declared spec) := by
  unfold declared
  grind

end Parses

section Makes

variable [R.Makes]

@[grind ←] instance (name : String) (isCode : Bool) : Keeps R (namedSection name isCode) :=
  Makes.namedSection name isCode

@[grind ←] instance attributeSection?_keeps (attrs : Attributes) (isCode : Bool) :
    Keeps R (attributeSection? attrs isCode) := by
  unfold attributeSection?
  grind

@[grind ←] instance (d : Declared) : Keeps R (newFunction d) := by
  refine (attributeSection?_keeps _ _).bind fun sec => .bind .get fun s => ?_
  dsimp only
  split
  · exact pushGlobal_keeps _ rfl
  · exact declare_keeps _ rfl

@[grind ←] instance declareFunction_keeps (d : Declared) : Keeps R (declareFunction d) := by
  have redeclared id : Keeps R (modifyEntity id (redeclareFunction d)) :=
    modifyEntity_keeps id fun e => ⟨redeclareFunction_kept d e,rfl⟩
  unfold declareFunction
  grind

@[grind ←] instance bindObject_keeps (d : Declared) : Keeps R (bindObject d) := by
  have redeclared id : Keeps R (modifyEntity id (redeclareObject d)) :=
    modifyEntity_keeps id fun e => ⟨redeclareObject_kept d e,rfl⟩
  unfold bindObject
  grind

end Makes

section States

variable [R.States]

@[grind ←] instance (ty : CType) : Keeps R (completeArray ty) := States.completeArray ty

@[grind ←] instance localInitializer_keeps (offset : Int32) (ty : CType) : Keeps R (localInitializer offset ty) :=
  States.localInitializer offset ty

@[grind ←] theorem declareStatic_keeps (isGlobal : Bool) (object : d.type.isFunc = false)
    (full : d.type.isVoid = false) : Keeps R (declareStatic d isGlobal) :=
  States.declareStatic isGlobal object full

@[grind ←] instance (d : Declared) : Keeps R (declareLocal d) := by
  refine (lookup?_keeps d.name).bind fun found => ?_
  extract_lets fresh
  have freshKeeps : ∀ u, Keeps R (fresh u) := by
    refine fun _ => (accept_keeps _).bind fun hasInitializer => ?_
    extract_lets placed
    have placedKeeps : ∀ ty, Keeps R (placed ty) := by grind
    clear_value placed
    grind
  clear_value fresh
  grind

@[grind ←] theorem declareObject_keeps (d : Declared) (isGlobal : Bool) (object : d.type.isFunc = false) :
    Keeps R (declareObject d isGlobal) := by
  unfold declareObject
  grind

@[grind ←] instance (d : Declared) (isGlobal : Bool) : Keeps R (declareOne d isGlobal) := by
  unfold declareOne
  grind

@[grind ←] theorem declarators_keeps
    (inner : ∀ f ∈ body, ∀ d, d.type.isFunc = true → Keeps R (functionDefinition d f)) (spec : Specifiers) :
    Keeps R (declarators spec body) := by
  refine .loop (fun isFirst => (declared_keeps spec).bind fun d => ?_) _
  cases body with
  | none => grind
  | some f =>
    grind

@[grind ←] theorem declaration_keeps
    (inner : ∀ f ∈ body, ∀ d, d.type.isFunc = true → Keeps R (functionDefinition d f)) :
    Keeps R (declaration body) := by
  have each := declarators_keeps inner
  unfold declaration
  grind

instance blockDeclaration_keeps : Keeps R (declaration none) := declaration_keeps (by simp)

/-! ## Statements -/

@[grind ←] instance : Keeps R discarded := States.discarded

theorem conditionBranch_keeps (wanted : Bool) {f : Option Nat → CompileM Unit}
    (rest : ∀ hole, Keeps R (f hole)) : Keeps R (do condition; let hole ← branch wanted; f hole) := by
  rw [← bind_assoc]
  exact Keeps.bind (States.branchOn wanted) rest

@[grind ←] instance forCondition_keeps : Keeps R forCondition := States.forCondition

@[grind ←] instance switchValueSlot_keeps : Keeps R switchValueSlot := States.switchValueSlot

@[grind ←] instance (result : CType) : Keeps R (returnValue result) := States.returnValue result

@[grind ←] instance returnStatement_keeps : Keeps R returnStatement := by
  refine next_keeps.bind fun _ => .bind .get fun s => (atPunct_keeps _).bind fun missing => ?_
  extract_lets ends
  have endsKeeps : ∀ u, Keeps R (ends u) := fun _ => (expect_keeps _).bind fun _ => jump_keeps.bind fun hole =>
    .modify fun _ => .of_eq rfl rfl rfl rfl rfl rfl
  clear_value ends
  grind

@[grind ←] theorem inScope_keeps (inner : Keeps R act) : Keeps R (inScope act) := by
  have entered : Keeps R (modify fun s => { s with scope := { s.scope with depth := s.scope.depth + 1 } } :
      CompileM PUnit) :=
    .rescope fun _ => rfl
  refine entered.bind fun _ => .bind .get fun s => inner.bind fun _ => ?_
  refine .rescope
    fun t => ?_
  exact Scope.unbindAll_entities _ _

@[grind ←] instance forStart_keeps : Keeps R forStart := by
  have declares : Keeps R (declaration none) := blockDeclaration_keeps
  unfold forStart
  grind

@[grind ←] instance forStep_keeps (start : Nat) : Keeps R (forStep start) := by
  unfold forStep
  grind

/-! A statement leaves as many operands as it finds if the statements in it do. -/

variable {statement : CompileM Unit}

section

variable (inner : Keeps R statement)

include inner

@[grind ←] theorem blockItems_keeps : Keeps R (blockItems statement) := by
  have item : Keeps R (blockItem statement) := by
    unfold blockItem
    grind
  unfold blockItems
  grind

@[grind ←] theorem block_keeps : Keeps R (block statement) := by
  unfold block
  grind

@[grind ←] theorem functionBody_keeps : Keeps R (functionBody statement) := by
  unfold functionBody
  grind

@[grind ←] theorem ifStatement_keeps : Keeps R (ifStatement statement) := by
  refine next_keeps.bind fun _ => conditionBranch_keeps false fun toElse => ?_
  grind

@[grind ←] theorem collectBreaks_keeps : Keeps R (collectBreaks statement) := by
  unfold collectBreaks
  grind

@[grind ←] theorem loopBody_keeps : Keeps R (loopBody statement) := by
  unfold loopBody
  grind

@[grind ←] theorem whileStatement_keeps : Keeps R (whileStatement statement) := by
  refine next_keeps.bind fun _ => position_keeps.bind fun start => conditionBranch_keeps false fun exit => ?_
  grind

@[grind ←] theorem doStatement_keeps : Keeps R (doStatement statement) := by
  refine next_keeps.bind fun _ => position_keeps.bind fun start => (loopBody_keeps inner).bind fun jumps => ?_
  have ends : Keeps R (do
      patchHere jumps.2
      condition
      let again ← branch true
      patchAll start again.toList
      patchHere jumps.1
      expect .semicolon) :=
    (patchHere_keeps _).bind fun _ => conditionBranch_keeps true fun again => by grind
  grind

@[grind ←] theorem forStatement_keeps : Keeps R (forStatement statement) := by
  have body : Keeps R (forLoop statement) := by
    refine forStart_keeps.bind fun _ => position_keeps.bind fun start => forCondition_keeps.bind fun exit => ?_
    refine (expect_keeps _).bind fun _ => (forStep_keeps start).bind fun step => (expect_keeps _).bind fun _ => ?_
    grind
  unfold forStatement
  grind

@[grind ←] theorem switchStatement_keeps : Keeps R (switchStatement statement) := by
  refine next_keeps.bind fun _ => switchValueSlot_keeps.bind fun value => jump_keeps.bind fun toDispatch => ?_
  refine .bind (.modify fun _ => .of_eq rfl rfl rfl rfl rfl rfl) fun _ => (collectBreaks_keeps inner).bind fun breaks => ?_
  refine .bind (.modifyGet fun _ => .of_eq rfl rfl rfl rfl rfl rfl) fun sw => ?_
  grind

@[grind ←] theorem labeled_keeps : Keeps R (labeled statement) := by
  unfold labeled
  grind

@[grind ←] theorem caseLabel_keeps : Keeps R (caseLabel statement) := by
  refine next_keeps.bind fun _ => .bind .get fun s => ?_
  split
  · exact fail_keeps _
  · refine constant_keeps.bind fun low => (accept_keeps _).bind fun isRange => ?_
    extract_lets low ranged
    have rangedKeeps : ∀ high, Keeps R (ranged high) := by
      refine fun high => (expect_keeps _).bind fun _ => ?_
      extract_lets unsigned placed
      have placedKeeps : ∀ u, Keeps R (placed u) := fun _ => check_keeps fun _ => by grind
      clear_value placed
      grind
    clear_value ranged
    grind

@[grind ←] theorem defaultLabel_keeps : Keeps R (defaultLabel statement) := by
  refine next_keeps.bind fun _ => (expect_keeps _).bind fun _ => .bind .get fun s => ?_
  split
  · exact fail_keeps _
  · exact check_keeps fun _ => by grind

@[grind ←] theorem expressionStatement_keeps : Keeps R (expressionStatement statement) := by
  have label name : Keeps R (labelStatement name statement) := by
    refine (labelOf_keeps name).bind fun id => position_keeps.bind fun here => (entity_keeps id).bind fun e => ?_
    split
    · exact .bind (modifyEntity_keeps id fun _ => ⟨.of_eq rfl rfl rfl rfl rfl rfl,rfl⟩) fun _ => by grind
    · exact fail_keeps _
  unfold expressionStatement
  grind

theorem statementWith_keeps : Keeps R (statementWith statement) := by
  refine keyword?_keeps.bind fun word => ?_
  split
  · exact ifStatement_keeps inner
  · exact whileStatement_keeps inner
  · exact doStatement_keeps inner
  · exact forStatement_keeps inner
  · exact switchStatement_keeps inner
  · exact caseLabel_keeps inner
  · exact defaultLabel_keeps inner
  · exact breakStatement_keeps
  · exact continueStatement_keeps
  · exact returnStatement_keeps
  · exact gotoStatement_keeps
  · exact fail_keeps _
  · grind

end

theorem statementAt_keeps (depth : Nat) : Keeps R (statementAt depth) := by
  induction depth with
  | zero => exact .exhausted
  | succ depth ih => exact statementWith_keeps ih

@[grind ←] instance statement_keeps : Keeps R Compile.statement :=
  .bind .read fun _ => statementAt_keeps _

@[grind ←] instance (params : List (CType × Option String)) (frameHole : Nat)
    (isMain : Bool) : Keeps R (functionCode params frameHole isMain) := by
  unfold functionCode
  grind

end States
end Compile
end OnePass
