import OnePass.Proofs.CourseCode

/-! # The grammar goes by steps

Entities are declared without symbols. What is placed lasts, and the sections that are written to are those that
data goes to by default and those that lasting entities ask for. -/
namespace OnePass

open Elf Proceeds Compiler

namespace Proceeds

theorem get_roots (second : ∀ s, Proceeds { known with sections := s.roots ++ known.sections } (f s)) :
    Proceeds known (MonadState.get >>= f) := by
  refine .bind_gain .get (fun s => { known with sections := s.roots ++ known.sections }) ?_ second
  intro env s t u rests run
  cases run
  refine ⟨rests.text,rests.deferred,fun sec member => ?_,rests.entities⟩
  rcases List.mem_append.mp member with root | old
  · exact .inl root
  · exact rests.sections sec old

theorem entity_asks {id : EntityId} {f : Entity → CompileM β} (lasts : id ∈ known.entities)
    (second : ∀ e : Entity, e.Lasting → Proceeds { known with sections := e.section_.toList ++ known.sections } (f e)) :
    Proceeds known (Compile.entity id >>= f) := by
  refine ⟨fun env steady s rests => ?_⟩
  have entity := rests.entities id lasts
  refine (second (s.scope.get id) entity.2).run env steady s ⟨rests.text,rests.deferred,fun sec member => ?_,
    rests.entities⟩
  rcases List.mem_append.mp member with asked | old
  · exact .inr ⟨id,entity,Option.mem_toList.mp asked⟩
  · exact rests.sections sec old

theorem bind_lasts (first : Proceeds known x) (lasts : ∀ env s id t, x env s = .ok id t → t.Lasts id)
    (second : ∀ id, Proceeds { known with entities := id :: known.entities } (f id)) : Proceeds known (x >>= f) := by
  refine first.bind_gain (fun id => { known with entities := id :: known.entities }) ?_ second
  exact fun env s id t rests run => rests.lasting (lasts env s id t run)

end Proceeds

theorem getD_mem_toList {α : Type} (asked : Option α) (other : α) : asked.getD other ∈ asked.toList ++ [other] := by
  cases asked <;> simp

namespace Compile

/-! ## Primary and postfix expressions -/

@[grind ←] instance (spelling : String) : Proceeds known (number spelling) := by
  unfold number
  grind

@[grind ←] instance (spelling : Bytes) : Proceeds known (characterConstant spelling) := by
  unfold characterConstant
  grind

@[grind ←] instance (units : List UInt32) (elem : CType) : Proceeds known (pushString units elem) := by
  refine .bind .get fun s => ?_
  split
  · exact push_proceeds _
  · refine freshName_keeps.bind fun name => bind_lasts
      (.changeGet fun s _ => .declare (.alloc s.scope rfl)) ?_ ?_
    · intro env s id t run
      cases run
      refine ⟨?_,.inl ?_⟩
      · simp
      · simp [Scope.get]
    · refine fun id => .get_roots fun s => (allocStatic_proceeds (by simp [roots]) _ _).bind fun offset => ?_
      refine (writeSection_proceeds (by simp [roots]) _ _).bind fun _ => (sectionIndex_keeps _).bind fun _ => ?_
      exact (bind_proceeds (by simp) _ _ _).bind fun _ => push_proceeds _

@[grind ←] instance : Proceeds known constChar := by
  unfold constChar
  grind

@[grind ←] instance : Proceeds known stringExpression := by
  unfold stringExpression
  grind

@[grind ←] instance : Proceeds known functionNameString := by
  unfold functionNameString
  grind

@[grind ←] instance (name : String) (id : EntityId) : Proceeds known (pushEntity name id) := by
  refine (entity_keeps id).bind fun e => ?_
  cases e.storage with
  | enumConst value => exact pushConst_proceeds _ _
  | frame offset | «global» => exact push_proceeds _
  | _ => exact fail_keeps _

@[grind ←] instance (name : String) : Proceeds known (identifier name) := by
  unfold identifier
  grind

@[grind ←] instance : Proceeds known primary := by
  unfold primary
  grind

@[grind ←] instance : Proceeds known memberAccess := by
  unfold memberAccess
  grind

@[grind ←] instance (params : List CType) (info : FuncInfo) (index : Nat) :
    Proceeds known (convertArgument params info index) := by
  unfold convertArgument
  grind

@[grind ←] instance (params : List CType) (info : FuncInfo) : Proceeds known (arguments params info) := by
  unfold arguments
  grind

@[grind ←] instance (v : Value) : Proceeds known (takeCallee v) := by
  unfold takeCallee
  split
  · exact pop_proceeds.bind fun _ => spill_proceeds.bind fun _ => .pure _
  · exact pushArgument_proceeds.bind fun _ => .pure _

@[grind ←] instance : Proceeds known callExpression := by
  unfold callExpression
  grind

@[grind ←] instance : Proceeds known postfixOperator := by
  refine token_keeps.bind fun tok => ?_
  grind

@[grind ←] instance : Proceeds known postfixExpression := by
  unfold postfixExpression
  grind

/-! ## Operators -/

@[grind ←] instance [Proceeds known act] : Proceeds known (nested act) := by
  unfold nested
  grind

@[grind ←] instance : Proceeds known sizeOperand := by
  unfold sizeOperand
  grind

@[grind ←] instance (isSize : Bool) : Proceeds known (sizeExpression isSize) := by
  unfold sizeExpression
  grind

@[grind ←] instance [Proceeds known act] : Proceeds known (onOperand act) := by
  unfold onOperand
  grind

@[grind ←] instance : Proceeds known unaryPlus := by
  unfold unaryPlus
  grind

@[grind ←] instance (up : Bool) : Proceeds known (incrementExpression up) := by
  unfold incrementExpression
  grind

@[grind ←] instance readUnary_proceeds : Proceeds known readUnary := by
  unfold readUnary
  grind

@[grind ←] instance : Proceeds known castOrUnary := by
  unfold castOrUnary
  grind

@[grind ←] instance readCast_proceeds : Proceeds known readCast := by
  unfold readCast
  grind

@[grind ←] instance readBinary_proceeds (least : Nat) : Proceeds known (readBinary least) := by
  refine readCast_proceeds.bind fun _ => Keeps.while_ (token_keeps.bind fun tok => ?_)
  grind

@[grind ←] instance (isAnd : Bool) (c : Chain) : Proceeds known (takeIntoChain isAnd c) := by
  unfold takeIntoChain
  grind

@[grind ←] instance (isAnd : Bool) (c : Chain) : Proceeds known (finishChain isAnd c) := by
  unfold finishChain
  grind

@[grind ←] instance (isAnd : Bool) [Proceeds known operand] :
    Proceeds known (shortCircuit isAnd operand) := by
  unfold shortCircuit
  grind

@[grind ←] instance : Proceeds known logicalAnd := by
  unfold logicalAnd
  grind

@[grind ←] instance : Proceeds known logicalOr := by
  unfold logicalOr
  grind

@[grind ←] instance [Proceeds known operand] : Proceeds known (typeOfOperand operand) := by
  unfold typeOfOperand
  grind

@[grind ←] instance (ty : CType) : Proceeds known (castOperandTo ty) := by
  unfold castOperandTo
  grind

@[grind ←] instance (truth : Bool) : Proceeds known (decidedConditional truth) := by
  unfold decidedConditional
  grind

@[grind ←] instance settle_proceeds (ty : CType) : Proceeds known (settle ty) := by
  unfold settle
  grind

@[grind ←] instance : Proceeds known openConditional := by
  refine (branch_proceeds _).bind fun toElse => expression_proceeds.bind fun _ => rvalue_proceeds.bind fun _ => ?_
  refine top_proceeds.bind fun v => ?_
  extract_lets joined
  have joinedProceeds : ∀ u, Proceeds known (joined u) := by
    refine fun _ => top_proceeds.bind fun first => (forget_proceeds _).bind fun _ => jump_keeps.bind fun toFirst => ?_
    refine (expect_keeps _).bind fun _ => (patchHere_keeps _).bind fun _ => conditional_proceeds.bind fun _ => ?_
    refine rvalue_proceeds.bind fun _ => top_proceeds.bind fun v => (conditionalType_keeps _ _).bind fun ty => ?_
    split
    · grind
    · refine (settle_proceeds _).bind fun _ => jump_keeps.bind fun done => (patchHere_keeps _).bind fun _ => ?_
      grind
  clear_value joined
  grind

@[grind ←] instance readConditional_proceeds : Proceeds known readConditional := by
  unfold readConditional
  grind

@[grind ←] instance readAssignment_proceeds : Proceeds known readAssignment := by
  refine readConditional_proceeds.bind fun _ => token_keeps.bind fun tok => ?_
  split
  · exact .pure _
  · refine next_keeps.bind fun _ => top_proceeds.bind fun target => ?_
    grind

@[grind ←] instance readExpression_proceeds : Proceeds known readExpression := by
  unfold readExpression
  grind

@[grind ←] instance readGoal_proceeds (g : Goal) : Proceeds known (readGoal g) := by
  cases g with
  | expression => exact readExpression_proceeds
  | assignment => exact readAssignment_proceeds
  | conditional => exact readConditional_proceeds
  | binary least => exact readBinary_proceeds least
  | cast => exact readCast_proceeds
  | unary => exact readUnary_proceeds
  | specifiers => exact readSpecifiers_keeps
  | declarator attrs => exact readDeclarator_keeps attrs

/-! ## Initializers -/

@[grind ←] instance : Proceeds known countList := by
  refine .bind (Keeps.loop (fun state => (atPunct_keeps _).bind fun closed => ?_) _) fun count => ?_
  · extract_lets counted
    have countedProceeds : ∀ n, Proceeds known (counted n) := by grind
    clear_value counted
    grind
  · grind

@[grind ←] instance (elem : CType) : Proceeds known (countElements elem) := by
  unfold countElements
  grind

@[grind ←] instance completeArray_proceeds (ty : CType) : Proceeds known (completeArray ty) := by
  unfold completeArray
  grind

theorem writeStatic_proceeds (claimed : sec ∈ known.sections) (offset : UInt64) (ty : CType)
    (v : Value) : Proceeds known (writeStatic sec offset ty v) := by
  unfold writeStatic
  split
  · exact writeSection_proceeds claimed _ _
  · refine check_keeps fun _ => (symbolOf_proceeds _).bind fun symbol => change fun s rests => ?_
    exact .relocate (rests.sections sec claimed) _
  · exact fail_keeps _

def InitTarget.Claimed (known : Known) : InitTarget → Prop
  | .static sec => sec ∈ known.sections
  | .frame => True

theorem scalarInitializer_proceeds (claimed : InitTarget.Claimed known target)
    (offset : Int64) (ty : CType) : Proceeds known (scalarInitializer target offset ty) := by
  unfold scalarInitializer
  cases target with
  | «static» sec =>
    refine .bind (withoutCode_proceeds ?_) fun v => writeStatic_proceeds claimed _ _ _
    grind
  | frame => grind

theorem stringInitializer_proceeds (claimed : InitTarget.Claimed known target)
    (offset : Int64) (elem : CType) (length : Option UInt64) :
    Proceeds known (stringInitializer target offset elem length) := by
  unfold stringInitializer
  cases target with
  | «static» sec =>
    have stored bytes : Proceeds known (writeSection sec offset.toUInt64.toNat bytes) :=
      writeSection_proceeds claimed _ _
    grind
  | frame => grind

theorem initializer_proceeds (claimed : InitTarget.Claimed known target)
    (offset : Int64) (ty : CType) : Proceeds known (initializer target offset ty) :=
  initializer_parts (scalarInitializer_proceeds claimed) (stringInitializer_proceeds claimed) offset ty

/-! ## Declarations -/

section Objects

variable {id : EntityId}

theorem allocTentative_proceeds (lasts : id ∈ known.entities) (size align : UInt64) :
    Proceeds known (allocTentative id size align) := by
  refine .entity_asks lasts fun e _ => settings_keeps.bind fun settings => ?_
  split
  · exact bind_proceeds (by exact lasts) _ _ _
  · refine get_roots fun s => ?_
    have claimed : e.section_.getD s.arena.bss ∈ s.roots ++ (e.section_.toList ++ known.sections) := by
      have := getD_mem_toList e.section_ s.arena.bss
      grind [roots]
    refine (allocStatic_proceeds claimed _ _).bind fun offset => (sectionIndex_keeps _).bind fun index => ?_
    exact bind_proceeds (by exact lasts) _ _ _

theorem defineInitialized_proceeds (lasts : id ∈ known.entities) : Proceeds known (defineInitialized id) := by
  refine .entity_asks lasts fun e lasting => ?_
  refine check_keeps fun _ => (completeArray_proceeds _).bind fun ty => (extentOr_keeps _ _).bind fun extent => ?_
  refine get_roots fun s => check_keeps fun _ => ?_
  have claimed : e.section_.getD s.arena.data ∈ s.roots ++ (e.section_.toList ++ known.sections) := by
    have := getD_mem_toList e.section_ s.arena.data
    grind [roots]
  refine (allocStatic_proceeds claimed _ _).bind fun offset => ?_
  refine .bind (modifyEntity_keeps id fun _ => ⟨⟨rfl,fun _ => ⟨rfl,rfl⟩,fun _ => ⟨rfl,.inl rfl⟩⟩,rfl⟩) fun _ => ?_
  refine (sectionIndex_keeps _).bind fun index => .bind (bind_proceeds (by exact lasts) _ _ _) fun _ => ?_
  exact initializer_proceeds (by exact claimed) _ _

theorem defineTentative_proceeds (lasts : id ∈ known.entities) : Proceeds known (defineTentative id) := by
  refine .entity_asks lasts fun e lasting => ?_
  -- An object of unknown length becomes an array of one element, and no object becomes a function.
  have placed {ty : CType} (object : ty.isFunc = false) sections : Proceeds { known with sections } (do
      let extent ← extentOr .unknownSize ty
      modifyEntity id fun e => { e with type := ty, flags := { e.flags with tentative := true } }
      allocTentative id extent.size (max extent.align e.align)) := by
    refine (extentOr_keeps _ _).bind fun extent => ?_
    refine .bind (modifyEntity_keeps id fun _ => ⟨⟨rfl,fun _ => ⟨rfl,rfl⟩,fun _ => ⟨rfl,.inr object⟩⟩,rfl⟩) fun _ => ?_
    exact allocTentative_proceeds (by exact lasts) _ _
  split
  · exact .pure _
  · next undefined =>
    have object : e.type.isFunc = false := lasting.resolve_left undefined
    dsimp only
    split
    · grind
    · split
      · exact (warn_keeps _).bind fun _ => placed rfl _
      · exact placed object _

end Objects

theorem declareStatic_proceeds (isGlobal : Bool) (object : d.type.isFunc = false)
    (full : d.type.isVoid = false) : Proceeds known (declareStatic d isGlobal) := by
  refine .bind_lasts (bindObject_keeps d) (fun _ _ _ _ run => ⟨bindObject_inside full run,bindObject_lasting object run⟩)
    fun id => ?_
  have initialized : Proceeds { known with entities := id :: known.entities } (defineInitialized id) :=
    defineInitialized_proceeds List.mem_cons_self
  have tentative : Proceeds { known with entities := id :: known.entities } (defineTentative id) :=
    defineTentative_proceeds List.mem_cons_self
  grind

@[grind ←] instance condition_proceeds : Proceeds known condition := by
  unfold condition
  grind

instance : (Theory.course known).States where
  completeArray := completeArray_proceeds
  localInitializer offset ty := by
    have filled : Proceeds known (initializer .frame offset.toInt64 ty) :=
      initializer_proceeds (show InitTarget.Claimed known .frame from trivial) _ _
    unfold localInitializer
    grind
  declareStatic := declareStatic_proceeds
  discarded := by
    unfold discarded
    grind
  branchOn wanted := condition_proceeds.bind fun _ => branch_proceeds wanted
  forCondition := by
    unfold forCondition
    grind
  switchValueSlot := by
    refine condition_proceeds.bind fun _ => rvalue_proceeds.bind fun _ => top_proceeds.bind fun v => ?_
    grind
  returnValue result := by
    unfold returnValue
    grind

end Compile
end OnePass
