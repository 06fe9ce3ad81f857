import OnePass.Proofs.Course

/-! # Code generation goes by steps -/
namespace OnePass

open List Proceeds

variable {id : EntityId}
namespace Compile

open Elf

@[grind ←] instance solve_proceeds (g : Goal) : Proceeds known (solve g) :=
  ⟨fun _ steady s rests => steady g s rests.forget⟩

@[grind ←] instance expression_proceeds : Proceeds known expression := solve_proceeds _

@[grind ←] instance : Proceeds known assignment := solve_proceeds _

@[grind ←] instance conditional_proceeds : Proceeds known conditional := solve_proceeds _

@[grind ←] instance (least : Nat) : Proceeds known (binaryFrom least) := solve_proceeds (.binary least)

@[grind ←] instance : Proceeds known castExpression := solve_proceeds _

@[grind ←] instance : Proceeds known unaryExpression := solve_proceeds _

@[grind ←] theorem withoutCode_proceeds (proceeds : Proceeds known act) : Proceeds known (withoutCode act) :=
  .bind .get fun _ => .bind (modify fun _ => .of_eq rfl rfl) fun _ =>
    proceeds.finishing (fun _ => .of_eq rfl rfl) fun _ => rfl

@[grind ←] theorem withoutData_proceeds (proceeds : Proceeds known act) : Proceeds known (withoutData act) :=
  .bind .get fun _ => .bind (modify fun _ => .of_eq rfl rfl) fun _ =>
    (withoutCode_proceeds proceeds).finishing (fun _ => .of_eq rfl rfl) fun _ => rfl

/-! ## Symbols and storage -/

@[grind ←] theorem bind_proceeds (lasts : id ∈ known.entities) (index : UInt16) (value size : UInt64) :
    Proceeds known (bind id index value size) := by
  refine ⟨fun env _ s rests => ?_⟩
  rw [bind,run_bind]
  rcases bind?_cases id index value size env s with
    ⟨bound,run⟩ | ⟨unbound,symbol,arena,added,run⟩ | ⟨unbound,twice,run⟩
  · rw [run]
    exact .single (.redefine bound index value size)
  · rw [run]
    exact .single (.define (rests.entities id lasts) unbound added)
  · rw [run]
    exact fail_arrives _ env s

@[grind ←] instance symbolOf_proceeds (id : EntityId) : Proceeds known (symbolOf id) := by
  refine ⟨fun env _ s _ => ?_⟩
  have noted : Step s { s with scope := s.scope.update id fun e => { e with flags := { e.flags with used := true } } } :=
    .declare (.update (.of_eq rfl rfl rfl rfl rfl rfl) rfl)
  obtain ⟨t,run,same | ⟨symbol,arena,unbound,added,same⟩⟩ := symbolOf_run id env s
  · rw [run,same]
    exact .single noted
  · rw [run,same]
    exact .tail (.single noted) (.refer unbound added)

@[grind ←] theorem allocStatic_proceeds (claimed : sec ∈ known.sections) (size align : UInt64) :
    Proceeds known (allocStatic sec size align) := by
  refine .bind (change fun s rests => .align (rests.sections sec claimed) _) fun _ => ?_
  refine get_bind fun env steady s rests => ?_
  cases room : (s.arena.get sec).grow? size.toNat with
  | none => exact fail_arrives _ env s
  | some result =>
    exact .single (.grow (rests.sections sec claimed) room)

@[grind ←] theorem writeSection_proceeds (claimed : sec ∈ known.sections) (offset : Nat)
    (bytes : Bytes) : Proceeds known (writeSection sec offset bytes) :=
  .change fun _ rests => .patch (rests.sections sec claimed) offset bytes

/-! ## Instructions and jumps -/

instance : (Theory.course known).Codes where
  emit instr := change fun s _ => .emit s instr
  fill hole _ := change fun s _ => .fill s hole _

@[grind ←] instance (code : List X86.Instr) : Proceeds known (code.forM emit) := .forM emit_keeps code

@[grind ←] instance (reg : X86.Reg) : Proceeds known (pushRegister reg) := by
  unfold pushRegister
  grind

@[grind ←] instance popRegister_proceeds (reg : X86.Reg) : Proceeds known (popRegister reg) := by
  unfold popRegister
  grind

/-! ## Operands -/

@[grind ←] instance push_proceeds (v : Value) : Proceeds known (push v) := by
  unfold push
  grind

@[grind ←] instance pushConst_proceeds (type : CType) (value : Int64) : Proceeds known (pushConst type value) := by
  unfold pushConst
  grind

@[grind ←] instance top_proceeds : Proceeds known top := by
  unfold top
  grind

@[grind ←] instance second_proceeds : Proceeds known second := by
  unfold second
  grind

@[grind ←] instance modifyTop_proceeds (f : Value → Value) : Proceeds known (modifyTop f) := by
  unfold modifyTop
  grind

@[grind ←] instance modifySecond_proceeds (f : Value → Value) : Proceeds known (modifySecond f) := by
  unfold modifySecond
  grind

@[grind ←] instance forget_proceeds (count : Nat) : Proceeds known (forget count) := by
  unfold forget
  grind

@[grind ←] instance replace_proceeds (count : Nat) (v : Value) : Proceeds known (replace count v) := by
  unfold replace
  grind

@[grind ←] instance pop_proceeds : Proceeds known pop := by
  unfold pop
  grind

@[grind ←] instance dup_proceeds : Proceeds known dup := by
  unfold dup
  grind

@[grind ←] instance rvalue_proceeds : Proceeds known rvalue := by
  unfold rvalue
  grind

@[grind ←] instance (keep : Nat) : Proceeds known (spillBelow keep) := by
  unfold spillBelow
  grind

@[grind ←] instance spill_proceeds : Proceeds known spill := by
  unfold spill
  grind

@[grind ←] instance (dst : X86.Reg) (id : EntityId) (addend : Int64) : Proceeds known (loadSymbol dst id addend) := by
  unfold loadSymbol
  grind

@[grind ←] instance (place : Place) : Proceeds known (objectMem place) := by
  unfold objectMem
  grind

@[grind ←] instance loadAddress_proceeds (dst : X86.Reg) (a : Place) : Proceeds known (loadAddress dst a) := by
  unfold loadAddress
  grind

@[grind ←] instance (dst : X86.Reg) (v : Value) : Proceeds known (loadTo dst v) := by
  unfold loadTo
  grind

@[grind ←] instance load_proceeds : Proceeds known load := by
  unfold load
  grind

@[grind ←] instance : Proceeds known loadBoth := by
  unfold loadBoth
  grind

@[grind ←] instance stabilize_proceeds : Proceeds known stabilize := by
  unfold stabilize
  grind

/-! ## Operators -/

@[grind ←] instance (target : CType) : Proceeds known (castScalar target) := by
  unfold castScalar
  grind

@[grind ←] instance castTo_proceeds (target : CType) : Proceeds known (castTo target) := by
  unfold castTo
  grind

@[grind ←] instance (o : IntegerOp) : Proceeds known (integerOp o) := by
  refine second_proceeds.bind fun _ => top_proceeds.bind fun _ => (modifySecond_proceeds _).bind fun _ => ?_
  refine (modifyTop_proceeds _).bind fun _ => second_proceeds.bind fun left => top_proceeds.bind fun right => ?_
  split
  · exact replace_proceeds _ _
  · extract_lets _ operated converted
    have operatedProceeds : ∀ u, Proceeds known (operated u) := by grind
    have convertedProceeds : ∀ u, Proceeds known (converted u) := by
      clear_value operated
      grind
    grind

@[grind ←] instance (op : BinaryOp) : Proceeds known (binary op) := by
  refine (modifyTop_proceeds _).bind fun _ => (modifySecond_proceeds _).bind fun _ => ?_
  refine second_proceeds.bind fun left => top_proceeds.bind fun right => ?_
  grind

@[grind ←] instance : Proceeds known logicalNot := by
  unfold logicalNot
  grind

@[grind ←] instance (op : UnaryOp) : Proceeds known (unary op) := by
  unfold unary
  grind

@[grind ←] instance (type : CType) (size : UInt64) : Proceeds known (storeStruct type size) := by
  unfold storeStruct
  grind

@[grind ←] instance : Proceeds known store := by
  unfold store
  grind

@[grind ←] instance (up : Bool) : Proceeds known (postIncrement up) := by
  refine top_proceeds.bind fun v => ?_
  extract_lets moved
  have movedProceeds : ∀ step, Proceeds known (moved step) := by
    refine fun step => stabilize_proceeds.bind fun _ => dup_proceeds.bind fun _ => load_proceeds.bind fun _ => ?_
    refine second_proceeds.bind fun target => ?_
    grind
  clear_value moved
  grind

@[grind ←] instance (up : Bool) : Proceeds known (preIncrement up) := by
  unfold preIncrement
  grind

@[grind ←] instance (field : Field) : Proceeds known (member field) := by
  unfold member
  grind

@[grind ←] instance : Proceeds known deref := by
  unfold deref
  grind

@[grind ←] instance : Proceeds known addressOf := by
  unfold addressOf
  grind

@[grind ←] instance (target : CType) : Proceeds known (convertTo target) := by
  unfold convertTo
  grind

@[grind ←] instance branch_proceeds (wanted : Bool) : Proceeds known (branch wanted) := by
  unfold branch
  grind

@[grind ←] instance (jumps : List Nat) (reached : Bool) : Proceeds known (truthOf jumps reached) := by
  unfold truthOf
  grind

/-! ## Calls and functions -/

@[grind ←] instance (callee : Callee) : Proceeds known (transfer callee) := by
  unfold transfer
  grind

@[grind ←] instance (callee : Callee) (args : Nat) (result : CType) : Proceeds known (call callee args result) := by
  have deeper : Proceeds known (modify fun s => if s.noCode then s
      else { s with stackDepth := s.stackDepth - (8 * (args + callee.pushed) : Nat) } : CompileM PUnit) := by
    refine .modify fun s => ?_
    split <;> exact .of_eq rfl rfl
  unfold call
  grind

@[grind ←] instance pushArgument_proceeds : Proceeds known pushArgument := by
  unfold pushArgument
  grind

@[grind ←] instance prologue_proceeds : Proceeds known prologue := by
  unfold prologue
  grind

@[grind ←] instance (offset : Int32) (size : UInt64) : Proceeds known (zeroLocal offset size) := by
  unfold zeroLocal
  grind

@[grind ←] instance (offset : Int32) (bytes : Bytes) : Proceeds known (storeBytes offset bytes) := by
  unfold storeBytes
  grind

/-! ## Constants -/

instance : (Theory.course known).Makes where
  specifiers := solve_proceeds _
  declarator attrs := solve_proceeds (.declarator attrs)
  typeOfExpression := by
    unfold typeOfExpression
    grind
  constant := by
    refine .bind (withoutData_proceeds ?_) fun v => ?_ <;> grind
  namedSection name isCode := by
    refine ⟨fun env _ s _ => ?_⟩
    simp only [namedSection,run_modifyGet]
    split
    · exact .refl
    · exact .single (.make s name _)

end Compile
end OnePass
