import OnePass.Proofs.OperandsExpression

/-! # Declarations, statements and units

Initializers, declarations and statements leave as many operands as they find. At file scope there are
none, and an external declaration leaves none. -/
namespace OnePass

/-- A relation that holds of everything that leaves as many operands as it finds. -/
class Covers (R : Compiler → Compiler → Prop) : Prop extends Wide R where
  balanced : ∀ {s t : Compiler}, Balanced s t → R s t

instance : Covers Balanced where
  balanced h := h

/-- No operand, and nothing on the machine stack. -/
structure Compiler.AtRest (s : Compiler) : Prop where
  values : s.values = []
  stackDepth : s.stackDepth = 0

/-- What happens at file scope. -/
structure Settled (s s' : Compiler) : Prop where
  noCode : s'.noCode = s.noCode
  noData : s'.noData = s.noData
  rest : s.AtRest → s'.AtRest
  develops : s.arena.Develops s'.arena

theorem Balanced.empty (balanced : Balanced s t) (empty : s.values = []) :
    t.values = [] ∧ t.stackDepth = s.stackDepth := by
  have height := balanced.height
  rw [empty,List.length_nil,List.length_eq_zero_iff] at height
  have outgoing := balanced.outgoing
  simp only [Compiler.outgoing,Compiler.spilled,empty,height,List.countP_nil] at outgoing
  exact ⟨height,by omega⟩

theorem Balanced.settled (balanced : Balanced s t) : Settled s t :=
  { balanced with
    rest atRest := by
      obtain ⟨values,depth⟩ := balanced.empty atRest.values
      exact ⟨values,depth.trans atRest.stackDepth⟩ }

theorem Settled.trans (first : Settled s t) (second : Settled t u) : Settled s u where
  noCode := second.noCode.trans first.noCode
  noData := second.noData.trans first.noData
  rest := second.rest ∘ first.rest
  develops := first.develops.trans second.develops

instance : Covers Settled where
  referring h := h.same.balanced.settled
  same h := h.balanced.settled
  trans := .trans
  stores h := h.balanced.settled
  balanced := Balanced.settled

namespace Compile

/-! ## Initializers -/

theorem countList_uses : Uses 0 0 countList := by
  refine .next (.loop (fun position => .after (atPunct_keeps _) fun closed => ?_) _) fun _ => ?_
  · split
    · exact .pure
    · refine .after (accept_keeps _) fun _ => ?_
      extract_lets counted
      have countedUses : ∀ index, Uses 0 0 (counted index) := by
        refine fun index => .after (atPunct_keeps _) fun braced => ?_
        extract_lets next count further
        have furtherUses : ∀ u, Uses 0 0 (further u) := fun _ => .of_same (by grind)
        clear_value further
        split
        · exact .after (readGroup_keeps _ _) fun _ => furtherUses _
        · exact assignment_uses.next fun _ => pop_uses.next furtherUses
      split
      · exact .after designatorIndex_keeps countedUses
      · exact .after (.pure _) countedUses
  · exact .after (expect_keeps _) fun _ => .pure

theorem countElements_uses (elem : CType) : Uses 0 0 (countElements elem) := by
  refine .after atString_keeps fun _ => ?_
  split
  · exact .of_same stringLength_keeps
  · refine .after (accept_keeps _) fun _ => .check fun _ => .after atString_keeps fun _ => ?_
    split
    · exact .of_same (by grind)
    · exact countList_uses

@[grind ←] instance completeArray_keeps [Follows R] (ty : CType) : Keeps R (completeArray ty) := by
  unfold completeArray
  split
  · next elem _ =>
    have counted : Keeps R (withoutData (countElements elem)) := withoutData_keeps (countElements_uses elem)
    grind
  · exact .pure _

instance [Wide R] : Theory.Makes R where
  namedSection := namedSection_keeps

section Covers

variable [Covers R]

theorem covered (uses : Uses 0 0 x) : Keeps R x :=
  uses.balanced.mono fun _ _ => Covers.balanced

theorem writeStatic_keeps (sec : Elf.SectionId) (offset : UInt64) (ty : CType) (v : Value) :
    Keeps R (writeStatic sec offset ty v) := by
  unfold writeStatic
  split
  · exact writeSection_keeps sec _ _
  · exact check_keeps fun _ => (symbolOf_keeps _).bind fun _ => store_keeps fun _ => .relocate .refl sec _
  · exact fail_keeps _

@[grind ←] instance (offset : Int32) (bytes : Bytes) : Keeps R (storeBytes offset bytes) :=
  covered (spill_uses.next fun _ => .of_same (.forM emit_keeps _))

@[grind ←] instance (offset : Int32) (size : UInt64) : Keeps R (zeroLocal offset size) :=
  covered (spill_uses.next fun _ => .of_same (by grind))

/-- A static object takes the value that its initializer folds to; an object in the frame is assigned to. -/
theorem scalarInitializer_keeps (target : InitTarget) (offset : Int64) (ty : CType) :
    Keeps R (scalarInitializer target offset ty) := by
  unfold scalarInitializer
  split
  · refine .bind (withoutCode_keeps (assignment_uses.next fun _ => ?_)) fun v => writeStatic_keeps _ _ ty v
    exact (convertTo_uses ty).next fun _ => dropped_uses
  · refine covered ((push_uses rfl).next fun _ => .bind 1 assignment_uses fun _ => ?_)
    split
    · exact .bind 1 (convertTo_uses ty) fun _ => store_uses.next fun _ => pop_uses
    · exact store_uses.next fun _ => pop_uses

theorem stringInitializer_keeps (target : InitTarget) (offset : Int64) (elem : CType)
    (length : Option UInt64) : Keeps R (stringInitializer target offset elem length) := by
  unfold stringInitializer
  grind

instance initializer_keeps (target : InitTarget) (offset : Int64) (ty : CType) :
    Keeps Balanced (initializer target offset ty) :=
  initializer_parts (scalarInitializer_keeps target) (stringInitializer_keeps target) offset ty

@[grind ←] instance (target : InitTarget) (offset : Int64) (ty : CType) : Keeps R (initializer target offset ty) :=
  (initializer_keeps target offset ty).mono fun _ _ => Covers.balanced

/-! ## Objects -/

@[grind ←] instance (id : EntityId) (size align : UInt64) : Keeps R (allocTentative id size align) := by
  unfold allocTentative
  grind

@[grind ←] instance (id : EntityId) : Keeps R (defineInitialized id) := by
  refine (entity_keeps id).bind fun e => check_keeps fun _ => (completeArray_keeps _).bind fun ty => ?_
  refine (extentOr_keeps _ _).bind fun extent => .bind .get fun s => check_keeps fun _ => ?_
  refine (allocStatic_keeps _ _ _).bind fun _ => (modifyEntity_related id _).bind fun _ => ?_
  exact (sectionIndex_keeps _).bind fun _ => (bind_keeps _ _ _ _).bind fun _ => by grind

@[grind ←] instance (id : EntityId) : Keeps R (defineTentative id) := by
  unfold defineTentative
  grind

/-! ## Statements -/

theorem condition_uses : Uses 0 1 condition :=
  .after (expect_keeps _) fun _ => expression_uses.next fun _ => .of_same (expect_keeps _)

/-- Expressions in statements are followed by what takes their value. -/
instance : Theory.States R where
  completeArray := completeArray_keeps
  localInitializer offset ty := by
    unfold localInitializer
    grind
  declareStatic isGlobal _ _ := by
    unfold declareStatic
    grind
  discarded := covered (expression_uses.next fun _ => pop_uses)
  branchOn wanted := covered (condition_uses.next fun _ => branch_uses wanted)
  forCondition := by
    refine (atPunct_keeps _).bind fun missing => ?_
    split
    · exact .pure _
    · exact covered (expression_uses.next fun _ => branch_uses false)
  switchValueSlot := by
    refine covered (condition_uses.next fun _ => rvalue_uses.next fun _ => .top fun v _ => ?_)
    refine .check fun _ => (castTo_uses _).next fun _ => load_uses.next fun _ => ?_
    exact .after allocSlot_keeps fun _ => .after (emit_keeps _) fun _ => pop_uses.next fun _ => .pure
  returnValue result := by
    refine covered (expression_uses.next fun _ => ?_)
    split
    · exact .top fun v _ => .optional (warn_keeps _) fun _ => pop_uses
    · refine .check fun _ => (convertTo_uses result).next fun _ => ?_
      exact load_uses.next fun _ => pop_uses

end Covers

/-! ## Functions and units -/

/-- At file scope anything but the sections may be set, as long as there is no operand. -/
theorem set_keeps (kept : ∀ s, (f s).noCode = s.noCode ∧ (f s).noData = s.noData ∧ (f s).arena = s.arena)
    (rest : ∀ s, s.AtRest → (f s).AtRest) : Keeps Settled (modify f : CompileM PUnit) := by
  refine ⟨fun _ s _ _ run => ?_⟩
  cases run
  obtain ⟨code,data,arena⟩ := kept s
  exact ⟨code,data,rest s,arena ▸ .refl⟩

instance prologue_keeps : Keeps Settled prologue := by
  have entered : Keeps Settled (modify fun s => { s with frameUsed := 0, stackDepth := 0 }) :=
    set_keeps (fun _ => ⟨rfl,rfl,rfl⟩) fun _ rest => ⟨rest.values,rfl⟩
  unfold prologue
  grind

@[grind ←] instance function_keeps (id : EntityId) : Keeps Settled (function id) := by
  have directed (sec : Compiler → Elf.SectionId) :
      Keeps Settled (modify fun s => { s with text := sec s }) :=
    set_keeps (fun _ => ⟨rfl,rfl,rfl⟩) fun _ rest => ⟨rest.values,rest.stackDepth⟩
  have cleared f :
      Keeps Settled (modify fun s => { s with function := some f, values := [] }) :=
    set_keeps (fun _ => ⟨rfl,rfl,rfl⟩) fun _ rest => ⟨rfl,rest.stackDepth⟩
  refine (entity_keeps id).bind fun e => ?_
  split
  · refine .bind .get fun s => (directed _).bind fun _ => (sectionIndex_keeps _).bind fun index => ?_
    refine position_keeps.bind fun start => (bind_keeps _ _ _ _).bind fun _ => prologue_keeps.bind fun hole => ?_
    refine (cleared _).bind fun _ => .bind (inScope_keeps (by grind)) fun _ => position_keeps.bind fun ending => ?_
    exact (bind_keeps _ _ _ _).bind fun _ => directed _
  · exact fail_keeps _

theorem defer_keeps (deferred : Compiler → Array DeferredFunction) :
    Keeps Settled (modify fun s => { s with deferred := deferred s } : CompileM PUnit) :=
  set_keeps (fun _ => ⟨rfl,rfl,rfl⟩) fun _ rest => ⟨rest.values,rest.stackDepth⟩

theorem functionDefinition_keeps (d : Declared) : Keeps Settled (functionDefinition d function) := by
  refine (declareFunction_keeps d).bind fun id => (entity_keeps id).bind fun _ => check_keeps fun _ => ?_
  refine (attributeSection?_keeps _ _).bind fun _ => (modifyEntity_related id _).bind fun _ => (entity_keeps id).bind fun e => ?_
  split
  · exact (readGroup_keeps _ _).bind fun _ => defer_keeps _
  · exact function_keeps id

instance externalDeclaration_keeps : Keeps Settled externalDeclaration := by
  have declares : Keeps Settled (declaration (some function)) :=
    declaration_keeps (by simpa using fun d _ => functionDefinition_keeps d)
  unfold externalDeclaration
  grind

instance checkOperands_keeps : Keeps Settled checkOperands := by
  have emptied : Keeps Settled (modify fun s => { s with values := [] }) :=
    set_keeps (fun _ => ⟨rfl,rfl,rfl⟩) fun _ rest => ⟨rfl,rest.stackDepth⟩
  unfold checkOperands
  grind

@[grind ←] instance (index : Nat) : Keeps Settled (deferredFunction index) := by
  have marked := defer_keeps fun s => s.deferred.modify index ({ · with body := [], done := true })
  unfold deferredFunction
  grind

@[grind ←] instance deferredFunctions_keeps : Keeps Settled deferredFunctions := by
  unfold deferredFunctions
  grind

instance wholeUnit_keeps : Keeps Settled wholeUnit := by
  have declares := externalDeclaration_keeps
  have checks := checkOperands_keeps
  unfold wholeUnit
  grind

end Compile
end OnePass
