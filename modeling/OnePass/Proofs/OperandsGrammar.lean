import OnePass.Proofs.OperandsUsed

/-! # The grammar and its operands

Types, attributes, declarators and constant expressions leave the operands alone: what they evaluate they only
follow, and drop. -/
namespace OnePass

variable {env : Env}

namespace Effect

theorem quiet (effect : Effect 0 m { s with noCode := true, noData := data } t)
    (stricter : s.noData = true → data = true) : Effect 0 m s { t with noCode := s.noCode, noData := s.noData } := by
  obtain ⟨below,depth⟩ := effect.below rfl
  refine ⟨rfl,rfl,effect.height,effect.outgoing,fun _ => ⟨below,depth⟩,?_,effect.develops,
    fun _ h => effect.unevaluated rfl (stricter h)⟩
  exact ⟨effect.ready.height,effect.ready.latest,fun _ => effect.ready.unpushed effect.noCode⟩

theorem quiet_same (effect : Effect 0 0 { s with noCode := true, noData := data } t)
    (stricter : s.noData = true → data = true) : Same s { t with noCode := s.noCode, noData := s.noData } := by
  obtain ⟨below,depth⟩ := effect.below rfl
  exact ⟨rfl,rfl,below,depth,effect.develops,fun _ h => effect.unevaluated rfl (stricter h)⟩

theorem quiet_referring (effect : Effect 0 0 { s with noCode := true, noData := true } t) :
    Referring s { t with noCode := s.noCode, noData := s.noData } := by
  obtain ⟨below,depth⟩ := effect.below rfl
  exact ⟨rfl,rfl,below,depth,effect.unevaluated rfl rfl⟩

end Effect

namespace Compile

variable [Follows R]

theorem withoutCode_run (run : withoutCode act env s = .ok a s') :
    ∃ t, act env { s with noCode := true } = .ok a t ∧ s' = { t with noCode := s.noCode } := by
  simp only [withoutCode,run_bind,run_get,run_modify,finishing] at run
  split at run
  · next found =>
    cases run
    exact ⟨_,found,rfl⟩
  · cases run

theorem withoutData_run (run : withoutData act env s = .ok a s') :
    ∃ t, act env { s with noCode := true, noData := true } = .ok a t ∧
      s' = { t with noCode := s.noCode, noData := s.noData } := by
  simp only [withoutData,run_bind,run_get,run_modify] at run
  rw [finishing] at run
  split at run
  · next found =>
    cases run
    obtain ⟨t,ran,rfl⟩ := withoutCode_run found
    exact ⟨t,ran,rfl⟩
  · cases run

theorem withoutData_keeps (uses : Uses 0 0 act) : Keeps R (withoutData act) := by
  refine ⟨fun sound s _ _ run => ?_⟩
  obtain ⟨t,ran,rfl⟩ := withoutData_run run
  exact Follows.referring (uses.run sound (.none _) ran).quiet_referring

theorem withoutData_uses (uses : Uses 0 1 act) : Uses 0 1 (withoutData act) := by
  refine ⟨fun sound s _ _ _ run => ?_⟩
  obtain ⟨t,ran,rfl⟩ := withoutData_run run
  exact (uses.run sound (.none _) ran).quiet fun _ => rfl

omit [Follows R] in
theorem withoutCode_keeps [Spans R] (uses : Uses 0 0 act) : Keeps R (withoutCode act) := by
  refine ⟨fun sound s _ _ run => ?_⟩
  obtain ⟨t,ran,rfl⟩ := withoutCode_run run
  have effect := uses.run sound (.none _) ran
  have data := effect.noData
  have same := effect.quiet_same fun (strict : s.noData = true) => strict
  rw [← data] at same
  exact Spans.same same

/-! ## Parts of the grammar that are given -/

theorem expression_uses : Uses 0 1 expression := ⟨fun sound _ _ _ _ run => sound .expression _ _ _ run⟩

theorem assignment_uses : Uses 0 1 assignment := ⟨fun sound _ _ _ _ run => sound .assignment _ _ _ run⟩

theorem conditional_uses : Uses 0 1 conditional := ⟨fun sound _ _ _ _ run => sound .conditional _ _ _ run⟩

theorem binaryFrom_uses (least : Nat) : Uses 0 1 (binaryFrom least) :=
  ⟨fun sound _ _ _ _ run => sound (.binary least) _ _ _ run⟩

theorem castExpression_uses : Uses 0 1 castExpression := ⟨fun sound _ _ _ _ run => sound .cast _ _ _ run⟩

theorem unaryExpression_uses : Uses 0 1 unaryExpression := ⟨fun sound _ _ _ _ run => sound .unary _ _ _ run⟩

/-! ## Operands that are not evaluated -/

theorem dropped_uses {f : Value → α} : Uses 1 0 (do let v ← top; pop; return f v : CompileM α) :=
  .top fun _ _ => pop_uses.next fun _ => .pure

instance : Theory.Parses R where
  specifiers := ⟨fun sound _ _ _ run => Follows.referring (sound .specifiers _ _ _ run)⟩
  declarator attrs := ⟨fun sound _ _ _ run => Follows.referring (sound (.declarator attrs) _ _ _ run)⟩
  typeOfExpression := withoutData_keeps (expression_uses.next fun _ => dropped_uses)
  constant := by
    refine .bind (withoutData_keeps (conditional_uses.next fun _ => ?_)) fun v => ?_
    · exact rvalue_uses.next fun _ => dropped_uses
    · grind

theorem typeOfOperand_keeps (uses : Uses 0 1 operand) : Keeps R (typeOfOperand operand) :=
  withoutData_keeps (uses.next fun _ => rvalue_uses.next fun _ => dropped_uses)

end Compile
end OnePass
