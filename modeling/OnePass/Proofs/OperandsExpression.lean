import OnePass.Proofs.OperandsGrammar

/-! # Every expression leaves one operand

By induction on how deep the parts of the grammar nest: if the parts do what they should, so does the
whole. The arguments of a call are on the machine stack without being operands, so in between the depth of
the stack is counted without them. -/
namespace OnePass

open Compiler

/-! ## Arguments that have been pushed -/

/-- The state as it would be without the last words on the machine stack. -/
def Compiler.without (words : Nat) (s : Compiler) : Compiler :=
  if s.noCode then s else { s with stackDepth := s.stackDepth - 8 * words }

namespace Compiler

variable (words : Nat) (s : Compiler)

@[simp] theorem without_frame : (s.without words).noCode = s.noCode ∧ (s.without words).noData = s.noData ∧
    (s.without words).values = s.values ∧ (s.without words).arena = s.arena := by
  unfold without
  split <;> exact ⟨rfl,rfl,rfl,rfl⟩

theorem without_stackDepth :
    (s.without words).stackDepth = s.stackDepth - if s.noCode then 0 else 8 * (words : Int) := by
  unfold without
  split <;> simp

theorem without_outgoing : (s.without words).outgoing = s.outgoing - if s.noCode then 0 else 8 * (words : Int) := by
  simp only [outgoing,spilled,without_frame,without_stackDepth]
  omega

@[simp] theorem without_zero : s.without 0 = s := by
  simp [without]

theorem without_without (more : Nat) : (s.without words).without more = s.without (words + more) := by
  cases code : s.noCode with
  | true => simp [without,code]
  | false =>
    simp only [without,code,Bool.false_eq_true,if_false,mk.injEq,true_and,and_true]
    omega

end Compiler

theorem Effect.without (effect : Effect n m s t) (words : Nat) : Effect n m (s.without words) (t.without words) where
  noCode := by simpa using effect.noCode
  noData := by simpa using effect.noData
  height := by simpa using effect.height
  outgoing := by rw [without_outgoing,without_outgoing,effect.outgoing,effect.noCode]
  below code := by
    have quiet : s.noCode = true := by simpa using code
    simpa [without_stackDepth,effect.noCode] using effect.below quiet
  ready :=
    ⟨by simpa using effect.ready.height,by simpa using effect.ready.latest,by simpa using effect.ready.unpushed⟩
  develops := by simpa using effect.develops
  unevaluated := by simpa using effect.unevaluated

theorem Same.without (same : Same s t) (words : Nat) : Same (s.without words) (t.without words) where
  noCode := by simpa using same.noCode
  noData := by simpa using same.noData
  values := by simpa using same.values
  stackDepth := by rw [without_stackDepth,without_stackDepth,same.stackDepth,same.noCode]
  develops := by simpa using same.develops
  unevaluated := by simpa using same.unevaluated

namespace Compile

variable {env : Env}

theorem pushArgument_run (sound : env.Sound) (ready : Ready 1 s)
    (run : pushArgument env s = .ok a s') : Effect 1 0 s (s'.without 1) := by
  obtain ⟨_,t,loaded,run⟩ := bind_ok.mp run
  have load := load_uses.run sound ready loaded
  refine load.trans ?_
  obtain ⟨_,u,pushed,run⟩ := bind_ok.mp run
  rw [pushRegister_run] at pushed
  cases code : t.noCode with
  | true =>
    simp only [code] at pushed
    cases pushed
    have effect := forget_run load.ready.clear run
    rwa [without,if_pos (effect.noCode.trans code)]
  | false =>
    cases pushed
    cases run
    -- Without the word that was pushed, only the instruction and the operand are gone.
    have dropped := forget_run ((t.emit_same (.push .rax)).clear load.ready.clear) (show forget 1 env _ = .ok ⟨⟩ _ from rfl)
    have effect := (Effect.of_same (t.emit_same (.push .rax)) load.ready).trans dropped
    simpa [without,code] using effect

theorem takeCallee_eq (v : Value) :
    (∃ id, takeCallee v = (do pop; spill; return .direct id)) ∨ takeCallee v = (do pushArgument; return .indirect) := by
  unfold takeCallee
  split
  · exact .inl ⟨_,rfl⟩
  · exact .inr rfl

theorem takeCallee_run (sound : env.Sound)
    (ready : Ready 1 s) (run : takeCallee v env s = .ok callee s') : Effect 1 0 s (s'.without callee.pushed) := by
  rcases takeCallee_eq v with ⟨id,direct⟩ | indirect
  · rw [direct] at run
    obtain ⟨_,t,popped,run⟩ := bind_ok.mp run
    have one := pop_uses.run sound ready popped
    obtain ⟨_,u,spilled,run⟩ := bind_ok.mp run
    cases run
    simpa [Callee.pushed] using one.trans (spill_uses.run sound (.none t) spilled)
  · rw [indirect] at run
    obtain ⟨_,t,pushed,run⟩ := bind_ok.mp run
    cases run
    exact pushArgument_run sound ready pushed

theorem convertArgument_uses (params : List CType) (info : FuncInfo) (index : Nat) :
    Uses 1 1 (convertArgument params info index) := by
  refine rvalue_uses.next fun _ => .top fun v _ => .check fun _ => ?_
  split
  · exact convertTo_uses _
  · split
    · exact castTo_uses _
    · exact .fail

theorem arguments_run
    (sound : env.Sound) (run : arguments params info env s = .ok count s') : Effect 0 0 s (s'.without count) := by
  obtain ⟨closed,t,looked,run⟩ := bind_ok.mp run
  have start : Effect 0 0 s t := .of_same ((atPunct_keeps _).run sound looked) (.none s)
  cases closed with
  | true =>
    cases run
    simpa using start
  | false =>
    -- After each round the arguments so far are on the stack.
    refine iterate_ok (fun count u => Effect 0 0 s (u.without count)) (fun count u => Effect 0 0 s (u.without count))
      (fun count u next u' kept round => ?_) env.host.fuel (by simpa using start) run
    obtain ⟨_,u1,read,round⟩ := bind_ok.mp round
    have one := assignment_uses.run sound (.none u) read
    obtain ⟨_,u2,converted,round⟩ := bind_ok.mp round
    have two := one.trans ((convertArgument_uses params info count).run sound one.ready converted)
    obtain ⟨_,u3,pushed,round⟩ := bind_ok.mp round
    have three := (two.trans (pushArgument_run sound two.ready pushed)).without count
    rw [without_without,Nat.add_comm 1 count] at three
    obtain ⟨more,u4,accepted,round⟩ := bind_ok.mp round
    have same := ((accept_keeps (R := Same) _).run sound accepted).without (count + 1)
    have all := (kept.trans three).trans (.of_same same (.none _))
    cases more <;> cases round <;> exact all

theorem finishCall_run {result : CType} (sound : env.Sound)
    (run : (do
      emit instr
      modify fun s => if s.noCode then s else { s with stackDepth := s.stackDepth - (8 * words : Nat) }
      if result.isVoid then push (Value.const .plainVoid 0)
      else
        let (width, signed) := result.width
        emit (.extend .rax width signed)
        push { type := result.unqualified, place := .register } : CompileM Unit) env s = .ok a s') :
    Effect 0 1 (s.without words) s' := by
  obtain ⟨_,t,emitted,run⟩ := bind_ok.mp run
  have same : Same s t := (emit_keeps _).run sound emitted
  obtain ⟨_,u,popped,run⟩ := bind_ok.mp run
  have shorter : u = t.without words := by
    cases popped
    simp [without]
  subst shorter
  have rest : Uses 0 1 (if result.isVoid then push (Value.const .plainVoid 0) else do
      emit (.extend .rax result.width.1 result.width.2)
      push { type := result.unqualified, place := .register }) := by
    split
    · exact push_uses rfl
    · exact .after (emit_keeps _) fun _ => push_uses rfl
  exact (Effect.of_same (same.without words) (.none _)).trans (rest.run sound (.none _) run)

@[grind ←] instance transfer_keeps (callee : Callee) : Keeps Same (transfer callee) := by
  unfold transfer
  grind

theorem call_run (sound : env.Sound) (run : call callee count result env s = .ok a s') :
    Effect 0 1 (s.without (count + callee.pushed)) s' := by
  obtain ⟨_,t,⟨⟩,run⟩ := bind_ok.mp run
  obtain ⟨_,t,passed,run⟩ := bind_ok.mp run
  have before : Same s t := (Keeps.forM emit_keeps _).run sound passed
  obtain ⟨_,u,went,run⟩ := bind_ok.mp run
  have called := (before.trans ((transfer_keeps callee).run sound went)).without (count + callee.pushed)
  exact (Effect.of_same called (.none _)).trans (finishCall_run sound run)

theorem callExpression_uses : Uses 1 1 callExpression := by
  refine rvalue_uses.next fun _ => .top fun v own => ?_
  split
  · refine .check fun _ => ⟨fun {env} sound s a s' ready run => ?_⟩
    obtain ⟨callee,t,taken,run⟩ := bind_ok.mp run
    have first := takeCallee_run sound ready taken
    obtain ⟨count,u,passed,run⟩ := bind_ok.mp run
    have second := (arguments_run sound passed).without callee.pushed
    rw [without_without] at second
    obtain ⟨_,w,closed,run⟩ := bind_ok.mp run
    have same := ((expect_keeps (R := Same) _).run sound closed).without (count + callee.pushed)
    have before := (first.trans second).trans (.of_same same (.none _))
    split at run
    · cases run
    · exact before.trans (call_run sound run)
  · exact .fail

/-! ## Primary expressions -/

theorem number_uses (spelling : String) : Uses 0 1 (number spelling) := by
  unfold number
  refine .check fun _ => ?_
  split
  · exact .fail
  · exact pushConst_uses _ _

theorem characterConstant_uses (spelling : Bytes) : Uses 0 1 (characterConstant spelling) := by
  unfold characterConstant
  split
  · exact .fail
  · split
    · exact .fail
    · exact .after settings_keeps fun _ => pushConst_uses _ _

theorem pushString_uses (units : List UInt32) (elem : CType) : Uses 0 1 (pushString units elem) := by
  refine ⟨fun {env} sound s a s' ready run => ?_⟩
  obtain ⟨_,t,⟨⟩,run⟩ := bind_ok.mp run
  cases data : s.noData with
  | true =>
    simp only [data] at run
    exact (push_uses rfl).run sound ready run
  | false =>
    simp only [data] at run
    obtain ⟨name,t1,named,run⟩ := bind_ok.mp run
    have one : Stores s t1 := freshName_keeps.run sound named
    obtain ⟨id,t2,entered,run⟩ := bind_ok.mp run
    have two : Stores t1 t2 := by
      cases entered
      exact ⟨rfl,rfl,rfl,rfl,.refl⟩
    obtain ⟨_,t3,⟨⟩,run⟩ := bind_ok.mp run
    obtain ⟨offset,t4,grown,run⟩ := bind_ok.mp run
    have three := (one.trans two).trans ((allocStatic_keeps _ _ _).run sound grown)
    obtain ⟨_,t5,written,run⟩ := bind_ok.mp run
    have four := three.trans ((writeSection_keeps _ _ _).run sound written)
    obtain ⟨index,t6,numbered,run⟩ := bind_ok.mp run
    have five := four.trans ((sectionIndex_keeps _).run sound numbered)
    obtain ⟨_,t7,bound,run⟩ := bind_ok.mp run
    have stores := five.trans ((bind_keeps _ _ _ _).run sound bound)
    exact (Effect.of_same (stores.same data) ready).trans ((push_uses rfl).run sound (.none _) run)

theorem stringExpression_uses : Uses 0 1 stringExpression := by
  refine .after stringUnits_keeps fun _ => .after settings_keeps fun _ => .after switches_keeps fun _ => ?_
  exact pushString_uses _ _

theorem functionNameString_uses : Uses 0 1 functionNameString := by
  refine .after .get fun s => ?_
  split
  · exact .fail
  · refine .after .get fun _ => .after next_keeps fun _ => .after ?_ fun _ => pushString_uses _ _
    unfold constChar
    grind

theorem pushEntity_uses (name : String) (id : EntityId) : Uses 0 1 (pushEntity name id) := by
  refine .after (entity_keeps id) fun e => ?_
  cases e.storage with
  | enumConst value => exact pushConst_uses _ _
  | frame offset | global => exact push_uses rfl
  | _ => exact .fail

theorem identifier_uses (name : String) : Uses 0 1 (identifier name) := by
  refine .after .get fun s => ?_
  split
  · exact .after next_keeps fun _ => pushEntity_uses name _
  · split
    · exact functionNameString_uses
    · refine .after peek_keeps fun _ => .check fun _ => .after (implicitFunction_keeps name) fun _ => ?_
      exact .after next_keeps fun _ => pushEntity_uses name _

theorem primary_uses : Uses 0 1 primary := by
  refine .after token_keeps fun _ => ?_
  split
  · exact (number_uses _).next fun _ => .of_same next_keeps
  · exact (characterConstant_uses _).next fun _ => .of_same next_keeps
  · exact stringExpression_uses
  · exact .after next_keeps fun _ => expression_uses.next fun _ => .of_same (expect_keeps _)
  · refine .after name?_keeps fun found => ?_
    split
    · exact identifier_uses _
    · exact .after tokenText_keeps fun _ => .fail

/-! ## Postfix and unary operators -/

theorem memberAccess_uses : Uses 1 1 memberAccess := by
  refine .top fun v _ => ?_
  split
  · exact .fail
  · refine .after expectName_keeps fun _ => .after .get fun _ => ?_
    split
    · exact .fail
    · exact member_uses _

theorem postfixOperator_uses : Uses 1 1 postfixOperator := by
  refine .after token_keeps fun _ => ?_
  split
  · refine .after next_keeps fun _ => rvalue_uses.next fun _ => .bind 1 expression_uses fun _ => ?_
    refine .after (expect_keeps _) fun _ => (binary_uses .add).next fun _ => ?_
    exact deref_uses.next fun _ => .pure
  · exact .after next_keeps fun _ => callExpression_uses.next fun _ => .pure
  · exact .after next_keeps fun _ => memberAccess_uses.next fun _ => .pure
  · refine .after next_keeps fun _ => deref_uses.next fun _ => ?_
    exact memberAccess_uses.next fun _ => .pure
  · exact .after next_keeps fun _ => (postIncrement_uses _).next fun _ => .pure
  · exact .after next_keeps fun _ => (postIncrement_uses _).next fun _ => .pure
  · exact .pure

theorem postfixExpression_uses : Uses 0 1 postfixExpression :=
  primary_uses.next fun _ => .while_ postfixOperator_uses

theorem nested_uses (uses : Uses 0 1 act) : Uses 0 1 (nested act) := by
  refine .after .get fun _ => .check fun _ => .after (.modify fun _ => .of_eq rfl rfl rfl rfl rfl rfl) fun _ => ?_
  exact uses.next fun _ => .of_same (.modify fun _ => .of_eq rfl rfl rfl rfl rfl rfl)

instance sizeOperand_keeps [Follows R] : Keeps R sizeOperand := by
  refine atTypeInParens_keeps.bind fun isType => ?_
  split
  · exact typeInParens_keeps
  · exact withoutData_keeps (unaryExpression_uses.next fun _ => dropped_uses)

theorem sizeExpression_uses (isSize : Bool) : Uses 0 1 (sizeExpression isSize) := by
  refine .after next_keeps fun _ => .after sizeOperand_keeps fun _ => .after .get fun _ => ?_
  split
  · exact pushConst_uses _ _
  · exact .fail

theorem onOperand_uses (uses : Uses 1 1 act) : Uses 0 1 (onOperand act) :=
  .after next_keeps fun _ => castExpression_uses.next fun _ => uses

theorem unaryPlus_uses : Uses 1 1 unaryPlus :=
  rvalue_uses.next fun _ => .top fun _ _ => .check fun _ => castTo_uses _

theorem incrementExpression_uses (up : Bool) : Uses 0 1 (incrementExpression up) :=
  .after next_keeps fun _ => (nested_uses unaryExpression_uses).next fun _ => preIncrement_uses up

theorem readUnary_uses : Uses 0 1 readUnary := by
  refine .after token_keeps fun _ => .after token_keeps fun _ => ?_
  split
  · exact sizeExpression_uses _
  · exact sizeExpression_uses _
  · exact onOperand_uses .pure
  · exact incrementExpression_uses _
  · exact incrementExpression_uses _
  · exact onOperand_uses addressOf_uses
  · exact onOperand_uses deref_uses
  · exact onOperand_uses unaryPlus_uses
  · exact onOperand_uses (unary_uses _)
  · exact onOperand_uses (unary_uses _)
  · exact onOperand_uses (unary_uses _)
  · exact postfixExpression_uses

theorem castOrUnary_uses : Uses 0 1 castOrUnary := by
  refine .after atTypeInParens_keeps fun isType => ?_
  split
  · refine .after typeInParens_keeps fun ty => .after (atPunct_keeps _) fun _ => .check fun _ => ?_
    exact castExpression_uses.next fun _ => castTo_uses ty
  · exact readUnary_uses

theorem readCast_uses : Uses 0 1 readCast := nested_uses castOrUnary_uses

/-! ## Binary operators -/

theorem readBinary_uses (least : Nat) : Uses 0 1 (readBinary least) := by
  refine readCast_uses.next fun _ => .while_ (.after token_keeps fun _ => ?_)
  split
  · exact .pure
  · split
    · exact .pure
    · refine .after next_keeps fun _ => .bind 1 (binaryFrom_uses _) fun _ => ?_
      exact (binary_uses _).next fun _ => .pure

theorem takeIntoChain_uses (isAnd : Bool) (c : Chain) : Uses 1 0 (takeIntoChain isAnd c) := by
  refine rvalue_uses.next fun _ => ?_
  split
  · exact pop_uses.next fun _ => .pure
  · refine .top fun v _ => ?_
    split
    · exact pop_uses.next fun _ => .pure
    · exact (branch_uses _).next fun _ => .pure

theorem finishChain_uses (isAnd : Bool) (c : Chain) : Uses 0 1 (finishChain isAnd c) := by
  unfold finishChain
  split
  · exact .after (patchHere_keeps _) fun _ => pushConst_uses _ _
  · split
    · exact truthOf_uses _ _
    · exact pushConst_uses _ _

/-- In a chain each further operand takes the place of the one before. -/
theorem shortCircuit_uses (isAnd : Bool) (uses : Uses 0 1 operand) : Uses 1 1 (shortCircuit isAnd operand) := by
  refine ⟨fun {env} sound s a s' ready run => ?_⟩
  obtain ⟨c,t,read,run⟩ := bind_ok.mp run
  have chain : Effect 1 0 s t := by
    refine iterate_ok (fun _ u => Effect 1 1 s u) (fun _ u => Effect 1 0 s u) (fun c u next u' kept round => ?_)
      env.host.fuel (.of_same (.refl s) ready) read
    obtain ⟨c',u1,taken,round⟩ := bind_ok.mp round
    have one := kept.trans ((takeIntoChain_uses isAnd c).run sound kept.ready taken)
    obtain ⟨more,u2,accepted,round⟩ := bind_ok.mp round
    have two := one.trans (.of_same ((accept_keeps _).run sound accepted) (.none _))
    cases more with
    | false =>
      cases round
      exact two
    | true =>
      have further : Uses 0 1 (do
          if c'.decided then withoutData operand else operand
          return .inl c' : CompileM (Chain ⊕ Chain)) := by
        split
        · exact (withoutData_uses uses).next fun _ => .pure
        · exact uses.next fun _ => .pure
      have three := two.trans (further.run sound (.none _) round)
      simp only [if_true] at round
      split at round
      all_goals
        obtain ⟨_,_,_,last⟩ := bind_ok.mp round
        cases last
        exact three
  exact chain.trans ((finishChain_uses isAnd c).run sound (.none _) run)

theorem logicalAnd_uses : Uses 0 1 logicalAnd := by
  refine (readBinary_uses 1).next fun _ => .after (atPunct_keeps _) fun more => ?_
  split
  · exact shortCircuit_uses true (readBinary_uses 1)
  · exact .pure

theorem logicalOr_uses : Uses 0 1 logicalOr := by
  refine logicalAnd_uses.next fun _ => .after (atPunct_keeps _) fun more => ?_
  split
  · exact shortCircuit_uses false logicalAnd_uses
  · exact .pure

/-! ## Conditionals -/

theorem castOperandTo_uses (ty : CType) : Uses 1 1 (castOperandTo ty) := by
  unfold castOperandTo
  split
  · exact castTo_uses ty
  · exact .pure

theorem decidedConditional_uses (truth : Bool) : Uses 0 1 (decidedConditional truth) := by
  unfold decidedConditional
  split
  · refine expression_uses.next fun _ => rvalue_uses.next fun _ => .after (expect_keeps _) fun _ => ?_
    refine .after (typeOfOperand_keeps conditional_uses) fun other => .top fun v _ => ?_
    exact .after (conditionalType_keeps _ _) fun ty => castOperandTo_uses ty
  · refine .after (typeOfOperand_keeps expression_uses) fun other => .after (expect_keeps _) fun _ => ?_
    refine conditional_uses.next fun _ => rvalue_uses.next fun _ => .top fun v _ => ?_
    exact .after (conditionalType_keeps _ _) fun ty => castOperandTo_uses ty

theorem settle_uses (ty : CType) : Uses 1 0 (settle ty) :=
  (castOperandTo_uses ty).next fun _ => load_uses.next fun _ => forget_uses

/-- The first value is forgotten while the second is read, and both end up as one operand. -/
theorem openConditional_uses : Uses 1 1 openConditional := by
  refine (branch_uses false).next fun toElse => expression_uses.next fun _ => rvalue_uses.next fun _ => ?_
  refine .top fun v _ => ?_
  extract_lets joined
  have joinedUses : ∀ u, Uses 1 1 (joined u) := by
    refine fun _ => .top fun first own => forget_uses.next fun _ => .after jump_keeps fun toFirst => ?_
    refine .after (expect_keeps _) fun _ => .after (patchHere_keeps _) fun _ => conditional_uses.next fun _ => ?_
    refine rvalue_uses.next fun _ => .top fun w _ => .after (conditionalType_keeps _ _) fun ty => ?_
    split
    · exact pop_uses.next fun _ => .after (patchHere_keeps _) fun _ => push_uses rfl
    · refine (settle_uses ty).next fun _ => .after jump_keeps fun done => .after (patchHere_keeps _) fun _ => ?_
      refine (push_uses own).next fun _ => (settle_uses ty).next fun _ => .after (patchHere_keeps _) fun _ => ?_
      exact push_uses rfl
  clear_value joined
  split
  · exact load_uses.next joinedUses
  · exact joinedUses _

theorem readConditional_uses : Uses 0 1 readConditional := by
  refine logicalOr_uses.next fun _ => .after (accept_keeps _) fun question => ?_
  split
  · refine rvalue_uses.next fun _ => .top fun v _ => ?_
    split
    · exact pop_uses.next fun _ => decidedConditional_uses _
    · exact openConditional_uses
  · exact .pure

/-! ## Assignment -/

theorem readAssignment_uses : Uses 0 1 readAssignment := by
  refine readConditional_uses.next fun _ => .after token_keeps fun _ => ?_
  split
  · exact .pure
  · refine .after next_keeps fun _ => .top fun target _ => .check fun _ => ?_
    split
    · refine .bind 1 assignment_uses fun _ => ?_
      split
      · exact .bind 1 (convertTo_uses _) fun _ => store_uses
      · exact store_uses
    · refine stabilize_uses.next fun _ => dup_uses.next fun _ => ?_
      exact .bind 2 assignment_uses fun _ => .bind 1 (binary_uses _) fun _ => store_uses

theorem readExpression_uses : Uses 0 1 readExpression := by
  refine assignment_uses.next fun _ => .while_ (.after (accept_keeps _) fun more => ?_)
  split
  · exact pop_uses.next fun _ => assignment_uses.next fun _ => .pure
  · exact .pure

/-! ## The whole grammar -/

theorem readGoal_does (sound : env.Sound) (g : Goal) {a : g.Result}
    (run : readGoal g env s = .ok a s') : g.Does s s' := by
  cases g with
  | expression => exact readExpression_uses.run sound (.none s) run
  | assignment => exact readAssignment_uses.run sound (.none s) run
  | conditional => exact readConditional_uses.run sound (.none s) run
  | binary least => exact (readBinary_uses least).run sound (.none s) run
  | cast => exact readCast_uses.run sound (.none s) run
  | unary => exact readUnary_uses.run sound (.none s) run
  | specifiers => exact (readSpecifiers_keeps (R := Referring)).run sound run
  | declarator attrs => exact (readDeclarator_keeps (R := Referring) attrs).run sound run

theorem solveWith_does (host : Host) (settings : Settings) (fuel : Nat) (g : Goal) {a : g.Result}
    (run : solveWith host settings fuel g s = .ok a s') : g.Does s s' := by
  induction fuel generalizing g s s' with
  | zero => cases run
  | succ fuel ih => exact readGoal_does (fun g _ _ _ => ih g) g run

/-- In every compilation the parts of the grammar do what they should. -/
theorem env_sound (host : Host) (settings : Settings) : (Compile.env host settings).Sound :=
  fun g _ _ _ run => solveWith_does host settings host.fuel g run

end Compile
end OnePass
