import OnePass.Proofs.OperandsUnit

/-! # No operand is left behind

What the readers of the grammar do to the operands, in one statement: expressions add one, everything else
leaves as many as it finds, and a unit has no operand to warn of. -/
namespace OnePass

/-- One operand more; what belongs to no operand is as it was. -/
structure OneMore (s s' : Compiler) : Prop where
  height : s'.values.length = s.values.length + 1
  outgoing : s'.outgoing = s.outgoing
  below : s.noCode = true → s'.values.tail = s.values ∧ s'.stackDepth = s.stackDepth

structure Unmoved (s s' : Compiler) : Prop where
  values : s'.values = s.values
  stackDepth : s'.stackDepth = s.stackDepth

/-- As many operands as before. Some may have been pushed; where there are none, or where no code is
emitted, nothing has. -/
structure Restored (s s' : Compiler) : Prop where
  height : s'.values.length = s.values.length
  outgoing : s'.outgoing = s.outgoing
  unmoved : s.values = [] ∨ s.noCode = true → Unmoved s s'

theorem Effect.oneMore (effect : Effect 0 1 s t) : OneMore s t :=
  { effect with below code := by simpa using effect.below code }

theorem Balanced.restored (balanced : Balanced s t) : Restored s t :=
  { balanced with
    unmoved := by
      rintro (empty | code)
      · obtain ⟨values,depth⟩ := balanced.empty empty
        exact ⟨values.trans empty.symm,depth⟩
      · obtain ⟨values,depth⟩ := balanced.below code
        exact ⟨values,depth⟩ }

/-- The relation holds between the states before and after each run that succeeds. -/
def Relates (env : Env) (R : Compiler → Compiler → Prop) {α : Type} (x : CompileM α) : Prop :=
  ∀ s a s', x env s = .ok a s' → R s s'

section Relates

theorem Uses.relates (sound : env.Sound) (uses : Uses 0 1 x) : Relates env OneMore x :=
  fun s _ _ run => (uses.run sound (.none s) run).oneMore

theorem Keeps.unmoved (sound : env.Sound) (keeps : Keeps Same x) : Relates env Unmoved x := by
  intro s a s' run
  have same := keeps.run sound run
  exact ⟨same.values,same.stackDepth⟩

theorem Keeps.restored (sound : env.Sound) (keeps : Keeps Balanced x) : Relates env Restored x :=
  fun _ _ _ run => (keeps.run sound run).restored

end Relates

namespace Compile

/-! ## A unit that nobody watches -/

theorem iterate_congr {step step' : α → CompileM (α ⊕ β)} {env : Env} (keeps : Compiler → Prop)
    (agree : ∀ a s, keeps s → step a env s = step' a env s)
    (each : ∀ a s next s', keeps s → step a env s = .ok next s' → keeps s') (fuel : Nat) (a : α) (s : Compiler)
    (start : keeps s) : iterate step fuel a env s = iterate step' fuel a env s := by
  induction fuel generalizing a s with
  | zero => rfl
  | succ fuel ih =>
    simp only [iterate,run_bind,← agree a s start]
    cases first : step a env s with
    | error e t => rfl
    | ok next t =>
      cases next with
      | inl a' => exact ih a' t (each a s _ t start first)
      | inr b => rfl

/-- Without operands there is nothing to warn of. -/
theorem checkOperands_run (rest : s.AtRest) (env : Env) : checkOperands env s = .ok () s := by
  simp [checkOperands,run_bind,rest.values]

def declarationRound (check : CompileM Unit) : CompileM Bool := do
  if (← token).isEof then return false
  externalDeclaration
  check
  return true

/-- All declarations up to the end of the input, with a check behind each. -/
def unitWith (check : CompileM Unit) : CompileM Unit := do
  next
  while_ (declarationRound check)
  deferredFunctions

theorem declarationRound_eq {env : Env} (sound : env.Sound) (rest : s.AtRest) :
    declarationRound checkOperands env s = declarationRound (pure ()) env s := by
  simp only [declarationRound,run_bind]
  cases looked : token env s with
  | error e t => rfl
  | ok tok t =>
    have before : t.AtRest := ((token_keeps (R := Settled)).run sound looked).rest rest
    dsimp only
    split
    · rfl
    · simp only [run_bind]
      cases declared : externalDeclaration env t with
      | error e u => rfl
      | ok _ u =>
        have after : u.AtRest := (externalDeclaration_keeps.run sound declared).rest before
        simp only [checkOperands_run after,run_pure]

instance declarationRound_keeps : Keeps Settled (declarationRound checkOperands) := by
  have declares := externalDeclaration_keeps
  have checks := checkOperands_keeps
  unfold declarationRound
  grind

/-- From a state at rest a unit is compiled the same whether operands are looked for or not. -/
theorem unitWith_checkOperands {env : Env} (sound : env.Sound) (rest : s.AtRest) :
    unitWith checkOperands env s = unitWith (pure ()) env s := by
  simp only [unitWith,run_bind]
  cases read : next env s with
  | error e t => rfl
  | ok _ t =>
    have start : t.AtRest := ((next_keeps (R := Settled)).run sound read).rest rest
    have loops : while_ (declarationRound checkOperands) env t = while_ (declarationRound (pure ())) env t := by
      refine iterate_congr Compiler.AtRest (fun _ s rest => ?_) (fun _ s next s' rest round => ?_) env.host.fuel () t start
      · rw [run_bind,run_bind,declarationRound_eq sound rest]
      · obtain ⟨more,u,declared,last⟩ := bind_ok.mp round
        cases last
        exact (declarationRound_keeps.run sound declared).rest rest
    simp only [loops]

/-! ## All readers of the grammar -/

/-- Whatever reads an expression; binary operators are read from a precedence on. -/
def expressionReaders (least : Nat) : List (CompileM Unit) :=
  [expression,assignment,conditional,logicalOr,logicalAnd,binaryFrom least,castExpression,unaryExpression,
    postfixExpression,primary]

theorem expressionReaders_uses {read : CompileM Unit} (member : read ∈ expressionReaders least) :
    Uses 0 1 read := by
  simp only [expressionReaders,List.mem_cons,List.not_mem_nil,or_false] at member
  rcases member with rfl | rfl | rfl | rfl | rfl | rfl | rfl | rfl | rfl | rfl
  · exact expression_uses
  · exact assignment_uses
  · exact conditional_uses
  · exact logicalOr_uses
  · exact logicalAnd_uses
  · exact binaryFrom_uses least
  · exact castExpression_uses
  · exact unaryExpression_uses
  · exact postfixExpression_uses
  · exact primary_uses

/-- The operands never leak. Every expression leaves exactly one operand more. Types, attributes,
designators and constants leave the operands and the machine stack alone, and so do statements and
initializers, which are read where there are no operands. An external declaration leaves none, so a unit is
compiled as if nobody looked for operands that are left, and ends without any. -/
theorem operands_never_left (host : Host) (settings : Settings) :
    (∀ least, ∀ read ∈ expressionReaders least, Relates (env host settings) OneMore read) ∧
    (Relates (env host settings) Unmoved constant ∧ Relates (env host settings) Unmoved typeofSpecifier ∧
      Relates (env host settings) Unmoved typeName ∧ Relates (env host settings) Unmoved specifiers? ∧
      (∀ attrs, Relates (env host settings) Unmoved (declaratorParts attrs)) ∧
      (∀ attrs, Relates (env host settings) Unmoved (attributes attrs)) ∧
      Relates (env host settings) Unmoved designatorIndex ∧
      ∀ fields, Relates (env host settings) Unmoved (designatedMember fields)) ∧
    (Relates (env host settings) Restored statement ∧
      (∀ target offset ty, Relates (env host settings) Restored (initializer target offset ty)) ∧
      (∀ offset ty, Relates (env host settings) Restored (localInitializer offset ty)) ∧
      Relates (env host settings) Restored (declaration none)) ∧
    Relates (env host settings) (fun s s' => s.AtRest → s'.AtRest) externalDeclaration ∧
    Relates (env host settings) (fun s s' => s.AtRest → s'.AtRest) wholeUnit ∧
    ∀ s : Compiler, s.AtRest → wholeUnit (env host settings) s = unitWith (pure ()) (env host settings) s := by
  have sound := env_sound host settings
  refine ⟨fun least read member => (expressionReaders_uses member).relates sound,?_,?_,
    fun s _ s' run => (externalDeclaration_keeps.run sound run).rest,
    fun s _ s' run => (wholeUnit_keeps.run sound run).rest,fun s rest => unitWith_checkOperands sound rest⟩
  · exact ⟨constant_keeps.unmoved sound,typeofSpecifier_keeps.unmoved sound,typeName_keeps.unmoved sound,
      specifiers?_keeps.unmoved sound,fun attrs => (declaratorParts_keeps attrs).unmoved sound,
      fun attrs => (attributes_keeps attrs).unmoved sound,designatorIndex_keeps.unmoved sound,
      fun fields => (designatedMember_keeps fields).unmoved sound⟩
  · exact ⟨statement_keeps.restored sound,fun _ _ _ _ _ _ run => ((initializer_keeps _ _ _).run sound run).restored,
      fun _ _ => (localInitializer_keeps _ _).restored sound,blockDeclaration_keeps.restored sound⟩

def opened (text : String) : Compiler :=
  { pre := { files := [Source.ofBytes "<string>" (Bytes.ofString text)] }
    arena := Elf.Arena.initial, text := Elf.Arena.initial.text }

/-- A recursive function whose call stands under a conditional and beside an operand that is pushed. -/
def countdown : String := "int f(int a)\x7b return a && a > 1 ? a * f(a - 1) + f(0) : sizeof a; \x7d"

theorem operands_never_left_countdown :
    ∃ s, wholeUnit (env { fuel := 200 } {}) (opened countdown) = .ok () s ∧ s.AtRest := by
  have accepted : succeeds (fun _ => true) (wholeUnit (env { fuel := 200 } {}) (opened countdown)) = true := by
    decide +kernel
  obtain ⟨_,s,run,-⟩ := succeeds_iff.mp accepted
  obtain ⟨-,-,-,-,unit,-⟩ := operands_never_left { fuel := 200 } {}
  exact ⟨s,run,unit _ _ s run ⟨rfl,rfl⟩⟩

end Compile
end OnePass
