import OnePass.Proofs.Holdings
import OnePass.Proofs.ReportingPreprocess

/-! # Properties of computations, part by part

A property that holds of sequences of computations and of single steps holds of everything that is made of such
steps. So the grammar is gone through once, for every such property. -/
namespace OnePass

open Compile

/-- Tokens were read, and everything that has been made of the earlier ones is as it was. -/
structure Idle (s s' : Compiler) : Prop where
  noCode : s'.noCode = s.noCode
  noData : s'.noData = s.noData
  values : s'.values = s.values
  stackDepth : s'.stackDepth = s.stackDepth
  holdings : s'.holdings = s.holdings
  reported : s.pre.account.Follows s'.pre.account

namespace Idle

@[grind ←] theorem of_eq (noCode : t.noCode = s.noCode) (noData : t.noData = s.noData) (values : t.values = s.values)
    (stackDepth : t.stackDepth = s.stackDepth) (holdings : t.holdings = s.holdings) (pre : t.pre = s.pre) : Idle s t :=
  ⟨noCode,noData,values,stackDepth,holdings,pre ▸ .refl⟩

theorem refl (s : Compiler) : Idle s s := of_eq rfl rfl rfl rfl rfl rfl

theorem arena (idle : Idle s t) : t.arena = s.arena := congrArg Holdings.arena idle.holdings

end Idle

/-- A property of computations. -/
structure Theory where
  Holds : ∀ {α : Type}, CompileM α → Prop

class Keeps (R : Theory) {α : Type} (x : CompileM α) : Prop where
  holds : R.Holds x

theorem bind_ok {ρ ε σ α β : Type} {x : ReaderT ρ (EStateM ε σ) α} {f : α → ReaderT ρ (EStateM ε σ) β}
    {r : ρ} {s s' : σ} {b : β} : (x >>= f) r s = .ok b s' ↔ ∃ a t, x r s = .ok a t ∧ f a r t = .ok b s' :=
  bind_eq_ok

namespace Theory

/-- The property holds of sequences, of errors that are reported, and of steps that read tokens. -/
class Reads (R : Theory) : Prop where
  bind : ∀ {α β : Type} {x : CompileM α} {f : α → CompileM β}, Keeps R x → (∀ a, Keeps R (f a)) → Keeps R (x >>= f)
  pure : ∀ {α : Type} (a : α), Keeps R (Pure.pure a : CompileM α)
  get : Keeps R (MonadState.get : CompileM Compiler)
  read : Keeps R (MonadReader.read : CompileM Env)
  modifyGet : ∀ {α : Type} {f : Compiler → α × Compiler}, (∀ s, Idle s (f s).2) →
    Keeps R (MonadState.modifyGet f : CompileM α)
  exhausted : ∀ {α : Type}, Keeps R (throw .exhausted : CompileM α)
  fail : ∀ {α : Type} (fault : CompileFault), Keeps R (fail fault : CompileM α)
  preprocess : ∀ {α : Type} {act : PreM α}, Reports Account.Follows act → Keeps R (preprocess act)

/-- The property also holds of steps that declare names. -/
class Declares (R : Theory) : Prop extends Reads R where
  declare : ∀ {α : Type} {f : Compiler → α × Scope}, (∀ s : Compiler, s.scope.Declares (f s).2) →
    Keeps R (MonadState.modifyGet fun s => ((f s).1,{ s with scope := (f s).2 }) : CompileM α)

/-- The property also holds of emitting code. -/
class Codes (R : Theory) : Prop extends Declares R where
  emit : ∀ instr : X86.Instr, Keeps R (emit instr)
  fill : ∀ (hole : Nat) (value : Compiler → Int32), Keeps R (modify fun s => s.fill hole (value s) : CompileM PUnit)

/-- The property also holds of the recursive parts of types, and of expressions that are read for their type or
for a constant. -/
class Parses (R : Theory) : Prop extends Declares R where
  specifiers : Keeps R specifiers?
  declarator : ∀ attrs, Keeps R (declaratorParts attrs)
  typeOfExpression : Keeps R typeOfExpression
  constant : Keeps R constant

end Theory

namespace Keeps

variable {R : Theory} [R.Reads] {α β γ : Type}

@[grind ←] theorem bind (first : Keeps R x) (second : ∀ a, Keeps R (f a)) : Keeps R (x >>= f) :=
  Theory.Reads.bind first second

@[grind ←] instance pure (a : α) : Keeps R (Pure.pure a : CompileM α) := Theory.Reads.pure a

@[grind ←] theorem map (keeps : Keeps R x) (f : α → β) : Keeps R (f <$> x) := by
  exact keeps.bind fun a => .pure (f a)

theorem forM_mem {f : γ → CompileM PUnit} {items : List γ} (each : ∀ c ∈ items, Keeps R (f c)) :
    Keeps R (items.forM f) := by
  induction items with
  | nil => exact .pure _
  | cons c rest ih =>
    exact (each c List.mem_cons_self).bind fun _ => ih fun c member => each c (List.mem_cons_of_mem _ member)

@[grind ←] theorem forM (each : ∀ c, Keeps R (f c)) (items : List γ) : Keeps R (items.forM f) :=
  forM_mem fun c _ => each c

@[grind ←] theorem foldlM (each : ∀ a c, Keeps R (f a c)) (a : α) (items : List γ) : Keeps R (items.foldlM f a) := by
  induction items generalizing a with
  | nil => exact .pure _
  | cons c rest ih => exact (each a c).bind ih

@[grind ←] instance get : Keeps R (MonadState.get : CompileM Compiler) := Theory.Reads.get

@[grind ←] instance read : Keeps R (MonadReader.read : CompileM Env) := Theory.Reads.read

@[grind ←] theorem exhausted : Keeps R (throw .exhausted : CompileM α) := Theory.Reads.exhausted

theorem iterate (each : ∀ a, Keeps R (step a)) (fuel : Nat) (a : α) : Keeps R (OnePass.iterate step fuel a) := by
  induction fuel generalizing a with
  | zero => exact .exhausted
  | succ fuel ih =>
    refine (each a).bind fun next => ?_
    cases next with
    | inl a => exact ih a
    | inr b => exact .pure b

@[grind ←] theorem loop (each : ∀ a, Keeps R (step a)) (initial : α) : Keeps R (loop initial step) :=
  (read.bind fun env => iterate each env.host.fuel initial :)

@[grind ←] theorem while_ (each : Keeps R step) : Keeps R (while_ step) :=
  loop (fun _ => each.bind fun _ => .pure _) ()

@[grind ←] theorem modifyGet (each : ∀ s, Idle s (f s).2) : Keeps R (MonadState.modifyGet f : CompileM α) :=
  Theory.Reads.modifyGet each

@[grind ←] theorem modify (each : ∀ s, Idle s (f s)) : Keeps R (modify f : CompileM PUnit) :=
  modifyGet each

omit [R.Reads] in
theorem declare [R.Declares] {f : Compiler → α × Scope} (each : ∀ s : Compiler, s.scope.Declares (f s).2) :
    Keeps R (MonadState.modifyGet fun s => ((f s).1,{ s with scope := (f s).2 }) : CompileM α) :=
  Theory.Declares.declare each

omit [R.Reads] in
theorem rescope [R.Declares] {f : Compiler → Scope} (same : ∀ s, (f s).entities = s.scope.entities) :
    Keeps R (MonadState.modifyGet fun s => (⟨⟩,{ s with scope := f s }) : CompileM PUnit) :=
  declare (α := PUnit) (f := fun s => (⟨⟩,f s)) fun s => .of_entities (same s)

end Keeps

namespace Compile

variable {R : Theory}

/-! ## The surroundings -/

section Reads

variable [R.Reads]

@[grind ←] instance fail_keeps (fault : CompileFault) : Keeps R (fail fault : CompileM α) :=
  Theory.Reads.fail fault

@[grind ←] instance fail_bind_keeps (fault : CompileFault) (f : α → CompileM β) :
    Keeps R (fail fault >>= f) :=
  (fail_keeps fault : Keeps R (fail fault))

theorem check_keeps [Decidable c] {f : Unit → CompileM α}
    (rest : ∀ u, Keeps R (f u)) : Keeps R (if c then fail fault >>= f else f ()) := by
  split
  · exact fail_bind_keeps fault f
  · exact rest ()

@[grind ←] theorem preprocess_keeps (reports : Reports Account.Follows act) :
    Keeps R (preprocess act) :=
  Theory.Reads.preprocess reports

@[grind ←] instance warn_keeps (doubt : CompileDoubt) : Keeps R (warn doubt) :=
  .modify fun _ => ⟨rfl,rfl,rfl,rfl,rfl,.reported .refl (.warning .refl _ _)⟩

@[grind ←] instance settings_keeps : Keeps R settings := by
  unfold settings
  grind

@[grind ←] instance switches_keeps : Keeps R switches := by
  unfold switches
  grind

@[grind ←] instance entity_keeps (id : EntityId) : Keeps R (entity id) := by
  unfold entity
  grind

/-! ## The frame and the code so far -/

@[grind ←] instance position_keeps : Keeps R position := by
  unfold position
  grind

@[grind ←] instance (size align : UInt64) : Keeps R (allocLocal size align) := by
  unfold allocLocal
  grind

@[grind ←] instance allocSlot_keeps : Keeps R allocSlot := by
  unfold allocSlot
  grind

@[grind ←] instance isNear_keeps (symbol : Nat) : Keeps R (isNear symbol) := by
  unfold isNear
  grind

@[grind ←] instance elementSize_keeps (ty : CType) : Keeps R (elementSize ty) := by
  unfold elementSize
  grind

@[grind ←] instance sectionIndex_keeps (sec : Elf.SectionId) : Keeps R (sectionIndex sec) := by
  unfold sectionIndex
  grind

/-! ## Tokens -/

@[grind ←] instance : Keeps R fetch := by
  unfold fetch
  grind

@[grind ←] instance next_keeps : Keeps R next := by
  unfold next
  grind

@[grind ←] instance peek_keeps : Keeps R peek := by
  unfold peek
  grind

@[grind ←] instance token_keeps : Keeps R token := by
  unfold token
  grind

@[grind ←] instance tokenText_keeps : Keeps R tokenText := by
  unfold tokenText
  grind

@[grind ←] instance atPunct_keeps (p : Punct) : Keeps R (atPunct p) := by
  unfold atPunct
  grind

@[grind ←] instance accept_keeps (p : Punct) : Keeps R (accept p) := by
  unfold accept
  grind

@[grind ←] instance expect_keeps (p : Punct) : Keeps R (expect p) := by
  unfold expect
  grind

@[grind ←] instance keyword?_keeps : Keeps R keyword? := by
  unfold keyword?
  grind

@[grind ←] instance (kw : Keyword) : Keeps R (atKeyword kw) := by
  unfold atKeyword
  grind

@[grind ←] instance (kw : Keyword) : Keeps R (acceptKeyword kw) := by
  unfold acceptKeyword
  grind

@[grind ←] instance name?_keeps : Keeps R name? := by
  unfold name?
  grind

@[grind ←] instance expectName_keeps : Keeps R expectName := by
  unfold expectName
  grind

@[grind ←] instance atString_keeps : Keeps R atString := by
  refine .bind .get fun s => ?_
  split <;> exact .pure _

@[grind ←] instance : Keeps R startRecording := by
  unfold startRecording
  grind

@[grind ←] instance : Keeps R stopRecording := by
  unfold stopRecording
  grind

@[grind ←] instance rewind_keeps (tokens : List Token) : Keeps R (rewind tokens) := by
  unfold rewind
  grind

@[grind ←] instance readGroup_keeps (opening closing : Punct) : Keeps R (readGroup opening closing) := by
  unfold readGroup
  grind

@[grind ←] instance stringUnits_keeps : Keeps R stringUnits := by
  unfold stringUnits
  grind

@[grind ←] instance : Keeps R stringText := by
  unfold stringText
  grind

end Reads

/-! ## Declarations of names -/

section Declares

variable [R.Declares]

@[grind ←] theorem modifyEntity_keeps (id : EntityId)
    (kept : ∀ e, e.Kept (f e) ∧ (f e).symbol = e.symbol) : Keeps R (modifyEntity id f) :=
  .declare (α := PUnit) (f := fun s => (⟨⟩,s.scope.update id f)) fun _ => .update (kept _).1 (kept _).2

@[grind ←] instance : Keeps R atType := by
  unfold atType
  grind

@[grind ←] theorem declare_keeps (ns : Namespace) (unbound : e.symbol = 0) : Keeps R (declare ns e) :=
  .declare (f := fun s => s.scope.push ns e) fun s => .push s.scope ns unbound

theorem pushGlobal_keeps (ns : Namespace) (unbound : e.symbol = 0) :
    Keeps R (modifyGet fun s => ((s.scope.pushGlobal ns e).1,{ s with scope := (s.scope.pushGlobal ns e).2 }) :
      CompileM EntityId) :=
  .declare fun s => .pushGlobal s.scope ns unbound

@[grind ←] instance implicitFunction_keeps (name : String) : Keeps R (implicitFunction name) := by
  refine switches_keeps.bind fun switches => ?_
  extract_lets e enter
  have enterKeeps : ∀ u, Keeps R (enter u) := fun _ => pushGlobal_keeps .ident rfl
  clear_value enter
  grind

@[grind ←] instance freshName_keeps : Keeps R freshName :=
  .declare (f := fun s => s.scope.freshName) fun _ => .of_entities rfl

@[grind ←] instance (tag : OnePass.Name) (isUnion : Bool) : Keeps R (newStruct tag isUnion) :=
  .declare (f := fun s => s.scope.newStruct tag isUnion) fun _ => .of_entities rfl

@[grind ←] instance (tag : String) (isUnion : Bool) : Keeps R (newTag tag isUnion) := by
  unfold newTag
  grind

@[grind ←] instance lookup?_keeps (name : String) : Keeps R (lookup? name) := by
  unfold lookup?
  grind

@[grind ←] instance (e : Entity) : Keeps R (isHere e) := by
  unfold isHere
  grind

end Declares

section Parses

variable [R.Parses]

@[grind ←] instance specifiers?_keeps : Keeps R specifiers? := Theory.Parses.specifiers

@[grind ←] instance declaratorParts_keeps (attrs : Attributes) : Keeps R (declaratorParts attrs) :=
  Theory.Parses.declarator attrs

@[grind ←] instance : Keeps R typeOfExpression := Theory.Parses.typeOfExpression

@[grind ←] instance constant_keeps : Keeps R constant := Theory.Parses.constant

/-! ## Attributes and declarators -/

@[grind ←] instance : Keeps R alignment := by
  unfold alignment
  grind

@[grind ←] instance (attrs : Attributes) (name : String) : Keeps R (attributeNamed attrs name) := by
  unfold attributeNamed
  grind

@[grind ←] instance (attrs : Attributes) : Keeps R (attributeList attrs) := by
  refine next_keeps.bind fun _ => (expect_keeps _).bind fun _ => (expect_keeps _).bind fun _ => ?_
  refine .bind (.loop (fun attrs => ?_) _) fun attrs => ?_ <;> grind

@[grind ←] instance attributes_keeps (attrs : Attributes) : Keeps R (attributes attrs) := by
  unfold attributes
  grind

@[grind ←] instance : Keeps R asmLabel? := by
  unfold asmLabel?
  grind

@[grind ←] instance (ty : CType) (a : Derivation) : Keeps R (derive_ ty a) := by
  unfold derive_
  grind

@[grind ←] instance (base : CType) (attrs : Attributes) : Keeps R (declarator base attrs) := by
  unfold declarator
  grind

@[grind ←] instance : Keeps R parameter := by
  unfold parameter
  grind

@[grind ←] instance : Keeps R parameters := by
  refine (accept_keeps _).bind fun empty => ?_
  extract_lets listed
  have listedKeeps : ∀ u, Keeps R (listed u) := by
    refine fun _ => .bind (.loop (fun params => ?_) _) fun result => ?_ <;> grind
  clear_value listed
  grind

@[grind ←] instance : Keeps R arrayLength := by
  unfold arrayLength
  grind

@[grind ←] instance : Keeps R suffixes := by
  unfold suffixes
  grind

@[grind ←] instance (attrs : Attributes) : Keeps R (pointerQuals attrs) := by
  unfold pointerQuals
  grind

@[grind ←] instance pointers_keeps (attrs : Attributes) : Keeps R (pointers attrs) := by
  unfold pointers
  grind

@[grind ←] instance atNestedDeclarator_keeps : Keeps R atNestedDeclarator := by
  unfold atNestedDeclarator
  grind

@[grind ←] instance readDeclarator_keeps (attrs : Attributes) : Keeps R (readDeclarator attrs) := by
  refine (pointers_keeps _).bind fun result => atNestedDeclarator_keeps.bind fun nested => ?_
  grind

/-! ## Structs, unions and enumerations -/

@[grind ←] instance : Keeps R tagName := by
  unfold tagName
  grind

@[grind ←] instance (fields : List Field) (d : Declarator) : Keeps R (addMember fields d) := by
  unfold addMember
  grind

@[grind ←] instance (spec : Specifiers) (fields : List Field) : Keeps R (memberDeclarators spec fields) := by
  unfold memberDeclarators
  grind

@[grind ←] instance (spec : Specifiers) (fields : List Field) : Keeps R (unnamedMember spec fields) := by
  unfold unnamedMember
  grind

@[grind ←] instance members_keeps : Keeps R members := by
  refine (expect_keeps _).bind fun _ => .bind (.loop (fun fields => ?_) _) fun fields => ?_ <;> grind

@[grind ←] instance (id : StructId) (attrs : Attributes) : Keeps R (structBody id attrs) := by
  refine members_keeps.bind fun fields => (attributes_keeps attrs).bind fun attrs => .bind .get fun s => ?_
  dsimp only
  split
  · exact fail_keeps _
  · exact .rescope fun _ => rfl

@[grind ←] instance (tag : Option String) (isUnion : Bool) : Keeps R (structOfTag? tag isUnion) := by
  unfold structOfTag?
  grind

@[grind ←] instance (tag : Option String) (found : Option (StructId × Nat)) (isUnion : Bool) :
    Keeps R (structToDefine tag found isUnion) := by
  unfold structToDefine
  grind

@[grind ←] instance (isUnion : Bool) : Keeps R (structSpecifier isUnion) := by
  unfold structSpecifier
  grind

@[grind ←] instance : Keeps R enumerators := by
  refine .loop (fun value => (accept_keeps _).bind fun closed => ?_) _
  split
  · exact .pure _
  · refine expectName_keeps.bind fun name => ?_
    extract_lets added
    have addedKeeps : ∀ value, Keeps R (added value) := by grind
    clear_value added
    grind

@[grind ←] instance (tag : String) : Keeps R (enumTag tag) := by
  unfold enumTag
  grind

@[grind ←] instance : Keeps R enumSpecifier := by
  unfold enumSpecifier
  grind

/-! ## Specifiers -/

@[grind ←] instance (w : Words) (ty : CType) : Keeps R (setBase w ty) := by
  unfold setBase
  grind

@[grind ←] instance typeName_keeps : Keeps R typeName := by
  unfold typeName
  grind

@[grind ←] instance typeofSpecifier_keeps : Keeps R typeofSpecifier := by
  unfold typeofSpecifier
  grind

@[grind ←] instance (w : Words) (signed : Bool) : Keeps R (setSigned w signed) := by
  unfold setSigned
  grind

@[grind ←] instance (w : Words) (storage : StorageClass) : Keeps R (setStorage w storage) := by
  unfold setStorage
  grind

@[grind ←] instance (w : Words) (a : Keyword) : Keeps R (simpleWord w a) := by
  unfold simpleWord
  grind

@[grind ←] instance (w : Words) : Keeps R (specifierWord w) := by
  unfold specifierWord
  grind

@[grind ←] instance readSpecifiers_keeps : Keeps R readSpecifiers := by
  unfold readSpecifiers
  grind

@[grind ←] instance atTypeInParens_keeps : Keeps R atTypeInParens := by
  unfold atTypeInParens
  grind

@[grind ←] instance typeInParens_keeps : Keeps R typeInParens := by
  unfold typeInParens
  grind

@[grind ←] instance conditionalType_keeps (a b : CType) : Keeps R (conditionalType a b) := by
  unfold conditionalType
  grind

end Parses
end Compile
end OnePass
