import OnePass.Preprocess.Directive
import OnePass.Proofs.Effect

/-! # The grammar of conditions

A condition is a tree of operands, signs, binary operators and choices. Ten levels of binary operators stand between
a choice (level 0) and a signed operand (level 11). A condition has a value exactly where it is the writing of a tree
that has one. -/
namespace OnePass.Condition

open List Operator
open Condition

inductive Tree where
  | operand (kind : TokenKind)
  | signed (sign : Sign) (of : Tree)
  | binary (op : Operator) (lhs rhs : Tree)
  | choice (cond yes no : Tree)

def Tree.value : Tree → Except Fault Value
  | operand kind => operandValue kind
  | signed sign of => return sign.apply (← of.value)
  | binary op lhs rhs => do apply op (← lhs.value) (← rhs.value)
  | choice cond yes no => return choose (← cond.value) (← yes.value) (← no.value)

def Marks (read : Punct → Option α) (tok : Token) (a : α) : Prop := ∃ p, tok.kind = .punct p ∧ read p = some a

/-- The tokens write the tree at a level of the grammar, inside `depth` signs and parentheses. Parentheses may stand
around any part, and stand where a part is of a lower level than its place. -/
inductive Written : Nat → Nat → Tree → List Token → Prop where
  | operand (room : depth < maxDepth) (valid : operandValue tok.kind = .ok v) :
    Written depth 11 (.operand tok.kind) [tok]
  | signed (room : depth < maxDepth) (mark : Marks Sign.ofPunct? tok sign) (inner : Written (depth + 1) 11 t tokens) :
    Written depth 11 (.signed sign t) (tok :: tokens)
  | parens (room : depth < maxDepth) (opening : tok.kind = .punct .lparen) (inner : Written (depth + 1) 0 t tokens)
    (closing : last.kind = .punct .rparen) : Written depth 11 t (tok :: (tokens ++ [last]))
  | binary (mark : Marks ofPunct? tok op) (left : Written depth op.precedence l before)
    (right : Written depth (op.precedence + 1) r behind) :
    Written depth op.precedence (.binary op l r) (before ++ tok :: behind)
  | choice (cond : Written depth 1 c asked) (mark : tok.kind = .punct .question) (yes : Written depth 0 y first)
    (colon : sep.kind = .punct .colon) (no : Written depth 0 n second) :
    Written depth 0 (.choice c y n) (asked ++ tok :: (first ++ sep :: second))
  | lift (low : level < 11) (inner : Written depth (level + 1) t tokens) : Written depth level t tokens

namespace Written

theorem descend (written : Written depth level t tokens) (le : least ≤ level) (high : level ≤ 11) :
    Written depth least t tokens := by
  induction le with
  | refl => exact written
  | step _ ih => exact ih (written.lift (by omega)) (by omega)

end Written

theorem Operator.precedence_range (op : Operator) : 1 ≤ op.precedence ∧ op.precedence ≤ 10 := by
  cases op <;> decide

@[simp] theorem ok_bind (a : α) (f : α → Except Fault β) : Except.ok a >>= f = f a := rfl

@[simp] theorem pure_eq_ok (a : α) : (pure a : Except Fault α) = .ok a := rfl

theorem bind_eq_ok_iff {x : Except Fault α} :
    x >>= f = .ok b ↔ ∃ a, x = .ok a ∧ f a = .ok b := by
  cases x with
  | error => exact ⟨nofun,nofun⟩
  | ok => simp

/-! ## What comes next -/

theorem punct?_eq : punct? tokens = some (p,rest) ↔ ∃ tok, tokens = tok :: rest ∧ tok.kind = .punct p := by
  cases tokens with
  | nil => simp [punct?]
  | cons tok more =>
    simp only [punct?]
    split <;> grind

theorem mark?_eq {read : Punct → Option α} :
    mark? read tokens = some (a,rest) ↔ ∃ tok, tokens = tok :: rest ∧ Marks read tok a := by
  simp only [mark?,Option.bind_eq_some_iff,Option.map_eq_some_iff,Prod.exists,punct?_eq,Marks]
  grind

theorem expect_eq : expect p tokens = .ok rest ↔ ∃ tok, tokens = tok :: rest ∧ tok.kind = .punct p := by
  rw [← punct?_eq,expect]
  split <;> grind

/-- The next operator, if there is one, binds less than `level`. -/
def Below (level : Nat) (tokens : List Token) : Prop :=
  ∀ op rest, mark? ofPunct? tokens = some (op,rest) → op.precedence < level

theorem Below.all (tokens : List Token) : Below 12 tokens := fun op _ _ => by
  have := op.precedence_range
  omega

theorem Below.mono (below : Below level tokens) (le : level ≤ upper) : Below upper tokens :=
  fun op rest next => Nat.lt_of_lt_of_le (below op rest next) le

theorem Below.cons {tok : Token} (mark : tok.kind = .punct p) (other : ofPunct? p = none) :
    Below level (tok :: rest) := by
  intro op more next
  obtain ⟨_,same,q,kind,found⟩ := mark?_eq.mp next
  cases same
  cases mark.symm.trans kind
  cases other.symm.trans found

theorem operators_done (below : Below least tokens) (fuel : 1 ≤ left) :
    operators left depth least v tokens = .ok (v,tokens) := by
  obtain ⟨left,rfl⟩ := Nat.exists_eq_add_of_le' fuel
  rw [operators]
  split
  next => rfl
  next op rest next => rw [if_pos (below op rest next)]

/-- Behind an expression there is neither an operator nor a question mark. -/
structure Ended (tokens : List Token) : Prop where
  operator : Below 1 tokens
  question : ∀ rest, punct? tokens ≠ some (.question,rest)

theorem ended_cons {tok : Token} (mark : tok.kind = .punct p) (other : ofPunct? p = none)
    (question : p ≠ .question) : Ended (tok :: rest) :=
  ⟨.cons mark other,fun more next => by grind [punct?_eq]⟩

/-! ## Every writing is read -/

/-- What the reading functions make of a writing of a tree with this value. -/
structure Read (depth level : Nat) (tokens : List Token) (v : Value) : Prop where
  operand : level = 11 → ∀ fuel rest, 4 * (tokens ++ rest).length + 1 ≤ fuel →
    unary fuel depth (tokens ++ rest) = .ok (v,rest)
  operators : 1 ≤ level → ∀ least ≤ level, ∀ fuel rest, Below (level + 1) rest →
    4 * (tokens ++ rest).length + 2 ≤ fuel → ∃ left, 4 * rest.length + 1 ≤ left ∧
      binary fuel depth least (tokens ++ rest) = operators left depth least v rest
  whole : level = 0 → ∀ fuel rest, Ended rest → 4 * (tokens ++ rest).length + 3 ≤ fuel →
    expr fuel depth (tokens ++ rest) = .ok (v,rest)

namespace Read

theorem of_operand (operand : ∀ fuel rest, 4 * (tokens ++ rest).length ≤ fuel →
    unary (fuel + 1) depth (tokens ++ rest) = .ok (v,rest)) : Read depth 11 tokens v where
  operand _ fuel rest enough := by
    obtain ⟨fuel,rfl⟩ := Nat.exists_eq_add_of_le' (Nat.one_le_of_lt enough)
    exact operand fuel rest (by omega)
  whole := nofun
  operators _ least _ fuel rest _ enough := by
    obtain ⟨fuel,rfl⟩ := Nat.exists_eq_add_of_le' (Nat.le_of_add_left_le enough)
    refine ⟨fuel + 1,by simp at enough; omega,?_⟩
    rw [binary,operand fuel rest (by omega)]
    rfl

theorem closed (read : Read depth least tokens v) (positive : 1 ≤ least) (below : Below least rest)
    (enough : 4 * (tokens ++ rest).length + 2 ≤ fuel) :
    binary fuel depth least (tokens ++ rest) = .ok (v,rest) := by
  obtain ⟨left,more,eq⟩ := read.operators positive least (Nat.le_refl _) fuel rest (below.mono (by omega)) enough
  rw [eq,operators_done below (by omega)]

theorem lift (read : Read depth (level + 1) tokens v) (low : level < 11) : Read depth level tokens v where
  operand h := by omega
  operators positive least le fuel rest below enough :=
    read.operators (by omega) least (by omega) fuel rest (below.mono (by omega)) enough
  whole zero fuel rest ended enough := by
    subst zero
    obtain ⟨fuel,rfl⟩ := Nat.exists_eq_add_of_le' (Nat.one_le_of_lt enough)
    rw [expr,read.closed (Nat.le_refl _) ended.operator (by omega),ok_bind]
    dsimp only
    split
    next h => exact absurd h (ended.question _)
    next => rfl

end Read

theorem Written.read (written : Written depth level t tokens) :
    ∀ v, t.value = .ok v → Read depth level tokens v := by
  induction written with
  | @operand depth _ tok room _ =>
    intro v value
    refine .of_operand fun fuel rest enough => ?_
    have plain : punct? ([tok] ++ rest) = none := by
      simp only [punct?,cons_append]
      split
      next h => simp [Tree.value,h,operandValue] at value
      next => rfl
    rw [Tree.value] at value
    rw [unary,if_neg (by omega),mark?,plain]
    simp [primary,value,Except.map]
  | @signed depth tok sign t tokens room mark inner ih =>
    intro v value
    obtain ⟨w,inside,⟨⟩⟩ := bind_eq_ok_iff.mp value
    refine .of_operand fun fuel rest enough => ?_
    rw [unary,if_neg (by omega),cons_append,mark?_eq.mpr ⟨tok,rfl,mark⟩]
    simp [(ih w inside).operand rfl fuel rest (by simp at enough ⊢; omega)]
  | @parens depth t tokens tok last room opening inner closing ih =>
    intro v value
    refine .of_operand fun fuel rest enough => ?_
    have step := (ih v value).whole rfl fuel (last :: rest) (ended_cons closing rfl (by decide)) (by simp at enough ⊢; omega)
    have first : punct? (tok :: (tokens ++ last :: rest)) = some (.lparen,_) := punct?_eq.mpr ⟨tok,rfl,opening⟩
    rw [unary,if_neg (by omega)]
    simp [mark?,first,Sign.ofPunct?,step,expect_eq.mpr ⟨last,rfl,closing⟩]
  | @binary tok op depth l before r after mark left right ihLeft ihRight =>
    intro v value
    obtain ⟨a,first,value⟩ := bind_eq_ok_iff.mp value
    obtain ⟨b,second,value⟩ := bind_eq_ok_iff.mp value
    have range := op.precedence_range
    refine ⟨fun _ => by omega,fun positive least le fuel rest below enough => ?_,fun _ => by omega⟩
    have next : mark? ofPunct? (tok :: (after ++ rest)) = some (op,after ++ rest) := mark?_eq.mpr ⟨tok,rfl,mark⟩
    have own : Below (op.precedence + 1) (tok :: (after ++ rest)) := by
      intro other more h
      grind
    obtain ⟨left,more,eq⟩ := (ihLeft a first).operators positive least le fuel _ own (by simp at enough ⊢; omega)
    obtain ⟨left,rfl⟩ := Nat.exists_eq_add_of_le' (Nat.one_le_of_lt more)
    have step : Condition.binary left depth (op.precedence + 1) (after ++ rest) = .ok (b,rest) :=
      (ihRight b second).closed (by omega) below (by simp at more ⊢; omega)
    refine ⟨left,by simp at more; omega,?_⟩
    rw [append_assoc,cons_append,eq,operators,next]
    simp [Nat.not_lt.mpr le,step,value]
  | @choice depth c asked y first n second tok sep cond mark yes colon no ihCond ihYes ihNo =>
    intro v value
    obtain ⟨a,h₁,value⟩ := bind_eq_ok_iff.mp value
    obtain ⟨b,h₂,value⟩ := bind_eq_ok_iff.mp value
    obtain ⟨d,h₃,⟨⟩⟩ := bind_eq_ok_iff.mp value
    refine ⟨fun _ => by omega,fun _ => by omega,fun _ fuel rest ended enough => ?_⟩
    obtain ⟨fuel,rfl⟩ := Nat.exists_eq_add_of_le' (Nat.one_le_of_lt enough)
    have question : punct? (tok :: (first ++ sep :: (second ++ rest))) = some (.question,_) :=
      punct?_eq.mpr ⟨tok,rfl,mark⟩
    have asking : Condition.binary fuel depth 1 (asked ++ tok :: (first ++ sep :: (second ++ rest))) = .ok (a,_) :=
      (ihCond a h₁).closed (Nat.le_refl _) (.cons mark rfl) (by simp at enough ⊢; omega)
    have taking := (ihYes b h₂).whole rfl fuel (sep :: (second ++ rest)) (ended_cons colon rfl (by decide))
      (by simp at enough ⊢; omega)
    have leaving := (ihNo d h₃).whole rfl fuel rest ended (by simp at enough ⊢; omega)
    simp only [append_assoc,cons_append]
    rw [expr,asking]
    simp [question,taking,expect_eq.mpr ⟨sep,rfl,colon⟩,leaving]
  | lift low inner ih => exact fun v value => (ih v value).lift low

/-! ## Only writings are read -/

/-- The tokens before `rest` write a tree with this value. -/
def Reads (depth level : Nat) (tokens : List Token) (v : Value) (rest : List Token) : Prop :=
  ∃ before t, tokens = before ++ rest ∧ Written depth level t before ∧ t.value = .ok v

/-- Whatever the reading functions return with this fuel has been written. -/
structure Sound (fuel : Nat) : Prop where
  expr : expr fuel depth tokens = .ok (v,rest) → Reads depth 0 tokens v rest
  binary : least ≤ 11 → binary fuel depth least tokens = .ok (v,rest) →
    Reads depth least tokens v rest ∧ Below least rest
  operators : least ≤ level → level ≤ 11 → Written depth level t before → t.value = .ok lhs →
    Below (level + 1) tokens → operators fuel depth least lhs tokens = .ok (v,rest) →
    Reads depth least (before ++ tokens) v rest ∧ Below least rest
  unary : unary fuel depth tokens = .ok (v,rest) → Reads depth 11 tokens v rest

namespace Sound

theorem expr_succ (sound : Sound fuel) (run : Condition.expr (fuel + 1) depth tokens = .ok (v,rest)) :
    Reads depth 0 tokens v rest := by
  rw [Condition.expr,bind_eq_ok_iff] at run
  obtain ⟨⟨cond,mid⟩,asked,run⟩ := run
  obtain ⟨⟨first,c,rfl,writes,value⟩,-⟩ := sound.binary (by omega) asked
  dsimp only at run
  split at run
  next more question =>
    obtain ⟨tok,rfl,mark⟩ := punct?_eq.mp question
    simp only [bind_eq_ok_iff,expect_eq] at run
    obtain ⟨⟨yes,_⟩,taken,tail,⟨sep,rfl,between⟩,⟨no,tail⟩,left,⟨⟩⟩ := run
    obtain ⟨second,y,rfl,writesYes,valueYes⟩ := sound.expr taken
    obtain ⟨third,n,rfl,writesNo,valueNo⟩ := sound.expr left
    refine ⟨_,.choice c y n,?_,writes.choice mark writesYes between writesNo,?_⟩
    · simp
    · simp [Tree.value,value,valueYes,valueNo]
  next =>
    cases run
    exact ⟨first,c,rfl,writes.lift (by omega),value⟩

theorem binary_succ (sound : Sound fuel) (le : least ≤ 11)
    (run : Condition.binary (fuel + 1) depth least tokens = .ok (v,rest)) :
    Reads depth least tokens v rest ∧ Below least rest := by
  rw [Condition.binary,bind_eq_ok_iff] at run
  obtain ⟨⟨lhs,mid⟩,operand,run⟩ := run
  obtain ⟨before,t,rfl,writes,value⟩ := sound.unary operand
  exact sound.operators le (Nat.le_refl _) writes value (.all mid) run

theorem operators_succ (sound : Sound fuel) (le : least ≤ level) (high : level ≤ 11)
    (writes : Written depth level t before) (value : t.value = .ok lhs) (below : Below (level + 1) tokens)
    (run : Condition.operators (fuel + 1) depth least lhs tokens = .ok (v,rest)) :
    Reads depth least (before ++ tokens) v rest ∧ Below least rest := by
  rw [Condition.operators] at run
  split at run
  next none =>
    cases run
    exact ⟨⟨before,t,rfl,writes.descend le high,value⟩,fun op more h => by simp [none] at h⟩
  next op more next =>
    split at run
    next low =>
      cases run
      refine ⟨⟨before,t,rfl,writes.descend le high,value⟩,fun other rest h => ?_⟩
      rw [next] at h
      cases h
      exact low
    next reached =>
      obtain ⟨tok,rfl,mark⟩ := mark?_eq.mp next
      have tight := below op more next
      have range := op.precedence_range
      simp only [bind_eq_ok_iff] at run
      obtain ⟨⟨rhs,tail⟩,right,w,applied,run⟩ := run
      obtain ⟨⟨after,r,rfl,writesRight,valueRight⟩,under⟩ := sound.binary (by omega) right
      -- The operator with both its operands is the next left operand.
      have whole := (writes.descend (by omega) high).binary mark writesRight
      have valueWhole : (Tree.binary op t r).value = .ok w := by simp [Tree.value,value,valueRight,applied]
      have result := sound.operators (by omega) (by omega) whole valueWhole under run
      rwa [append_assoc] at result

theorem unary_succ (sound : Sound fuel) (run : Condition.unary (fuel + 1) depth tokens = .ok (v,rest)) :
    Reads depth 11 tokens v rest := by
  rw [Condition.unary] at run
  split at run
  next => cases run
  next deep =>
    have room : depth < maxDepth := Nat.lt_of_not_le deep
    split at run
    next sign more next =>
      obtain ⟨tok,rfl,mark⟩ := mark?_eq.mp next
      obtain ⟨⟨w,_⟩,inner,⟨⟩⟩ := bind_eq_ok_iff.mp run
      obtain ⟨before,t,rfl,writes,value⟩ := sound.unary inner
      exact ⟨tok :: before,.signed sign t,rfl,.signed room mark writes,by simp [Tree.value,value]⟩
    next =>
      split at run
      next next =>
        obtain ⟨tok,rfl,opening⟩ := punct?_eq.mp next
        simp only [bind_eq_ok_iff,expect_eq] at run
        obtain ⟨⟨w,_⟩,inner,_,⟨last,rfl,closing⟩,⟨⟩⟩ := run
        obtain ⟨before,t,rfl,writes,value⟩ := sound.expr inner
        exact ⟨_,t,by simp,.parens room opening writes closing,value⟩
      next =>
        cases tokens with
        | nil => cases run
        | cons tok more =>
          cases valid : operandValue tok.kind with
          | error => simp [primary,valid,Except.map] at run
          | ok w =>
            simp only [primary,valid] at run
            cases run
            exact ⟨[tok],_,rfl,.operand room valid,valid⟩

end Sound

theorem sound (fuel : Nat) : Sound fuel := by
  induction fuel with
  | zero => constructor <;> simp [expr,binary,operators,unary]
  | succ fuel ih => exact ⟨ih.expr_succ,ih.binary_succ,ih.operators_succ,ih.unary_succ⟩

/-! ## Conditions -/

/-- A run ends with an error that was reported in this state. -/
def Reported (pp : Preprocessor) (result : EStateM.Result Stop Preprocessor α) : Prop :=
  ∃ e final, result = .error (.failed e) final ∧ final.diagnostics.errorCount = pp.diagnostics.errorCount + 1

def numeral (text : String) : Token := { kind := .number text, line := 1 }

def sign (p : Punct) : Token := { kind := .punct p, line := 1 }

/-- A product under a sum, on the left of a subtraction. -/
def sum : List Token := [numeral "1",sign .plus,numeral "2",sign .star,numeral "3",sign .minus,numeral "7"]

end OnePass.Condition
