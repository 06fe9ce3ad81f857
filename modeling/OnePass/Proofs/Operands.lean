import OnePass.Proofs.Traversal

/-! # Operands in use

The operands of an expression stand on a stack, and some of them also take room on the machine stack. An
operator takes operands and leaves its result, and everything else leaves the operands as they are. While
no code is emitted nothing is pushed, and operands that were there before are not even looked at. -/
namespace OnePass

def Value.isSpilled (v : Value) : Bool := v.place == .spilled

@[simp] theorem Value.isSpilled_decayed (v : Value) : v.decayed.isSpilled = v.isSpilled := by
  unfold Value.decayed
  split <;> rfl

namespace Compiler

def spilled (s : Compiler) : Nat := s.values.countP Value.isSpilled

/-- The bytes on the machine stack that belong to no operand: the arguments of calls that are being read. -/
def outgoing (s : Compiler) : Int := s.stackDepth - 8 * s.spilled

end Compiler

/-- The state has at least `n` operands that can be used. Only the latest one is known to take no room on
the machine stack, unless no code is emitted. -/
structure Ready (n : Nat) (s : Compiler) : Prop where
  height : n ≤ s.values.length
  latest : 0 < n → ∀ v ∈ s.values.head?, v.isSpilled = false
  unpushed : s.noCode = true → ∀ v ∈ s.values.take n, v.isSpilled = false

/-- The operands are as they were. -/
structure Same (s s' : Compiler) : Prop where
  noCode : s'.noCode = s.noCode
  noData : s'.noData = s.noData
  values : s'.values = s.values
  stackDepth : s'.stackDepth = s.stackDepth
  develops : s.arena.Develops s'.arena
  unevaluated : s.noCode = true → s.noData = true → s.arena.Refers s'.arena

/-- The operands are as they were, and symbols were at most referred to. -/
structure Referring (s s' : Compiler) : Prop where
  noCode : s'.noCode = s.noCode
  noData : s'.noData = s.noData
  values : s'.values = s.values
  stackDepth : s'.stackDepth = s.stackDepth
  refers : s.arena.Refers s'.arena

/-- `n` operands were used and `m` left in their place. -/
structure Effect (n m : Nat) (s s' : Compiler) : Prop where
  noCode : s'.noCode = s.noCode
  noData : s'.noData = s.noData
  height : s'.values.length + n = s.values.length + m
  outgoing : s'.outgoing = s.outgoing
  below : s.noCode = true → s'.values.drop m = s.values.drop n ∧ s'.stackDepth = s.stackDepth
  ready : Ready m s'
  develops : s.arena.Develops s'.arena
  unevaluated : s.noCode = true → s.noData = true → s.arena.Refers s'.arena

/-- As many operands as before, and nothing pushed that is not an operand. -/
structure Balanced (s s' : Compiler) : Prop where
  noCode : s'.noCode = s.noCode
  noData : s'.noData = s.noData
  height : s'.values.length = s.values.length
  outgoing : s'.outgoing = s.outgoing
  below : s.noCode = true → s'.values = s.values ∧ s'.stackDepth = s.stackDepth
  develops : s.arena.Develops s'.arena

theorem Ready.none (s : Compiler) : Ready 0 s := ⟨Nat.zero_le _,by simp,by simp⟩

namespace Referring

theorem of_idle (idle : Idle s t) : Referring s t :=
  { idle with refers := idle.arena ▸ .refl }

theorem refl (s : Compiler) : Referring s s := of_idle (.refl s)

theorem trans (first : Referring s t) (second : Referring t u) : Referring s u where
  noCode := second.noCode.trans first.noCode
  noData := second.noData.trans first.noData
  values := second.values.trans first.values
  stackDepth := second.stackDepth.trans first.stackDepth
  refers := first.refers.trans second.refers

theorem same (referring : Referring s t) : Same s t :=
  { referring with
    develops := referring.refers.develops
    unevaluated _ _ := referring.refers }

end Referring

namespace Same

theorem refl (s : Compiler) : Same s s := (Referring.refl s).same

theorem trans (first : Same s t) (second : Same t u) : Same s u where
  noCode := second.noCode.trans first.noCode
  noData := second.noData.trans first.noData
  values := second.values.trans first.values
  stackDepth := second.stackDepth.trans first.stackDepth
  develops := first.develops.trans second.develops
  unevaluated code data := (first.unevaluated code data).trans
    (second.unevaluated (first.noCode.trans code) (first.noData.trans data))

theorem outgoing (same : Same s t) : t.outgoing = s.outgoing := by
  simp only [Compiler.outgoing,Compiler.spilled,same.values,same.stackDepth]

theorem ready (same : Same s t) (ready : Ready n s) : Ready n t where
  height := same.values ▸ ready.height
  latest := same.values ▸ ready.latest
  unpushed code := same.values ▸ ready.unpushed (same.noCode ▸ code)

theorem balanced (same : Same s t) : Balanced s t :=
  { same with
    outgoing := same.outgoing
    height := by rw [same.values]
    below _ := ⟨same.values,same.stackDepth⟩ }

end Same

namespace Effect

theorem trans (first : Effect n m s t) (second : Effect m l t u) : Effect n l s u where
  noCode := second.noCode.trans first.noCode
  noData := second.noData.trans first.noData
  height := by have := first.height; have := second.height; omega
  outgoing := second.outgoing.trans first.outgoing
  below code := by
    have below := second.below (first.noCode.trans code)
    rw [below.1,below.2]
    exact first.below code
  ready := second.ready
  develops := first.develops.trans second.develops
  unevaluated code data := (first.unevaluated code data).trans
    (second.unevaluated (first.noCode.trans code) (first.noData.trans data))

theorem of_same (same : Same s t) (ready : Ready n s) : Effect n n s t :=
  { same with
    outgoing := same.outgoing
    height := by rw [same.values]
    below _ := ⟨by rw [same.values],same.stackDepth⟩
    ready := same.ready ready }

/-- Operands further down are not used. The result on top has to be there: without it the next operand
down would be the latest one, and that may have been pushed. -/
theorem frame (j : Nat) (effect : Effect n (m + 1) s t) (ready : Ready (j + n) s) :
    Effect (j + n) (j + (m + 1)) s t := by
  have height := effect.height
  refine ⟨effect.noCode,effect.noData,by omega,effect.outgoing,fun code => ?_,?_,effect.develops,effect.unevaluated⟩
  · obtain ⟨below,depth⟩ := effect.below code
    rw [Nat.add_comm j (m + 1),← List.drop_drop,below,List.drop_drop,Nat.add_comm n j]
    exact ⟨rfl,depth⟩
  · refine ⟨by have := ready.height; omega,fun _ => effect.ready.latest (by omega),fun code v member => ?_⟩
    have quiet := effect.noCode.symm.trans code
    obtain ⟨below,_⟩ := effect.below quiet
    rw [Nat.add_comm j,List.take_add,List.mem_append] at member
    rcases member with own | under
    · exact effect.ready.unpushed code v own
    · rw [below] at under
      apply ready.unpushed quiet v
      rw [Nat.add_comm j,List.take_add]
      exact List.mem_append_right _ under

theorem balanced (effect : Effect 0 0 s t) : Balanced s t := { effect with }

end Effect

theorem Balanced.trans (first : Balanced s t) (second : Balanced t u) : Balanced s u where
  noCode := second.noCode.trans first.noCode
  noData := second.noData.trans first.noData
  height := second.height.trans first.height
  outgoing := second.outgoing.trans first.outgoing
  below code := by
    have below := second.below (first.noCode.trans code)
    rw [below.1,below.2]
    exact first.below code
  develops := first.develops.trans second.develops

/-! ## The grammar's promise -/

/-- An expression leaves one operand; the other parts of the grammar leave none and emit nothing. -/
def Goal.Does : Goal → Compiler → Compiler → Prop
  | .specifiers | .declarator _ => Referring
  | _ => Effect 0 1

def Env.Sound (env : Env) : Prop := ∀ g s a s', env.solve g s = .ok a s' → g.Does s s'

/-! ## Computations that relate the states before and after them -/

/-- The states before and after a computation that succeeds are related. -/
def Theory.relating (R : Compiler → Compiler → Prop) : Theory where
  Holds x := ∀ {env : Env}, env.Sound → ∀ {s a s'}, x env s = .ok a s' → R s s'

instance : Coe (Compiler → Compiler → Prop) Theory := ⟨Theory.relating⟩

/-- A relation that holds of sequences of steps, and of steps that do no more than refer to symbols. -/
class Follows (R : Compiler → Compiler → Prop) : Prop where
  referring : ∀ {s t : Compiler}, Referring s t → R s t
  trans : ∀ {s t u : Compiler}, R s t → R t u → R s u

/-- A relation that also holds of everything that leaves the operands alone. -/
class Spans (R : Compiler → Compiler → Prop) : Prop extends Follows R where
  same : ∀ {s t : Compiler}, Same s t → R s t

instance : Follows Referring := ⟨id,.trans⟩

instance : Spans Same where
  referring := Referring.same
  trans := .trans
  same := id

instance : Spans Balanced where
  referring h := h.same.balanced
  trans := .trans
  same := Same.balanced

theorem iterate_ok {step : α → CompileM (α ⊕ β)} (keeps : α → Compiler → Prop) (ends : β → Compiler → Prop)
    (each : ∀ a s next s', keeps a s → step a env s = .ok next s' →
      match next with
      | .inl a' => keeps a' s'
      | .inr b => ends b s')
    (fuel : Nat) {a : α} {b : β} (start : keeps a s) (run : iterate step fuel a env s = .ok b s') :
    ends b s' := by
  induction fuel generalizing a s with
  | zero => cases run
  | succ fuel ih =>
    obtain ⟨next,t,first,later⟩ := bind_ok.mp run
    have kept := each a s next t start first
    cases next with
    | inl a' => exact ih kept later
    | inr c =>
      cases later
      exact kept

namespace Keeps

variable {R : Compiler → Compiler → Prop} {α : Type}

theorem run (keeps : Keeps R x) (sound : env.Sound)  (run : x env s = .ok a s') : R s s' :=
  keeps.holds sound run

theorem change [Spans R] {f : Compiler → Compiler} (each : ∀ s, Same s (f s)) :
    Keeps R (MonadState.modifyGet fun s => (⟨⟩,f s) : CompileM PUnit) := by
  refine ⟨fun _ s _ _ run => ?_⟩
  cases run
  exact Spans.same (each s)

theorem get_bind (each : ∀ {env : Env}, env.Sound → ∀ {s a s'}, f s env s = .ok a s' → R s s') :
    Keeps R (MonadState.get >>= f : CompileM α) :=
  ⟨each⟩

theorem mono {R' : Compiler → Compiler → Prop} (keeps : Keeps R' x) (weaken : ∀ s t, R' s t → R s t) : Keeps R x :=
  ⟨fun sound _ _ _ run => weaken _ _ (keeps.run sound run)⟩

end Keeps

instance [Follows R] : Theory.Declares R where
  bind first second := by
    refine ⟨fun sound _ _ _ run => ?_⟩
    obtain ⟨a,t,head,tail⟩ := bind_ok.mp run
    exact Follows.trans (first.run sound head) ((second a).run sound tail)
  pure _ := ⟨fun _ s _ _ run => by cases run; exact Follows.referring (.refl s)⟩
  get := ⟨fun _ s _ _ run => by cases run; exact Follows.referring (.refl s)⟩
  read := ⟨fun _ s _ _ run => by cases run; exact Follows.referring (.refl s)⟩
  modifyGet each := ⟨fun _ s _ _ run => by cases run; exact Follows.referring (.of_idle (each s))⟩
  exhausted := ⟨fun _ _ _ _ run => nomatch run⟩
  fail _ := ⟨fun _ _ _ _ run => nomatch run⟩
  preprocess _ := by
    refine ⟨fun _ _ _ _ run => ?_⟩
    rw [Compile.preprocess] at run
    split at run
    · cases run
      exact Follows.referring ⟨rfl,rfl,rfl,rfl,.refl⟩
    · cases run
  declare _ := ⟨fun _ s _ _ run => by cases run; exact Follows.referring ⟨rfl,rfl,rfl,rfl,.refl⟩⟩

end OnePass
