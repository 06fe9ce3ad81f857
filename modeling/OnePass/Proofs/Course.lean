import OnePass.Proofs.Declarations
import OnePass.Proofs.OperandsUnit

/-! # The course of a compilation

The state of a compiler changes by steps of a few kinds. -/
namespace OnePass

open Elf Compiler Compile

namespace Compiler

/-- The entity is there to stay, with the section that it asks for. -/
def Lasts (s : Compiler) (id : EntityId) : Prop := id < s.scope.entities.size ∧ (s.scope.get id).Lasting

/-- Code or data may go to the section. -/
def Claims (s : Compiler) (sec : SectionId) : Prop :=
  sec ∈ [s.arena.text,s.arena.data,s.arena.bss] ∨ ∃ id, s.Lasts id ∧ (s.scope.get id).section_ = some sec

end Compiler

/-- Only what was read, reported and computed has changed. -/
structure Aside (s t : Compiler) : Prop where
  holdings : t.holdings = s.holdings
  reported : s.pre.account.Follows t.pre.account

namespace Aside

@[grind ←] theorem of_eq (holdings : t.holdings = s.holdings) (pre : t.pre = s.pre) : Aside s t :=
  ⟨holdings,pre ▸ .refl⟩

theorem arena (aside : Aside s t) : t.arena = s.arena := congrArg Holdings.arena aside.holdings

theorem scope (aside : Aside s t) : t.scope = s.scope := congrArg Holdings.scope aside.holdings

theorem text (aside : Aside s t) : t.text = s.text := congrArg Holdings.text aside.holdings

theorem deferred (aside : Aside s t) : t.deferred = s.deferred := congrArg Holdings.deferred aside.holdings

end Aside

inductive Step : Compiler → Compiler → Prop where
  | aside {s t : Compiler} (same : Aside s t) : Step s t
  | declare {s : Compiler} {scope : Scope} (declares : s.scope.Declares scope) : Step s { s with scope }
  | direct {s : Compiler} {sec : SectionId} (claims : s.Claims sec) : Step s { s with text := sec }
  | defer {s : Compiler} {deferred : Array DeferredFunction}
    (lasting : ∀ f ∈ deferred.toList, s.Lasts f.entity) : Step s { s with deferred }
  | emit (s : Compiler) (instr : X86.Instr) : Step s (s.emit instr)
  | fill (s : Compiler) (hole : Nat) (value : Int32) : Step s (s.fill hole value)
  | align {s : Compiler} {sec : SectionId} (claims : s.Claims sec) (align : UInt64) :
    Step s { s with arena := s.arena.update sec fun section_ => (section_.alignTo align).2 }
  | grow {s : Compiler} {sec : SectionId} {more offset : Nat} {grown : Section} (claims : s.Claims sec)
    (room : (s.arena.get sec).grow? more = some (offset,grown)) :
    Step s { s with arena := s.arena.update sec fun _ => grown }
  | patch {s : Compiler} {sec : SectionId} (claims : s.Claims sec) (offset : Nat) (bytes : Bytes) :
    Step s { s with arena := s.arena.update sec (·.patch offset bytes) }
  | make (s : Compiler) (name : String) (extra : UInt32) :
    Step s { s with arena := (s.arena.create name SectionType.progbits (SectionFlag.alloc ||| extra)).2 }
  | relocate {s : Compiler} {sec : SectionId} (claims : s.Claims sec) (rel : Relocation) :
    Step s { s with arena := s.arena.putRelocation s.arena.symtab sec rel }
  | refer {s : Compiler} {id : EntityId} {settings : Settings} {symbol : Nat} {arena : Arena}
    (unbound : (s.scope.get id).symbol = 0)
    (added : s.arena.addSymbol s.arena.symtab (symbolEntry (s.scope.get id) SectionIndex.undef 0 0)
      (externalName settings s.scope.structs (s.scope.get id)) = .ok (symbol,arena)) :
    Step s { s with arena, scope := s.scope.update id ({ · with symbol }) }
  | define {s : Compiler} {id : EntityId} {settings : Settings} {index : UInt16} {value size : UInt64} {symbol : Nat}
    {arena : Arena} (lasts : s.Lasts id) (unbound : (s.scope.get id).symbol = 0)
    (added : s.arena.addSymbol s.arena.symtab (symbolEntry (s.scope.get id) index value size)
      (externalName settings s.scope.structs (s.scope.get id)) = .ok (symbol,arena)) :
    Step s { s with arena, scope := s.scope.update id ({ · with symbol }) }
  | redefine {s : Compiler} {id : EntityId} (bound : (s.scope.get id).symbol ≠ 0) (index : UInt16) (value size : UInt64) :
    Step s { s with
      arena := s.arena.setSymbol s.arena.symtab (s.scope.get id).symbol
        { s.arena.symbol s.arena.symtab (s.scope.get id).symbol with value, size, index } }

/-- Any number of steps. -/
abbrev Course : Compiler → Compiler → Prop := Relation.ReflTransGen Step

/-! ## What steps keep -/

namespace Compiler

variable {s t : Compiler} {id : EntityId}

theorem emit_holdings (s : Compiler) (instr : X86.Instr) :
    (s.emit instr).scope = s.scope ∧ (s.emit instr).text = s.text ∧ (s.emit instr).deferred = s.deferred ∧
      (s.emit instr).pre = s.pre := by
  unfold emit
  split <;> exact ⟨rfl,rfl,rfl,rfl⟩

theorem fill_holdings (s : Compiler) (hole : Nat) (value : Int32) :
    (s.fill hole value).scope = s.scope ∧ (s.fill hole value).text = s.text ∧
      (s.fill hole value).deferred = s.deferred ∧ (s.fill hole value).pre = s.pre := by
  unfold fill
  split <;> exact ⟨rfl,rfl,rfl,rfl⟩

def roots (s : Compiler) : List SectionId := [s.arena.text,s.arena.data,s.arena.bss]

theorem roots_relocate (s : Compiler) (sec : SectionId) (rel : Relocation) :
    ({ s with arena := s.arena.putRelocation s.arena.symtab sec rel } : Compiler).roots = s.roots := by
  obtain ⟨text,data,bss⟩ := s.arena.putRelocation_roots s.arena.symtab sec rel
  rw [roots,text,data,bss,roots]

theorem emit_roots (s : Compiler) (instr : X86.Instr) : (s.emit instr).roots = s.roots := by
  cases code : s.noCode with
  | true => rw [emit_quiet code]
  | false =>
    cases opened : instr.encode.fixup with
    | none => rw [emit_plain code opened]; rfl
    | some fixup => rw [emit_open code opened]; exact s.roots_relocate s.text (s.relocation fixup)

theorem fill_roots (s : Compiler) (hole : Nat) (value : Int32) : (s.fill hole value).roots = s.roots := by
  unfold fill
  split <;> rfl

theorem Lasts.mono (lasts : s.Lasts id) (ext : s.scope.Extends t.scope) : t.Lasts id :=
  ext.lasting lasts

theorem Claims.mono (claims : s.Claims sec) (ext : s.scope.Extends t.scope)
    (roots : t.roots = s.roots) : t.Claims sec := by
  refine claims.imp (fun root => (roots ▸ root : sec ∈ t.roots)) ?_
  rintro ⟨id,lasts,asks⟩
  exact ⟨id,lasts.mono ext,((ext.kept id lasts.1).lasting lasts.2).1.trans asks⟩

end Compiler

namespace Step

variable (step : Step s t)

include step

theorem «extends» : s.scope.Extends t.scope := by
  have same : s.scope.Extends s.scope := (Scope.Declares.refl _).toExtends
  have given {id : EntityId} symbol (unbound : (s.scope.get id).symbol = 0) :
      s.scope.Extends (s.scope.update id ({ · with symbol })) :=
    .update ⟨rfl,fun some => absurd unbound some,fun lasting => ⟨rfl,lasting⟩⟩
  cases step with
  | aside aside => exact aside.scope ▸ same
  | declare declares => exact declares.toExtends
  | emit => exact (s.emit_holdings _).1 ▸ same
  | fill => exact (s.fill_holdings _ _).1 ▸ same
  | refer unbound _ | define _ unbound _ => exact given _ unbound
  | _ => exact same

theorem roots : t.roots = s.roots := by
  cases step with
  | aside aside => rw [Compiler.roots,aside.arena,Compiler.roots]
  | emit => exact s.emit_roots _
  | fill => exact s.fill_roots _ _
  | make name extra =>
    obtain ⟨text,data,bss⟩ := s.arena.create_roots name SectionType.progbits (SectionFlag.alloc ||| extra)
    rw [roots,text,data,bss,roots]
  | relocate => exact s.roots_relocate _ _
  | refer _ added | define _ _ added => rw [roots,(Arena.addSymbol_framed added).shell,roots]
  | _ => rfl

theorem text : t.text = s.text ∨ s.Claims t.text := by
  cases step with
  | aside aside => exact .inl aside.text
  | direct claims => exact .inr claims
  | emit => exact .inl (s.emit_holdings _).2.1
  | fill => exact .inl (s.fill_holdings _ _).2.1
  | _ => exact .inl rfl

theorem deferred : t.deferred = s.deferred ∨ ∀ f ∈ t.deferred.toList, s.Lasts f.entity := by
  cases step with
  | aside aside => exact .inl aside.deferred
  | defer lasting => exact .inr lasting
  | emit => exact .inl (s.emit_holdings _).2.2.1
  | fill => exact .inl (s.fill_holdings _ _).2.2.1
  | _ => exact .inl rfl

theorem reported : s.pre.account.Follows t.pre.account := by
  cases step with
  | aside aside => exact aside.reported
  | emit => exact (s.emit_holdings _).2.2.2 ▸ .refl
  | fill => exact (s.fill_holdings _ _).2.2.2 ▸ .refl
  | _ => exact .refl

end Step

/-! ## Ledgers

What a step does to the arena can be noted in a ledger, since code and data go where they may go. -/

section Ledgers

variable {s t : Compiler} {l : Ledger}

theorem Compiler.Claims.off (claims : s.Claims sec)
    (tame : s.scope.Tame tables) (books : s.holdings.Books tables l) : sec ∉ tables := by
  rcases claims with root | ⟨id,lasts,asks⟩
  · simp only [List.mem_cons,List.not_mem_nil,or_false] at root
    rcases root with rfl | rfl | rfl
    · exact books.roots.1
    · exact books.roots.2.1
    · exact books.roots.2.2
  · exact (tame.get id).aside lasts.2 sec asks

/-- The ledger can go on until it is about the arena and notes the symbols of all entities. -/
def Elf.Ledger.Reaches (tables : List SectionId) (l : Ledger) (t : Compiler) : Prop :=
  ∃ l', l.Steps tables l' ∧ l'.arena = t.arena ∧
    ∀ id, (t.scope.get id).symbol ≠ 0 → (t.scope.get id).symbol ∈ l'.given

theorem Elf.Ledger.Steps.rooted (steps : l.Steps tables l') (rooted : l.Rooted tables) : l'.Rooted tables := by
  induction steps with
  | refl => exact rooted
  | tail _ step ih => exact step.rooted ih

theorem Holdings.Books.add {id : EntityId} {settings : Settings} {entry : SymbolEntry} {arena : Arena}
    (books : s.holdings.Books tables l) (tame : (s.scope.update id ({ · with symbol })).Tame tables)
    (added : s.arena.addSymbol s.arena.symtab entry
      (externalName settings s.scope.structs (s.scope.get id)) = .ok (symbol,arena)) :
    l.Reaches tables { s with arena, scope := s.scope.update id ({ · with symbol }) } := by
  rw [← show l.arena = s.arena from books.arena] at added
  have given := books.rooted.added added
  refine ⟨_,.single (.add (tame.free given settings) added),rfl,fun other some => ?_⟩
  rw [Scope.get_update] at some ⊢
  split
  · exact List.mem_cons_self
  · next old =>
    rw [if_neg old] at some
    exact List.mem_cons_of_mem _ (books.bound other some)

namespace Step

theorem reaches (step : Step s t) (tame : t.scope.Tame tables) (books : s.holdings.Books tables l) :
    l.Reaches tables t := by
  have tame' := step.extends.tame tame
  obtain ⟨arena,given,writes⟩ := l
  obtain rfl : arena = s.arena := books.arena
  have unchanged : Ledger.Reaches tables ⟨s.arena,given,writes⟩ s := ⟨_,.refl,rfl,books.bound⟩
  have written {arena : Arena} {sec : SectionId} {f : Section → Section} off
      (rewritten : (arena.get sec).Rewritten (f (arena.get sec))) :
      Ledger.Step tables ⟨arena,given,writes⟩ ⟨arena.update sec f,given,writes⟩ :=
    .write (.update _ (List.mem_singleton_self _) rewritten) (List.forall_mem_singleton.mpr off)
  cases step with
  | aside same =>
    refine ⟨_,.refl,same.arena.symm,?_⟩
    rw [same.scope]
    exact books.bound
  | declare declares =>
    refine ⟨_,.refl,rfl,fun id some => ?_⟩
    have same := declares.symbols id some
    rw [← same] at some ⊢
    exact books.bound id some
  | direct | defer => exact unchanged
  | emit instr =>
    cases code : s.noCode with
    | true => rwa [emit_quiet code]
    | false =>
      cases opened : instr.encode.fixup with
      | none =>
        rw [emit_plain code opened]
        exact ⟨_,.single (written books.text (.append _ _)),rfl,books.bound⟩
      | some fixup =>
        rw [emit_open code opened]
        have put : Ledger.Step tables ⟨s.arena,given,writes⟩ _ := .relocate (s.relocation fixup) books.text
        exact ⟨_,.tail (.single put) (written books.text (.append _ _)),rfl,books.bound⟩
  | fill hole value =>
    unfold Compiler.fill
    split
    · exact unchanged
    · exact ⟨_,.single (written books.text (.patch _ _ _)),rfl,books.bound⟩
  | align claims align =>
    exact ⟨_,.single (written (claims.off tame' books) (Section.alignTo_rewritten _ _)),rfl,books.bound⟩
  | grow claims room =>
    refine ⟨_,.single (written (claims.off tame' books) ?_),rfl,books.bound⟩
    rw [Section.grow?_resize room]
    exact .resize _ _
  | patch claims offset bytes => exact ⟨_,.single (written (claims.off tame' books) (.patch _ _ _)),rfl,books.bound⟩
  | make name extra => exact ⟨_,.single (.make _ name extra),rfl,books.bound⟩
  | relocate claims => exact ⟨_,.single (.relocate _ (claims.off tame' books)),rfl,books.bound⟩
  | refer _ added | define _ _ added => exact books.add tame added
  | @redefine id bound index value size =>
    let sym : Symbol := { s.arena.symbol s.arena.symtab (s.scope.get id).symbol with value, size, index }
    have step : Ledger.Step tables ⟨s.arena,given,writes⟩
        ⟨s.arena.setSymbol s.arena.symtab (s.scope.get id).symbol sym,given,_⟩ :=
      .redefine (books.bound id bound) rfl rfl
    exact ⟨_,.single step,rfl,books.bound⟩

theorem books (step : Step s t) (tame : t.scope.Tame tables)
    (books : s.holdings.Books tables l) : ∃ l', l.Steps tables l' ∧ t.holdings.Books tables l' := by
  obtain ⟨l',steps,arena,bound⟩ := step.reaches tame books
  refine ⟨l',steps,arena,steps.rooted books.rooted,?_,?_,bound⟩
  · rcases step.text with same | claims
    · exact (same ▸ books.text : t.text ∉ tables)
    · exact claims.off (step.extends.tame tame) books
  · have roots : t.roots = s.roots := step.roots
    simp only [Compiler.roots,List.cons.injEq,and_true] at roots
    exact roots.1 ▸ roots.2.1 ▸ roots.2.2 ▸ books.roots

end Step

theorem Course.books (course : Course s t) (tame : t.scope.Tame tables)
    (books : s.holdings.Books tables l) : ∃ l', l.Steps tables l' ∧ t.holdings.Books tables l' := by
  induction course with
  | refl => exact ⟨l,.refl,books⟩
  | tail _ step ih =>
    obtain ⟨l₁,steps,books₁⟩ := ih (step.extends.tame tame)
    obtain ⟨l₂,more,books₂⟩ := step.books tame books₁
    exact ⟨l₂,steps.trans more,books₂⟩

end Ledgers

/-- Facts about a state that no step undoes: sections that are claimed, and entities that last. -/
structure Known where
  sections : List SectionId := []
  entities : List EntityId := []

/-- The facts hold of the state, and code and deferred functions have their sections. -/
structure Rests (known : Known) (s : Compiler) : Prop where
  text : s.Claims s.text
  deferred : ∀ f ∈ s.deferred.toList, s.Lasts f.entity
  sections : ∀ sec ∈ known.sections, s.Claims sec
  entities : ∀ id ∈ known.entities, s.Lasts id

theorem Step.rests (step : Step s t) (rests : Rests known s) : Rests known t := by
  have ext := step.extends
  have roots := step.roots
  refine ⟨?_,fun f member => ?_,fun sec member => (rests.sections sec member).mono ext roots,
    fun id member => (rests.entities id member).mono ext⟩
  · rcases step.text with same | claims
    · exact same ▸ rests.text.mono ext roots
    · exact claims.mono ext roots
  · rcases step.deferred with same | lasting
    · exact (rests.deferred f (same ▸ member)).mono ext
    · exact (lasting f member).mono ext

namespace Course

theorem rests (course : Course s t) (rests : Rests known s) : Rests known t := by
  induction course with
  | refl => exact rests
  | tail _ step ih => exact step.rests ih

theorem reported (course : Course s t) : s.pre.account.Follows t.pre.account := by
  induction course with
  | refl => exact .refl
  | tail _ step ih => exact ih.trans step.reported

end Course

/-! ## Computations that go by steps -/

/-- A result that is reached from a state by steps; an error is the one that was reported last. -/
def Arrives {α : Type} (s : Compiler) : EStateM.Result Stop Compiler α → Prop
  | .ok _ t => Course s t
  | .error e t => Course s t ∧ ∀ error, e = .failed error → t.pre.diagnostics.lastError = some error

namespace Arrives

theorem mono (first : Course s t) (arrives : Arrives t result) : Arrives s result := by
  cases result with
  | ok _ _ => exact first.trans arrives
  | error _ _ => exact ⟨first.trans arrives.1,arrives.2⟩

theorem error_step (arrives : Arrives s (.error e t : EStateM.Result Stop Compiler α))
    (step : Step t u) (quiet : u.pre = t.pre) : Arrives s (.error e u : EStateM.Result Stop Compiler β) :=
  ⟨arrives.1.tail step,quiet ▸ arrives.2⟩

theorem reported (arrives : Arrives s result) :
    Reported Account.Follows (fun s => s.pre.account) s.pre.account result := by
  cases result with
  | ok _ _ => exact Course.reported arrives
  | error _ _ => exact ⟨arrives.1.reported,arrives.2⟩

end Arrives

/-- The recursive parts of the grammar go by steps. -/
def Env.Steady (env : Env) : Prop := ∀ g s, Rests {} s → Arrives s (env.solve g s)

/-- The computation goes by steps from every state of which the facts hold. -/
def Theory.course (known : Known) : Theory where
  Holds x := ∀ env : Env, env.Steady → ∀ s, Rests known s → Arrives s (x env s)

abbrev Proceeds (known : Known) {α : Type} (x : CompileM α) : Prop := Keeps (.course known) x

theorem Rests.forget (rests : Rests known s) : Rests {} s :=
  ⟨rests.text,rests.deferred,by simp,by simp⟩

theorem Rests.begin (pre : Preprocessor) (arena : Arena) : Rests {} { pre, arena, text := arena.text } :=
  ⟨.inl List.mem_cons_self,by simp,by simp,by simp⟩

theorem Rests.lasting {id : EntityId} (rests : Rests known s) (lasts : s.Lasts id) :
    Rests { known with entities := id :: known.entities } s := by
  refine ⟨rests.text,rests.deferred,rests.sections,fun other member => ?_⟩
  rcases List.mem_cons.mp member with rfl | old
  · exact lasts
  · exact rests.entities other old

namespace Proceeds

variable {α β : Type}

theorem run (proceeds : Proceeds known x) (env : Env) (steady : env.Steady) (s : Compiler)
    (rests : Rests known s) : Arrives s (x env s) :=
  proceeds.holds env steady s rests

theorem bind_gain (first : Proceeds known x) (more : α → Known)
    (gain : ∀ env s a t, Rests known t → x env s = .ok a t → Rests (more a) t)
    (second : ∀ a, Proceeds (more a) (f a)) : Proceeds known (x >>= f) := by
  refine ⟨fun env steady s rests => ?_⟩
  have arrives := first.run env steady s rests
  rw [run_bind]
  cases run : x env s with
  | ok a t =>
    rw [run] at arrives
    exact ((second a).run env steady t (gain env s a t (Course.rests arrives rests) run)).mono arrives
  | error e t =>
    rwa [run] at arrives

theorem finishing (proceeds : Proceeds known act)
    (aside : ∀ s, Aside s (after s)) (quiet : ∀ s, (after s).pre = s.pre) :
    Proceeds known (finishing act after) := by
  refine ⟨fun env steady s rests => ?_⟩
  have arrives := proceeds.run env steady s rests
  rw [Compile.finishing]
  cases run : act env s with
  | ok a t =>
    rw [run] at arrives
    exact arrives.tail (.aside (aside t))
  | error e t =>
    rw [run] at arrives
    exact arrives.error_step (.aside (aside t)) (quiet t)

theorem change (step : ∀ s, Rests known s → Step s (f s)) : Proceeds known (modify f : CompileM PUnit) :=
  ⟨fun _ _ s rests => .single (step s rests)⟩

theorem changeGet (step : ∀ s, Rests known s → Step s (f s).2) :
    Proceeds known (MonadState.modifyGet f : CompileM α) :=
  ⟨fun _ _ s rests => .single (step s rests)⟩

@[grind ←] theorem modify (aside : ∀ s, Aside s (f s)) : Proceeds known (modify f : CompileM PUnit) :=
  change fun s _ => .aside (aside s)

@[grind ←] theorem modifyGet (aside : ∀ s, Aside s (f s).2) : Proceeds known (MonadState.modifyGet f : CompileM α) :=
  changeGet fun s _ => .aside (aside s)

theorem get_bind (each : ∀ env : Env, env.Steady → ∀ s, Rests known s → Arrives s (f s env s)) :
    Proceeds known (MonadState.get >>= f) :=
  ⟨each⟩

end Proceeds

theorem Compile.fail_arrives (fault : CompileFault) (env : Env) (s : Compiler) :
    Arrives s (fail fault env s : EStateM.Result Stop Compiler α) :=
  ⟨.single (.aside ⟨rfl,.reported .refl (.error .refl _ _)⟩),fun _ same => by cases same; rfl⟩

instance : (Theory.course known).Declares where
  bind first second := Proceeds.bind_gain first (fun _ => known) (fun _ _ _ _ rests _ => rests) second
  pure _ := ⟨fun _ _ _ _ => .refl⟩
  get := ⟨fun _ _ _ _ => .refl⟩
  read := ⟨fun _ _ _ _ => .refl⟩
  modifyGet each := Proceeds.modifyGet fun s => { each s with }
  exhausted := ⟨fun _ _ _ _ => ⟨.refl,by simp⟩⟩
  fail fault := ⟨fun env _ s _ => fail_arrives fault env s⟩
  preprocess {_ act} reports := by
    refine ⟨fun env _ s _ => ?_⟩
    have reported := reports.run env.host s.pre
    simp only [preprocess]
    cases run : act env.host s.pre with
    | ok a pre =>
      rw [run] at reported
      exact .single (.aside ⟨rfl,reported⟩)
    | error e pre =>
      rw [run] at reported
      exact ⟨.single (.aside ⟨rfl,reported.1⟩),reported.2⟩
  declare each := Proceeds.changeGet fun s _ => .declare (each s)

end OnePass
