import OnePass.Proofs.Operands
import OnePass.Proofs.TraversalUnit

/-! # Steps that leave the operands alone

Emitting instructions, referring to symbols and giving objects their storage. Storage belongs to what is evaluated,
so nothing is said of it about operands that are not. -/
namespace OnePass

variable {id : EntityId} {env : Env}

namespace Compiler

theorem emit_same (s : Compiler) (instr : X86.Instr) : Same s (s.emit instr) := by
  by_cases code : s.noCode = true
  · rw [emit,if_pos code]
    exact .refl s
  · rw [emit,if_neg code]
    refine ⟨rfl,rfl,rfl,rfl,.append ?_ s.text instr.encode.bytes,fun h => absurd h code⟩
    split
    · exact .refl
    · exact .relocate .refl _ _

theorem fill_same (s : Compiler) (hole : Nat) (value : Int32) : Same s (s.fill hole value) := by
  by_cases code : s.noCode = true
  · rw [fill,if_pos code]
    exact .refl s
  · rw [fill,if_neg code]
    exact ⟨rfl,rfl,rfl,rfl,.patch .refl _ _ _,fun h => absurd h code⟩

end Compiler

/-- The operands are as they were, and something may have been stored. -/
structure Stores (s s' : Compiler) : Prop where
  noCode : s'.noCode = s.noCode
  noData : s'.noData = s.noData
  values : s'.values = s.values
  stackDepth : s'.stackDepth = s.stackDepth
  develops : s.arena.Develops s'.arena

namespace Stores

theorem of_same (same : Same s t) : Stores s t := { same with }

theorem trans (first : Stores s t) (second : Stores t u) : Stores s u where
  noCode := second.noCode.trans first.noCode
  noData := second.noData.trans first.noData
  values := second.values.trans first.values
  stackDepth := second.stackDepth.trans first.stackDepth
  develops := first.develops.trans second.develops

theorem same (stores : Stores s t) (data : s.noData = false) : Same s t :=
  { stores with unevaluated := fun _ none => by simp [data] at none }

theorem balanced (stores : Stores s t) : Balanced s t :=
  { stores with
    height := by rw [stores.values]
    outgoing := by simp only [Compiler.outgoing,Compiler.spilled,stores.values,stores.stackDepth]
    below _ := ⟨stores.values,stores.stackDepth⟩ }

end Stores

/-- A relation that also holds of steps that store something. -/
class Wide (R : Compiler → Compiler → Prop) : Prop extends Spans R where
  stores : ∀ {s t : Compiler}, Stores s t → R s t

instance : Wide Stores where
  referring h := .of_same h.same
  same := .of_same
  trans := .trans
  stores h := h

instance : Wide Balanced where
  stores := Stores.balanced

namespace Compile

/-! ## Instructions -/

instance [Spans R] : Theory.Codes R where
  emit instr := .change fun s => s.emit_same instr
  fill hole value := .change fun s => s.fill_same hole (value s)

/-! ## Symbols -/

@[grind ←] instance modifyEntity_related [Follows R] (id : EntityId) (f : Entity → Entity) : Keeps R (modifyEntity id f) := by
  refine ⟨fun _ s _ _ run => ?_⟩
  cases run
  exact Follows.referring ⟨rfl,rfl,rfl,rfl,.refl⟩

@[grind ←] instance symbolOf_keeps [Follows R] (id : EntityId) : Keeps R (symbolOf id) := by
  refine ⟨fun {env} _ s a s' run => Follows.referring ?_⟩
  obtain ⟨t,ran,same | ⟨symbol,arena,_,added,same⟩⟩ := symbolOf_run id env s
  · cases ran.symm.trans run
    exact same ▸ ⟨rfl,rfl,rfl,rfl,.refl⟩
  · cases ran.symm.trans run
    exact same ▸ ⟨rfl,rfl,rfl,rfl,.refer .refl added⟩

@[grind ←] instance loadSymbol_keeps [Spans R] (dst : X86.Reg) (id : EntityId) (addend : Int64) :
    Keeps R (loadSymbol dst id addend) := by
  unfold loadSymbol
  grind

/-! ## Storage -/

section Storage

variable [Wide R]

@[grind ←] instance (id : EntityId) (index : UInt16) (value size : UInt64) : Keeps R (bind? id index value size) := by
  refine ⟨fun {env} _ s _ _ run => Wide.stores ?_⟩
  rcases bind?_cases id index value size env s with ⟨_,same⟩ | ⟨_,_,_,added,same⟩ | ⟨_,_,same⟩
  · cases same.symm.trans run
    exact ⟨rfl,rfl,rfl,rfl,.redefine .refl _ _⟩
  · cases same.symm.trans run
    exact ⟨rfl,rfl,rfl,rfl,.define .refl added⟩
  · cases same.symm.trans run
    exact .of_same (.refl s)

@[grind ←] instance bind_keeps (id : EntityId) (index : UInt16) (value size : UInt64) :
    Keeps R (bind id index value size) := by
  unfold bind
  grind

theorem namedSection_keeps (name : String) (isCode : Bool) : Keeps R (namedSection name isCode) := by
  refine ⟨fun _ s _ _ run => Wide.stores ?_⟩
  simp only [namedSection,run_modifyGet] at run
  split at run
  · cases run
    exact .of_same (.refl s)
  · cases run
    exact ⟨rfl,rfl,rfl,rfl,.create .refl name _⟩

theorem store_keeps {f : Compiler → Elf.Arena} (develops : ∀ s : Compiler, s.arena.Develops (f s)) :
    Keeps R (modify fun s => { s with arena := f s } : CompileM PUnit) := by
  refine ⟨fun _ s _ _ run => Wide.stores ?_⟩
  cases run
  exact ⟨rfl,rfl,rfl,rfl,develops s⟩

@[grind ←] instance allocStatic_keeps (sec : Elf.SectionId) (size align : UInt64) :
    Keeps R (allocStatic sec size align) := by
  refine .bind (store_keeps fun _ => .align .refl sec _) fun _ => .get_bind fun {env} sound {s a s'} run => Wide.stores ?_
  cases room : (s.arena.get sec).grow? size.toNat with
  | none =>
    simp only [room] at run
    cases run
  | some grown =>
    simp only [room] at run
    cases run
    exact ⟨rfl,rfl,rfl,rfl,.grow .refl room⟩

@[grind ←] instance writeSection_keeps (sec : Elf.SectionId) (offset : Nat) (bytes : Bytes) :
    Keeps R (writeSection sec offset bytes) :=
  store_keeps fun _ => .patch .refl sec offset bytes

end Storage
end Compile
end OnePass
