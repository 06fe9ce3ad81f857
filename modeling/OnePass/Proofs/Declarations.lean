import OnePass.Proofs.Traversal

/-! # What declarations make of entities

A name that is declared once more keeps its entity, and the entity keeps what is settled of it. -/
namespace OnePass

open Scope EStateM.Result
namespace Compile

open Elf

theorem redeclareFunction_kept (d : Declared) (e : Entity) : e.Kept (redeclareFunction d e) where
  name := rfl
  bound some := ⟨rfl,by simp [redeclareFunction,some]⟩
  lasting lasting := by
    refine ⟨rfl,lasting.imp id fun object => ?_⟩
    unfold redeclareFunction
    split
    · next old new => simp [old,CType.isFunc] at object
    · exact object

theorem redeclareObject_kept (d : Declared) (e : Entity) : e.Kept (redeclareObject d e) where
  name := rfl
  bound some := ⟨rfl,by simp [redeclareObject,some]⟩
  lasting lasting := by
    refine ⟨rfl,lasting.imp id fun object => ?_⟩
    unfold redeclareObject
    split
    · next array =>
      cases type : d.type with
      | array => rfl
      | _ => simp [type,CType.arrayLength?] at array
    · exact object

theorem redeclareFunction_type (d : Declared) (e : Entity) :
    (redeclareFunction d e).type = d.type ∨ (redeclareFunction d e).type = e.type :=
  ite_eq_or_eq _ _ _

/-! ## Symbols -/

def symbolEntry (e : Entity) (index : UInt16) (value size : UInt64) : SymbolEntry :=
  { info := Symbol.makeInfo (bindingOf e.flags) (symbolType e.type), index, value, size }

theorem bind?_cases (id : EntityId) (index : UInt16) (value size : UInt64) (env : Env) (s : Compiler) :
    ((s.scope.get id).symbol ≠ 0 ∧ bind? id index value size env s = .ok none { s with
      arena := s.arena.setSymbol s.arena.symtab (s.scope.get id).symbol
        { s.arena.symbol s.arena.symtab (s.scope.get id).symbol with value, size, index } }) ∨
    ((s.scope.get id).symbol = 0 ∧ ∃ symbol arena, s.arena.addSymbol s.arena.symtab
        (symbolEntry (s.scope.get id) index value size)
        (externalName env.settings s.scope.structs (s.scope.get id)) = .ok (symbol,arena) ∧
      bind? id index value size env s = .ok none { s with arena, scope := s.scope.update id ({ · with symbol }) }) ∨
    ((s.scope.get id).symbol = 0 ∧ ∃ twice, bind? id index value size env s = .ok (some twice) s) := by
  simp only [bind?,settings,run_bind,run_read,run_pure,run_modifyGet,bne_iff_ne]
  by_cases bound : (s.scope.get id).symbol ≠ 0
  · exact .inl ⟨bound,by rw [if_pos bound]⟩
  · refine .inr ?_
    rw [if_neg bound]
    have unbound : (s.scope.get id).symbol = 0 := not_not.mp bound
    cases added : s.arena.addSymbol s.arena.symtab (symbolEntry (s.scope.get id) index value size)
        (externalName env.settings s.scope.structs (s.scope.get id)) with
    | ok result =>
      obtain ⟨symbol,arena⟩ := result
      refine .inl ⟨unbound,symbol,arena,rfl,?_⟩
      rw [symbolEntry] at added
      rw [added]
    | error twice =>
      refine .inr ⟨unbound,twice,?_⟩
      rw [symbolEntry] at added
      rw [added]

/-- An entity that is referred to is used. Where it has no symbol yet, it gets an undefined one. -/
theorem symbolOf_run (id : EntityId) (env : Env) (s : Compiler) :
    let noted : Compiler :=
      { s with scope := s.scope.update id fun e => { e with flags := { e.flags with used := true } } }
    ∃ t, symbolOf id env s = .ok (t.scope.get id).symbol t ∧ (t = noted ∨
      ∃ symbol arena, (noted.scope.get id).symbol = 0 ∧ noted.arena.addSymbol noted.arena.symtab
          (symbolEntry (noted.scope.get id) SectionIndex.undef 0 0)
          (externalName env.settings noted.scope.structs (noted.scope.get id)) = .ok (symbol,arena) ∧
        t = { noted with arena, scope := noted.scope.update id ({ · with symbol }) }) := by
  intro noted
  have run : symbolOf id env s = (do
      if (noted.scope.get id).symbol != 0 then return (noted.scope.get id).symbol
      let _ ← bind? id SectionIndex.undef 0 0
      return (← entity id).symbol) env noted := rfl
  clear_value noted
  rw [run]
  by_cases bound : (noted.scope.get id).symbol ≠ 0
  · rw [if_pos (by simpa using bound)]
    exact ⟨noted,rfl,.inl rfl⟩
  · rw [if_neg (by simpa using bound)]
    rcases bind?_cases id SectionIndex.undef 0 0 env noted with
      ⟨bound',_⟩ | ⟨unbound,symbol,arena,added,run⟩ | ⟨_,_,run⟩
    · exact absurd bound' bound
    · simp only [run_bind,run]
      exact ⟨_,rfl,.inr ⟨symbol,arena,unbound,added,rfl⟩⟩
    · simp only [run_bind,run]
      exact ⟨noted,rfl,.inl rfl⟩

/-! ## Names that are declared -/

variable {env : Env} {id : EntityId}

theorem declare_type (run : declare ns e env s = .ok id s') : (s'.scope.get id).type = e.type := by
  rw [declare,run_modifyGet,ok.injEq] at run
  obtain ⟨rfl,rfl⟩ := run
  rw [push_id,get_pushed (push_entities _ _ _)]

theorem declare_inside (run : declare ns e env s = .ok id s') : id < s'.scope.entities.size := by
  rw [declare,run_modifyGet,ok.injEq] at run
  obtain ⟨rfl,rfl⟩ := run
  rw [push_id,push_entities,Array.size_push]
  exact Nat.lt_succ_self _

theorem lookup?_found (run : lookup? name env s = .ok (some (id,old)) s') : old = s.scope.get id ∧ s' = s := by
  obtain ⟨found,rfl⟩ : (s.scope.find? .ident (.ident name)).map (fun id => (id,s.scope.get id)) = some (id,old) ∧ s = s' := by
    simpa only [lookup?,run_bind,run_get,run_pure,ok.injEq] using run
  obtain ⟨other,_,same⟩ := Option.map_eq_some_iff.mp found
  cases same
  exact ⟨rfl,rfl⟩

/-- An object is declared anew, or it is one that was declared here before with a type that agrees. -/
theorem bindObject_cases (run : bindObject d env s = .ok id s') :
    (∃ e t, e.type = d.type ∧ declare .ident e env t = .ok id s') ∨
    ∃ t : Compiler, (t.scope.get id).type.isFunc = false ∧ (t.scope.get id).type.compatible d.type = true ∧
      s'.scope = t.scope.update id (redeclareObject d) := by
  obtain ⟨found,t,looked,run⟩ := bind_ok.mp run
  cases found with
  | none =>
    obtain ⟨_,t,_,run⟩ := bind_ok.mp run
    exact .inl ⟨_,t,rfl,run⟩
  | some known =>
    obtain ⟨known,old⟩ := known
    obtain ⟨rfl,rfl⟩ := lookup?_found looked
    obtain ⟨here,u,asked,run⟩ := bind_ok.mp run
    cases here with
    | true =>
      obtain rfl := (ok.inj asked).2
      simp only [if_true] at run
      split at run
      · cases run
      · next usable =>
        split at run
        · cases run
        · next agree =>
          cases run
          exact .inr ⟨t,(by simpa using usable : _ ∧ _).2,by simpa using agree,rfl⟩
    | false =>
      obtain ⟨_,t,_,run⟩ := bind_ok.mp run
      exact .inl ⟨_,t,rfl,run⟩

theorem bindObject_lasting (object : d.type.isFunc = false) (run : bindObject d env s = .ok id s') :
    (s'.scope.get id).Lasting := by
  rcases bindObject_cases run with ⟨e,t,type,run⟩ | ⟨t,object,_,scope⟩
  · exact .inr (declare_type run ▸ type ▸ object)
  · rw [scope,get_update]
    split
    · exact ((redeclareObject_kept d _).lasting (.inr object)).2
    · exact .inr object

theorem bindObject_inside (full : d.type.isVoid = false) (run : bindObject d env s = .ok id s') :
    id < s'.scope.entities.size := by
  rcases bindObject_cases run with ⟨e,t,_,run⟩ | ⟨t,_,agree,scope⟩
  · exact declare_inside run
  · rw [scope,update,Array.size_modify]
    by_contra outside
    rw [get_outside (Nat.le_of_not_lt outside)] at agree
    cases type : d.type with
    | void => simp [type,CType.isVoid] at full
    | _ => simp [type,CType.compatible,default,instInhabitedEntity.default,instInhabitedCType.default] at agree

theorem declareFunction_isFunc (function : d.type.isFunc = true)
    (run : declareFunction d env s = .ok id s') : (s'.scope.get id).type.isFunc = true := by
  have fresh {t : Compiler} (run : newFunction d env t = .ok id s') : (s'.scope.get id).type.isFunc = true := by
    obtain ⟨sec,u,_,run⟩ := bind_ok.mp run
    obtain ⟨_,_,⟨⟩,run⟩ := bind_ok.mp run
    split at run
    · rw [run_modifyGet,ok.injEq] at run
      obtain ⟨rfl,rfl⟩ := run
      rwa [pushGlobal_id,get_pushed (pushGlobal_entities _ _ _)]
    · exact declare_type run ▸ function
  obtain ⟨found,t,looked,run⟩ := bind_ok.mp run
  cases found with
  | none => exact fresh run
  | some known =>
    obtain ⟨known,old⟩ := known
    obtain ⟨rfl,rfl⟩ := lookup?_found looked
    dsimp only at run
    split at run
    · next usable =>
      have old : (t.scope.get known).type.isFunc = true := (by simpa using usable : _ ∧ _).1
      split at run
      · cases run
      · cases run
        rw [get_update]
        split
        · rcases redeclareFunction_type d (t.scope.get id) with new | same
          · rwa [new]
          · rwa [same]
        · exact old
    · obtain ⟨here,u,_,run⟩ := bind_ok.mp run
      cases here with
      | true => cases run
      | false => exact fresh run

theorem attributeSection?_scope (run : attributeSection? attrs isCode env s = .ok sec s') : s'.scope = s.scope := by
  unfold attributeSection? at run
  cases asked : attrs.section_ with
  | none =>
    rw [asked] at run
    cases run
    rfl
  | some name =>
    rw [asked] at run
    obtain ⟨_,t,found,run⟩ := bind_ok.mp run
    cases run
    simp only [namedSection,run_modifyGet] at found
    split at found <;> cases found <;> rfl

end Compile
end OnePass
