import OnePass.Proofs.CourseGrammar

/-! # Units go by steps

Code goes to the sections that functions ask for, and a function is deferred or compiled once its definition has
settled that section. -/
namespace OnePass

open Elf Proceeds Array

namespace Compile

theorem function_proceeds {id : EntityId} (lasts : id ∈ known.entities) : Proceeds known (function id) := by
  refine .entity_asks lasts fun e _ => ?_
  split
  · refine get_roots fun s => ?_
    have claimed : e.section_.getD s.arena.text ∈ s.roots ++ (e.section_.toList ++ known.sections) := by
      have := getD_mem_toList e.section_ s.arena.text
      grind [Compiler.roots]
    refine .bind (change fun s rests => .direct (rests.sections _ claimed)) fun _ => ?_
    refine (sectionIndex_keeps _).bind fun index => position_keeps.bind fun start => ?_
    refine .bind (bind_proceeds (by exact lasts) _ _ _) fun _ => prologue_proceeds.bind fun hole => ?_
    refine .bind (modify fun _ => .of_eq rfl rfl) fun _ => .bind (inScope_keeps (by grind)) fun _ => ?_
    refine position_keeps.bind fun here => .bind (bind_proceeds (by exact lasts) _ _ _) fun _ => ?_
    exact change fun s _ => .direct (.inl (by simp))
  · exact fail_keeps _

theorem definedFunction_proceeds {id : EntityId} (lasts : id ∈ known.entities) : Proceeds known (do
    let e ← entity id
    if e.flags.isStatic && e.flags.isInline then
      let tokens ← readGroup .lbrace .rbrace
      modify fun s => { s with deferred := s.deferred.push { entity := id, body := tokens } }
    else function id) := by
  refine (entity_keeps id).bind fun e => ?_
  split
  · refine (readGroup_keeps _ _).bind fun tokens => change fun s rests => .defer fun f member => ?_
    rw [toList_push,List.mem_append,List.mem_singleton] at member
    rcases member with old | rfl
    · exact rests.deferred f old
    · exact rests.entities id lasts
  · exact function_proceeds lasts

theorem functionDefinition_proceeds (isFunc : d.type.isFunc = true) :
    Proceeds known (functionDefinition d function) := by
  refine ⟨fun env steady s rests => ?_⟩
  have first := run (declareFunction_keeps d) env steady s rests
  rw [functionDefinition,run_bind]
  cases declared : declareFunction d env s with
  | error e t =>
    rwa [declared] at first
  | ok id t =>
    rw [declared] at first
    refine .mono first ?_
    replace rests := Course.rests first rests
    have type := declareFunction_isFunc isFunc declared
    have inside : id < t.scope.entities.size := by
      by_contra outside
      rw [Scope.get_outside (Nat.le_of_not_lt outside)] at type
      cases type
    by_cases fresh : (t.scope.get id).flags.defined = true
    · simp only [entity,run_bind,run_get,run_pure,if_pos fresh]
      exact fail_arrives _ env t
    · have next := run (attributeSection?_keeps d.attrs true) env steady t rests
      simp only [entity,run_bind,run_get,run_pure,if_neg fresh]
      cases asked : attributeSection? d.attrs true env t with
      | error e u =>
        rwa [asked] at next
      | ok section_ u =>
        rw [asked] at next
        refine .mono next ?_
        replace rests := Course.rests next rests
        have scope := attributeSection?_scope asked
        let define (e : Entity) : Entity := { e with
          type := d.type, flags := { e.flags with defined := true }, section_ := section_.or e.section_ }
        have kept : (u.scope.get id).Kept (define (u.scope.get id)) := by
          refine ⟨rfl,fun _ => ⟨rfl,rfl⟩,fun lasting => ?_⟩
          rw [scope] at lasting
          rcases lasting with defined | object
          · exact absurd defined fresh
          · rw [type] at object
            cases object
        have step : Step u { u with scope := u.scope.update id define } := .declare (.update kept rfl)
        have lasts : Compiler.Lasts { u with scope := u.scope.update id define } id := by
          refine ⟨?_,?_⟩
          · simpa [Scope.update,scope] using inside
          · show ((u.scope.update id define).get id).Lasting
            rw [Scope.get_update,if_pos ⟨rfl,scope ▸ inside⟩]
            exact .inl rfl
        refine .mono (.single step) ?_
        exact (definedFunction_proceeds List.mem_cons_self).run env steady _ ((step.rests rests).lasting lasts)

@[grind ←] instance : Proceeds known externalDeclaration := by
  have declares : Proceeds known (declaration (some function)) :=
    declaration_keeps (by simpa using fun _ => functionDefinition_proceeds)
  unfold externalDeclaration
  grind

@[grind ←] instance : Proceeds known checkOperands := by
  unfold checkOperands
  grind

@[grind ←] instance (index : Nat) : Proceeds known (deferredFunction index) := by
  refine .get_bind fun env steady s rests => ?_
  cases found : s.deferred[index]? with
  | none => exact .refl
  | some f =>
    have member : f ∈ s.deferred.toList := List.mem_iff_getElem?.mpr ⟨index,by simpa using found⟩
    have marked {known : Known} s (rests : Rests known s) : ∀ f ∈
        (s.deferred.modify index ({ · with body := [], done := true })).toList, s.Lasts f.entity := by
      intro g member
      obtain ⟨i,below,rfl⟩ := List.mem_iff_getElem.mp member
      simp only [length_toList,size_modify] at below
      simp only [getElem_toList,getElem_modify]
      have known := rests.deferred s.deferred[i] (getElem_mem_toList below)
      split <;> exact known
    have compiled : Proceeds { known with entities := f.entity :: known.entities } (do
        modify fun s => { s with deferred := s.deferred.modify index ({ · with body := [], done := true }) }
        rewind f.body
        function f.entity) := by
      refine .bind (change fun s rests => .defer (marked s rests)) fun _ => ?_
      exact (rewind_keeps _).bind fun _ => function_proceeds List.mem_cons_self
    exact compiled.run env steady s (rests.lasting (rests.deferred f member))

@[grind ←] instance : Proceeds known deferredFunctions := by
  unfold deferredFunctions
  grind

@[grind ←] instance wholeUnit_proceeds : Proceeds known wholeUnit := by
  unfold wholeUnit
  grind

/-- The recursive parts of the grammar go by steps, however deep they may go. -/
theorem solveWith_arrives (host : Host) (settings : Settings) (fuel : Nat) (g : Goal) (s : Compiler) (rests : Rests {} s) :
    Arrives s (solveWith host settings fuel g s) := by
  induction fuel generalizing g s with
  | zero => exact ⟨.refl,by simp⟩
  | succ fuel ih =>
    exact (readGoal_proceeds g).run { host, settings, solve := solveWith host settings fuel } (fun g s => ih g s) s rests

theorem env_steady (host : Host) (settings : Settings) : (env host settings).Steady :=
  solveWith_arrives host settings host.fuel

end Compile
end OnePass
