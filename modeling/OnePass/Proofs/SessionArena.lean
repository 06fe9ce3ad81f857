import OnePass.Proofs.OperandsUnit
import OnePass.Session

/-! # The sections of a session

Configuring a session and preprocessing leave its sections alone, and compiling a unit adds to them. So what is
kept from the beginning on holds after every sequence of units. -/
namespace OnePass.Session

open Elf Directive Compile

def left {α : Type} : EStateM.Result Stop Session α → Session
  | .ok _ s => s
  | .error _ s => s

theorem preprocess_run (act : PreM α) (world : World) (s : Session) : ∃ host,
    preprocess act world s = match act host s.pre with
      | .ok a pre => .ok a { s with pre }
      | .error e pre => .error e { s with pre } := by
  refine ⟨{ fuel := world.fuel, clock := world.clock, files := s.files, textFile := s.textFile },?_⟩
  simp only [preprocess,host,run_bind,run_read,run_get,run_pure]
  split
  · next ran =>
    rw [ran]
    rfl
  · next ran =>
    rw [ran]
    rfl

/-- The action leaves a part of the session as it was. -/
def Fixes {α ν : Type} (view : Session → ν) (x : SessionM α) : Prop := ∀ world s, view (left (x world s)) = view s

namespace Fixes

variable {α β ν : Type} {view : Session → ν}

theorem ok (fixes : Fixes view x) (run : x world s = .ok a s') : view s' = view s := by
  have same := fixes world s
  rwa [run] at same

theorem pure (a : α) : Fixes view (Pure.pure a) := fun _ _ => rfl

theorem get : Fixes view (MonadState.get : SessionM Session) := fun _ _ => rfl

theorem read : Fixes view (MonadReader.read : SessionM World) := fun _ _ => rfl

theorem throw (e : Stop) : Fixes view (MonadExcept.throw e : SessionM α) := fun _ _ => rfl

theorem modify (kept : ∀ s, view (f s) = view s) : Fixes view (modify f : SessionM Unit) :=
  fun _ s => kept s

theorem bind (first : Fixes view x) (second : ∀ a, Fixes view (f a)) : Fixes view (x >>= f) := by
  intro world s
  have before := first world s
  rw [run_bind]
  cases run : x world s with
  | ok a t =>
    rw [run] at before
    exact (second a world t).trans before
  | error e t =>
    rwa [run] at before

theorem finishing (fixes : Fixes view act)
    (kept : ∀ s, view (after s) = view s) : Fixes view (finishing act after) := by
  intro world s
  have before := fixes world s
  rw [Session.finishing]
  cases run : act world s with
  | ok a t | error e t =>
    rw [run] at before
    exact (kept t).trans before

variable (quiet : ∀ (s : Session) (pre : Preprocessor), view { s with pre } = view s)

include quiet

theorem preprocess (act : PreM α) : Fixes view (preprocess act) := by
  intro world s
  obtain ⟨host,eq⟩ := preprocess_run act world s
  rw [eq]
  cases act host s.pre with
  | ok a pre | error e pre => exact quiet s pre

theorem defineBuiltin (name : String) (value : Option String) : Fixes view (defineBuiltin name value) := by
  intro world s
  have before := preprocess quiet (defineText name value) world s
  rw [Session.defineBuiltin,run_tryCatch,define]
  cases run : Session.preprocess (defineText name value) world s with
  | ok a t | error e t =>
    rwa [run] at before

theorem setOutputType (type : OutputType) (world : World) (s : Session) :
    view (left (setOutputType type world s)) = view { s with outputType := type, configured := true } := by
  unfold Session.setOutputType addSysIncludePath
  extract_lets bounds signs
  have boundsFixes : ∀ u, Fixes view (bounds u) := by
    refine fun _ => .bind .get fun _ => ?_
    split
    · exact .defineBuiltin quiet _ _
    · exact .pure _
  have signsFixes : ∀ u, Fixes view (signs u) := by
    refine fun _ => .bind .get fun _ => ?_
    split
    · exact (Fixes.defineBuiltin quiet _ _).bind boundsFixes
    · exact boundsFixes ()
  rw [run_bind]
  refine Fixes.bind .get (fun _ => ?_) world _
  split
  · exact .bind (.modify fun s => quiet s _) signsFixes
  · exact signsFixes ()

theorem configure (typed : ∀ s, view { s with configured := true } = view s) : Fixes view configure := by
  intro world s
  rw [Session.configure,run_bind,run_get]
  dsimp only
  split
  · rw [run_bind]
    exact (setOutputType quiet s.outputType world s).trans (typed s)
  · rfl

end Fixes

def withFile (arena : Arena) (name : String) : Arena :=
  (arena.putSymbol arena.symtab
    { info := Symbol.makeInfo Binding.ownFile SymbolType.file, index := SectionIndex.abs } name).2

theorem withFile_added (arena : Arena) (name : String) : ∃ symbol, arena.addSymbol arena.symtab
    { info := Symbol.makeInfo Binding.ownFile SymbolType.file, index := SectionIndex.abs } name =
      .ok (symbol,withFile arena name) :=
  ⟨_,rfl⟩

def enterUnit (src : Source) : SessionM Unit := do
  configure
  changeDiagnostics Diagnostics.reset
  preprocess (enterFile src)

theorem enterUnit_aside (src : Source) : Fixes Session.arena (enterUnit src) :=
  .bind (.configure (fun _ _ => rfl) fun _ => rfl) fun _ => .bind (.modify fun _ => rfl) fun _ => .preprocess (fun _ _ => rfl) _

theorem compileUnit_entered (run : compileUnit src world s = .ok ⟨⟩ s') : ∃ t u, enterUnit src world s = .ok ⟨⟩ t ∧
      processUnit src.name world t = .ok ⟨⟩ u ∧ s'.arena = u.arena := by
  obtain ⟨_,s₁,configured,run⟩ := bind_ok.mp run
  obtain ⟨_,_,⟨⟩,run⟩ := bind_ok.mp run
  split at run
  · cases run
  · obtain ⟨_,s₂,reset,run⟩ := bind_ok.mp run
    obtain ⟨_,_,⟨⟩,run⟩ := bind_ok.mp run
    obtain ⟨_,s₃,finished,run⟩ := bind_ok.mp run
    have same : s'.arena = s₃.arena := by
      obtain ⟨_,_,⟨⟩,run⟩ := bind_ok.mp run
      split at run
      · cases run
      · cases run
        rfl
    cases ran : (do preprocess (enterFile src); processUnit src.name : SessionM Unit) world s₂ with
    | error e u =>
      simp only [finishing,ran] at finished
      cases finished
    | ok _ u =>
      simp only [finishing,ran] at finished
      cases finished
      obtain ⟨_,t,entered,processed⟩ := bind_ok.mp ran
      refine ⟨t,u,?_,processed,same⟩
      exact bind_ok.mpr ⟨_,s₁,configured,bind_ok.mpr ⟨_,s₂,reset,entered⟩⟩

def unitHost (world : World) (s : Session) : Host :=
  { fuel := world.fuel, clock := world.clock, files := s.files, textFile := s.textFile }

def compiledUnit (name : String) (world : World) (s : Session) : EStateM.Result Stop Compiler Unit :=
  wholeUnit (env (unitHost world s) s.settings)
    { pre := s.pre, arena := withFile s.arena name, text := (withFile s.arena name).text }

theorem processUnit_compiled (run : processUnit name world s = .ok ⟨⟩ s') : s'.arena = s.arena ∨
      s.outputType ≠ .preprocess ∧ ∃ t, compiledUnit name world s = .ok ⟨⟩ t ∧ s'.arena = t.arena := by
  obtain ⟨_,_,⟨⟩,run⟩ := bind_ok.mp run
  cases output : s.outputType with
  | preprocess =>
    rw [output] at run
    exact .inl ((Fixes.preprocess (fun _ _ => rfl) _).ok run)
  | memory | object =>
    all_goals
      rw [output] at run
      refine .inr ⟨by simp,?_⟩
      obtain ⟨_,_,⟨⟩,run⟩ := bind_ok.mp run
      obtain ⟨_,_,⟨⟩,run⟩ := bind_ok.mp run
      obtain ⟨_,_,⟨⟩,run⟩ := bind_ok.mp run
      simp only [compile] at run
      unfold compiledUnit unitHost withFile
      split at run
      · next ran =>
        cases run
        exact ⟨_,ran,rfl⟩
      · cases run

theorem compileUnit_develops (run : compileUnit src world s = .ok ⟨⟩ s') : s.arena.Develops s'.arena := by
  obtain ⟨t,u,entered,processed,same⟩ := compileUnit_entered run
  rw [same,← (enterUnit_aside src).ok entered]
  rcases processUnit_compiled processed with aside | ⟨_,c,ran,arena⟩
  · rw [aside]
    exact .refl
  · obtain ⟨symbol,added⟩ := withFile_added t.arena src.name
    rw [arena]
    exact (Arena.Develops.define .refl added).trans
      (wholeUnit_keeps.run (env_sound _ _) ran).develops

/-- A session in which all units were accepted. Between units anything but its sections may be changed. -/
inductive Accepted : Session → Prop where
  | fresh {s : Session} (start : s.arena = Arena.initial) : Accepted s
  | configured {s s' : Session} (before : Accepted s) (same : s'.arena = s.arena) : Accepted s'
  | unit {s s' : Session} {src : Source} {world : World} (before : Accepted s)
    (compiled : compileUnit src world s = .ok ⟨⟩ s') : Accepted s'

theorem Accepted.develops (accepted : Accepted s) : Arena.initial.Develops s.arena := by
  induction accepted with
  | fresh start => exact start ▸ .refl
  | configured _ same ih => exact same ▸ ih
  | unit _ compiled ih => exact ih.trans (compileUnit_develops compiled)

end OnePass.Session
