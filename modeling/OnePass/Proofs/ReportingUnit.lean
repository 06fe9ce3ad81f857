import OnePass.Proofs.CourseUnit

/-! # Units report their errors

A unit is compiled exactly when no error was counted, and one that fails does so with an error that it
counted and delivered. -/
namespace OnePass

open Compile

instance : Diagnosed Session := ⟨fun s => s.pre.account⟩

namespace Session

variable [Calm R]

instance host_reports : Reports R host := ⟨fun _ _ => Calm.refl _⟩

theorem preprocess_reports (reports : Reports R act) : Reports R (preprocess act) := by
  refine host_reports.bind fun host => Reports.get_bind fun world s => ?_
  have reported := reports.run host s.pre
  cases run : act host s.pre with
  | ok a pre =>
    rwa [run] at reported
  | error e pre =>
    rw [run] at reported
    exact reported.error_congr rfl

theorem processUnit_reports (name : String) : Reports Account.Follows (processUnit name) := by
  refine .bind .get fun s => ?_
  split
  · exact preprocess_reports Printer.print_reports
  all_goals
    refine .bind (.modify fun _ => rfl) fun _ => host_reports.bind fun host => Reports.get_bind fun world s => ?_
    have reported := (wholeUnit_proceeds.run _ (env_steady host s.settings) _
      (Rests.begin s.pre s.arena)).reported
    simp only [compile]
    cases run : wholeUnit (env host s.settings)
        { pre := s.pre, arena := s.arena, text := s.arena.text } with
    | ok a t =>
      rwa [run] at reported
    | error e t =>
      rw [run] at reported
      exact reported.error_congr rfl

/-- A unit without the work around it: its file is entered, and read to the end. -/
def enteredUnit (src : Source) : SessionM Unit := do preprocess (Directive.enterFile src); processUnit src.name

theorem enteredUnit_reports (src : Source) : Reports Account.Notes (enteredUnit src) :=
  .bind (preprocess_reports (Directive.enterFile_reports src)) fun _ => (processUnit_reports src.name).imp .notes

theorem closeUnit_kept (mark : Nat) (s : Session) : (closeUnit mark s).pre.diagnostics = s.pre.diagnostics ∧
    (closeUnit mark s).pre.macros = s.pre.macros.release mark := by
  have popped (files : List Source) (pp : Preprocessor) :
      (files.foldl (fun pp _ => pp.popFile) pp).diagnostics = pp.diagnostics ∧
        (files.foldl (fun pp _ => pp.popFile) pp).macros = pp.macros := by
    induction files generalizing pp with
    | nil => exact ⟨rfl,rfl⟩
    | cons _ rest ih =>
      rw [List.foldl_cons,(ih _).1,(ih _).2]
      unfold Preprocessor.popFile
      split <;> exact ⟨rfl,rfl⟩
  exact ⟨(popped s.pre.files s.pre).1,congrArg (·.release mark) (popped s.pre.files s.pre).2⟩

/-- The messages follow, whatever became of the macros and the files. -/
def Tells (a b : Account) : Prop := a.diagnostics.Follows b.diagnostics

theorem finishing_reports (reports : Reports Account.Notes act) (mark : Nat) :
    Reports Tells (finishing act (closeUnit mark)) := by
  have tells : Reports Tells act := reports.imp fun notes => (notes ⟨[],[]⟩).diagnostics
  have quiet d s (told : Tells d s.pre.account) : Tells d (closeUnit mark s).pre.account := by
    show d.diagnostics.Follows (closeUnit mark s).pre.diagnostics
    rwa [(closeUnit_kept mark s).1]
  exact tells.finishing quiet (fun s => (closeUnit_kept mark s).1) (by intros; simp only [finishing, *])
    (by intros; simp only [finishing, *])

def Succeeds {α : Type} (x : SessionM α) : Prop := ∀ world s, ∃ a t, x world s = .ok a t

namespace Succeeds

theorem pure (a : α) : Succeeds (Pure.pure a) := fun _ s => ⟨a,s,rfl⟩

theorem get : Succeeds (MonadState.get : SessionM Session) := fun _ s => ⟨s,s,rfl⟩

theorem modify (f : Session → Session) : Succeeds (modify f : SessionM Unit) := fun _ s => ⟨_,f s,rfl⟩

theorem bind (first : Succeeds x) (second : ∀ a, Succeeds (f a)) : Succeeds (x >>= f) := by
  intro world s
  obtain ⟨a,t,run⟩ := first world s
  rw [run_bind,run]
  exact second a world t

end Succeeds

theorem defineBuiltin_succeeds (name : String) (value : Option String) : Succeeds (defineBuiltin name value) := by
  intro world s
  unfold defineBuiltin
  rw [run_tryCatch]
  cases define name value world s with
  | ok a t => exact ⟨a,t,rfl⟩
  | error _ t => exact ⟨(),t,rfl⟩

theorem setOutputType_succeeds (type : OutputType) : Succeeds (setOutputType type) := by
  refine .bind (.modify _) fun _ => .bind .get fun _ => ?_
  extract_lets bounds signs
  have boundsSucceeds : ∀ u, Succeeds (bounds u) := by
    refine fun _ => .bind .get fun _ => ?_
    split
    · exact defineBuiltin_succeeds _ _
    · exact .pure _
  have signsSucceeds : ∀ u, Succeeds (signs u) := by
    refine fun _ => .bind .get fun _ => ?_
    split
    · exact (defineBuiltin_succeeds _ _).bind boundsSucceeds
    · exact boundsSucceeds ()
  split
  · exact (Succeeds.modify _).bind signsSucceeds
  · exact signsSucceeds ()

theorem configure_succeeds : Succeeds configure := by
  refine .bind .get fun s => ?_
  split
  · exact .bind .get fun s => setOutputType_succeeds s.outputType
  · exact .pure _

/-- What a unit that began in one session ends with. One that is compiled delivered warnings alone; one
that fails does so with the last error, which it counted and delivered. -/
def Counted (start : Session) : EStateM.Result Stop Session Unit → Prop
  | .ok _ t => t.pre.diagnostics.errorCount = 0 ∧
    ∃ texts, t.pre.diagnostics.delivered = texts ++ start.pre.diagnostics.delivered ∧
      ∀ text ∈ texts, Diagnostics.IsWarning text
  | .error (.failed e) t => 0 < t.pre.diagnostics.errorCount ∧ t.pre.diagnostics.lastError = some e ∧
    ∃ texts, t.pre.diagnostics.delivered = texts ++ start.pre.diagnostics.delivered ∧ e.message ∈ texts
  | .error .exhausted _ => True

/-- Behind what reports its errors, the count tells whether there were any. -/
theorem Counted.of_reports (reports : Reports Tells act)
    (fresh : begun.pre.diagnostics = start.pre.diagnostics.reset) (world : World) :
    Counted start ((do
      act
      let diagnostics := (← get).pre.diagnostics
      if diagnostics.errorCount > 0 then throw (.failed diagnostics.failure) : SessionM Unit) world begun) := by
  have reported := reports.run world begun
  rw [run_bind]
  cases run : act world begun with
  | ok a t =>
    rw [run] at reported
    have told : begun.pre.diagnostics.Follows t.pre.diagnostics := reported
    rw [fresh] at told
    obtain ⟨texts,eq,⟨count,-,warnings⟩ | ⟨grown,e,last,member⟩⟩ := told.counted
    · have none : ¬ t.pre.diagnostics.errorCount > 0 := Nat.not_lt.2 (Nat.le_of_eq count)
      simp only [run_bind,run_get,if_neg none]
      exact ⟨count,texts,eq,warnings⟩
    · have some : t.pre.diagnostics.errorCount > 0 := Nat.zero_lt_of_lt grown
      have failure : t.pre.diagnostics.failure = e := by
        unfold Diagnostics.failure
        rw [show t.pre.diagnostics.lastError = _ from last,Option.getD_some]
      simp only [run_bind,run_get,if_pos some,failure]
      exact ⟨some,last,texts,eq,member⟩
  | error e t =>
    rw [run] at reported
    cases e with
    | exhausted => trivial
    | failed e =>
      have told : begun.pre.diagnostics.Follows t.pre.diagnostics := reported.1
      rw [fresh] at told
      obtain ⟨texts,eq,⟨-,none,-⟩ | ⟨grown,e',last,member⟩⟩ := told.counted
      · cases none.symm.trans (reported.2 _ rfl)
      · cases last.symm.trans (reported.2 _ rfl)
        exact ⟨Nat.zero_lt_of_lt grown,last,texts,eq,member⟩

/-- A unit fails exactly when an error was counted since the session was configured for it. -/
theorem compileUnit_counted (src : Source) (world : World) (s : Session) :
    ∃ start, configure world s = .ok () start ∧ Counted start (compileUnit src world s) := by
  obtain ⟨⟨⟩,start,configured⟩ := configure_succeeds world s
  refine ⟨start,configured,?_⟩
  unfold compileUnit
  rw [run_bind,configured]
  dsimp only
  rw [run_bind,run_get]
  dsimp only
  split
  · exact ⟨Nat.succ_pos _,rfl,[_],rfl,List.mem_singleton_self _⟩
  · exact Counted.of_reports (finishing_reports (enteredUnit_reports src) _) rfl world

/-- Compile a unit with warnings as errors, after a macro that the configuration defines was defined
otherwise. -/
def redefined : SessionM Unit := do
  let _ ← setWarning "error" true
  let _ ← setFlag "unsigned-char" true
  define "__CHAR_UNSIGNED__" (some "2")
  compileText "int x;"

/-- An error that the configuration delivers is forgotten before the unit begins, which is compiled. -/
theorem redefined_forgotten : (match redefined { fuel := 1000, base := 0x400000 } {} with
      | .ok _ s => some (s.pre.diagnostics.errorCount,s.pre.diagnostics.delivered)
      | .error _ _ => none) = some (0,["<define>:1: error: __CHAR_UNSIGNED__ redefined"]) := by
  decide +kernel

end Session
end OnePass
