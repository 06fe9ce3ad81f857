import OnePass.Proofs.InputsEnd
import OnePass.Proofs.ReportingUnit

/-! # Taking definitions back

The history of a macro table holds what every change replaced. Going back through it takes the changes back one by
one, latest first. A unit changes the table in no other way, and releases its mark however it ends. -/
namespace OnePass

open MacroTable List

namespace MacroTable

variable {table later other : MacroTable}

inductive Change where
  | define (name : String) (m : Macro)
  | undefine (name : String)

def change (table : MacroTable) : Change → MacroTable
  | .define name m => table.define name m
  | .undefine name => table.undefine name

/-- The same definitions, and the same changes to take back. -/
structure Same (table other : MacroTable) : Prop where
  definitions : ∀ name, other.find? name = table.find? name
  history : other.history = table.history

theorem Same.trans (first : table.Same later) (second : later.Same other) : table.Same other :=
  ⟨fun name => (second.definitions name).trans (first.definitions name),second.history.trans first.history⟩

/-! ## One change -/

theorem lookup_filter (current : List (String × Macro)) (name other : String) :
    (current.filter (·.1 != name)).lookup other = if other = name then none else current.lookup other := by
  induction current with
  | nil => simp
  | cons entry rest ih =>
    obtain ⟨key,m⟩ := entry
    by_cases dropped : key = name
    · subst dropped
      rw [filter_cons_of_neg (by simp),ih]
      by_cases here : other = key
      · simp [here]
      · simp [lookup_cons,beq_false_of_ne here,here]
    · rw [filter_cons_of_pos (by simpa using dropped),lookup_cons,lookup_cons,ih]
      by_cases here : other = key
      · simp [here,dropped]
      · simp [beq_false_of_ne here]

theorem lookup_bind (current : List (String × Macro)) (name : String) (m : Option Macro) (other : String) :
    (bind current name m).lookup other = if other = name then m else current.lookup other := by
  cases m with
  | none => exact lookup_filter current name other
  | some m =>
    rw [bind,lookup_cons,lookup_filter]
    by_cases here : other = name
    · simp [here]
    · simp [beq_false_of_ne here,here]

/-- Binding a name once more to what it stood for before takes a change back. -/
theorem bind_back (table : MacroTable) (name : String) (m : Option Macro) :
    table.Same { current := bind (bind table.current name m) name (table.find? name), history := table.history } := by
  refine ⟨fun other => ?_,rfl⟩
  simp only [find?,lookup_bind]
  split
  next here => rw [here]
  next => rfl

theorem Same.undo (same : table.Same other) (count : Nat) : (undo count table).Same (undo count other) := by
  induction count generalizing table other with
  | zero => exact same
  | succ count ih =>
    obtain ⟨definitions,history⟩ := same
    unfold undo
    rw [history]
    split
    next empty => exact ⟨definitions,history⟩
    next name old rest changes =>
      refine ih ⟨fun key => ?_,rfl⟩
      have here := definitions key
      simp only [find?] at here
      simp only [find?,lookup_bind,here]

/-! ## Any number of changes -/

/-- Releasing the mark of an earlier table gives that table back. -/
structure Restores (table later : MacroTable) : Prop where
  behind : table.mark ≤ later.mark
  released : table.Same (later.release table.mark)

theorem Restores.refl (table : MacroTable) : table.Restores table := by
  refine ⟨Nat.le_refl _,?_⟩
  rw [release,mark,Nat.sub_self]
  exact ⟨fun _ => rfl,rfl⟩

theorem Restores.logged (restores : table.Restores later)
    (changed : other = { current := bind later.current name m, history := (name,later.find? name) :: later.history }) :
    table.Restores other := by
  obtain ⟨behind,released⟩ := restores
  unfold mark at behind
  subst changed
  refine ⟨Nat.le_succ_of_le behind,released.trans ?_⟩
  rw [release,release,length_cons,mark,Nat.succ_sub behind]
  exact (bind_back later name m).undo _

theorem Restores.change (restores : table.Restores later) (c : Change) : table.Restores (later.change c) := by
  cases c with
  | define name m => exact restores.logged rfl
  | undefine name =>
    rw [MacroTable.change,undefine]
    split
    next => exact restores
    next old found => exact restores.logged (by rw [found])

theorem restores_changes (table : MacroTable) (changes : List Change) :
    table.Restores (changes.foldl change table) := by
  suffices ∀ later, table.Restores later → table.Restores (changes.foldl change later) from
    this table (.refl table)
  induction changes with
  | nil => exact fun _ restores => restores
  | cons c rest ih => exact fun later restores => ih _ (restores.change c)

end MacroTable

theorem Account.Follows.restores {a a' : Account} (follows : a.Follows a') : a.macros.Restores a'.macros := by
  induction follows with
  | refl => exact .refl _
  | reported _ _ ih => exact ih
  | defined _ name m ih => exact ih.change (.define name m)
  | undefined _ name ih => exact ih.change (.undefine name)
  | moved _ _ ih => exact ih

/-! ## Units -/

namespace Session

theorem left_reported {act : SessionM α} (reports : Reports R act) (world : World)
    (s : Session) : R s.pre.account (left (act world s)).pre.account := by
  have reported := reports.run world s
  cases run : act world s with
  | ok a t =>
    rwa [run] at reported
  | error e t =>
    rw [run] at reported
    exact reported.1

/-- The macros are released behind a unit, whether it succeeds or not. -/
theorem finishing_released (src : Source) (world : World) (s : Session) :
    s.pre.macros.Same (left (finishing (enteredUnit src) (closeUnit s.pre.macros.mark) world s)).pre.macros := by
  have restored := (left_reported (enteredUnit_reports src) world s ⟨[],[]⟩).restores.released
  unfold finishing
  cases run : enteredUnit src world s with
  | ok a t | error e t =>
    rw [run] at restored
    exact (closeUnit_kept _ t).2 ▸ restored

/-- Releasing a mark takes back all changes made since, whatever they were. So a unit leaves the macros of a
configured session as they were, however it ends. -/
theorem definitions_taken_back : (∀ (table : MacroTable) (changes : List MacroTable.Change),
      table.Same ((changes.foldl MacroTable.change table).release table.mark)) ∧
    ∀ (src : Source) (world : World) (s : Session), s.configured = true →
      s.pre.macros.Same (left (compileUnit src world s)).pre.macros := by
  refine ⟨fun table changes => (table.restores_changes changes).released,fun src world s configured => ?_⟩
  unfold compileUnit configure
  simp only [run_bind,run_get,configured,Bool.not_true,Bool.false_eq_true,if_false,run_pure]
  split
  · exact ⟨fun _ => rfl,rfl⟩
  · simp only [changeDiagnostics,run_bind,run_modify,run_get]
    have released := finishing_released src world { s with pre := { s.pre with diagnostics := s.pre.diagnostics.reset } }
    unfold enteredUnit at released
    split
    next a t run =>
      rw [run] at released
      split <;> exact released
    next e t run =>
      rw [run] at released
      exact released

/-- A unit that defines a name twice and then takes away a macro of the session, with an error behind that. -/
theorem definitions_taken_back_redefining : let s : Session := { configured := true }
    let src := Source.ofBytes "a.c" (Bytes.ofString "#define A\n#define A B\n#undef __LINE__\n#error\n")
    s.configured = true ∧ s.pre.macros.Same (left (compileUnit src { fuel := 100, base := 0 } s)).pre.macros :=
  ⟨rfl,definitions_taken_back.2 _ _ _ rfl⟩

end Session
end OnePass
