import OnePass.Proofs.FileReading
import OnePass.Proofs.Reporting

/-! # The preprocessor reports its errors -/
namespace OnePass

open Preprocessor Calm Account
open Reports (get_bind)
open PreM

@[grind] def Preprocessor.account (pp : Preprocessor) : Account :=
  ⟨pp.diagnostics,pp.macros,pp.files,pp.conditionals⟩

instance : Diagnosed Preprocessor := ⟨account⟩

@[simp, grind =] theorem Preprocessor.diagnosed (pp : Preprocessor) : Diagnosed.account pp = pp.account := rfl

namespace PreM

theorem finishing_reports {act : PreM α} (reports : Reports R act)
    (quiet : ∀ pp, (after pp).account = pp.account) : Reports R (finishing act after) :=
  .finishing reports (fun d pp related => (quiet pp ▸ related : R d (after pp).account)) (fun pp => congrArg _ (quiet pp))
    (by intros; simp only [finishing, *]) (by intros; simp only [finishing, *])

end PreM

section Calm

variable [Calm R]

namespace PreM

@[grind ←] instance report_reports (complaint : Complaint) : Reports R (report complaint) :=
  ⟨fun _ pp => (reported pp.account (.error .refl pp.chain complaint) : R _ _)⟩

@[grind ←] instance fail_reports (complaint : Complaint) : Reports R (fail complaint : PreM α) :=
  ⟨fun _ pp => .failed (reported pp.account (.error .refl pp.chain complaint) : R _ _) rfl⟩

@[grind ←] instance fail_bind_reports (complaint : Complaint) (f : α → PreM β) :
    Reports R (fail complaint >>= f) :=
  ⟨fun _ pp => .failed (reported pp.account (.error .refl pp.chain complaint) : R _ _) rfl⟩

@[grind ←] instance (line : UInt32) (complaint : Complaint) : Reports R (failAt line complaint : PreM α) :=
  ⟨fun _ pp => .failed (reported pp.account (.error .refl (pp.chainAt line) complaint) : R _ _) rfl⟩

@[grind ←] instance warn_reports (text : String) : Reports R (warn text) :=
  ⟨fun _ pp => (reported pp.account (.warning .refl pp.chain text) : R _ _)⟩

@[grind ←] instance resolve_reports (name : String) : Reports R (resolve name) := by
  unfold resolve
  grind

@[grind ←] instance (name : String) : Reports R (openFile name) := by
  unfold openFile
  grind

end PreM

namespace Expand

@[grind ←] theorem arguments_reports (expand : ∀ arg, Reports R (expandArg arg)) (m : Macro) (args : List (List Token))
    (call : Token) (before : List BodyToken) (out : List Token) (body : List BodyToken) :
    Reports R (arguments expandArg m args call before out body) := by
  induction body generalizing before out with
  | nil => exact .pure _
  | cons t rest ih =>
    unfold arguments
    grind

@[grind ←] instance (left right : Token) : Reports R (paste left right) := by
  unfold paste
  grind

@[grind ←] instance (call : Token) (done tokens : List Token) : Reports R (pasteAll call done tokens) := by
  fun_induction pasteAll call done tokens <;> grind

@[grind ←] theorem substitute_reports (expand : ∀ arg, Reports R (expandArg arg)) (m : Macro)
    (args : List (List Token)) (call : Token) : Reports R (substitute expandArg m args call) := by
  unfold substitute
  grind

@[grind ←] theorem readArguments_reports (reads : Reports R raw) (name : String) (m : Macro) :
    Reports R (readArguments raw name m) := by
  unfold readArguments
  grind

@[grind ←] instance (frame : Frame) : Reports R (pushFrame frame) := by
  unfold pushFrame
  grind

@[grind =] theorem dynamic?_account (host : Host) (name : String) (call : Token) (pp : Preprocessor) :
    (dynamic? host name call pp).2.account = pp.account := by
  unfold dynamic?
  split <;> rfl

@[grind ←] theorem step_reports (reads : Reports R raw) (expand : ∀ arg, Reports R (expandArg arg)) :
    Reports R (step raw expandArg) := by
  refine reads.bind fun tok => ?_
  split
  · split
    · exact .pure _
    · refine .bind .get fun pp => ?_
      split
      · exact .pure _
      · refine .bind .get fun pp => ?_
        split
        · exact .pure _
        · refine .bind .read fun host => .bind (.modifyGet (dynamic?_account host _ tok)) fun value => ?_
          split
          · exact .pure _
          · split <;> grind
  · exact .pure _

@[grind ←] theorem nextFrom_reports (reads : Reports R raw) (expand : ∀ arg, Reports R (expandArg arg)) :
    Reports R (nextFrom raw expandArg) := by
  unfold nextFrom
  grind

@[grind ←] theorem rawFrom_reports (reads : Reports R source) : Reports R (rawFrom source) := by
  refine get_bind fun host pp => ?_
  cases pp.pushback with
  | some tok => exact refl _
  | none =>
    cases dropFinished pp.frames with
    | nil => exact reads.run host _
    | cons frame frames =>
      obtain ⟨tokens,hides,barrier⟩ := frame
      cases tokens <;> exact refl _

@[grind ←] instance : Reports R nothing := by
  unfold nothing
  grind

@[grind ←] instance (depth : Nat) (tokens : List Token) : Reports R (listTo depth tokens) := by
  induction depth generalizing tokens with
  | zero => exact .exhausted
  | succ depth ih =>
    refine .bind .get fun pp => finishing_reports ?_ fun _ => rfl
    grind

@[grind ←] instance (tokens : List Token) : Reports R (list tokens) := by
  unfold list
  grind

@[grind ←] instance (tokens : List Token) : Reports R (replay tokens) := by
  unfold replay
  grind

end Expand

namespace Directive

@[grind ←] instance fail_reports (fault : DirectiveFault) : Reports R (fail fault : PreM α) :=
  PreM.fail_reports _

@[grind ←] instance fail_bind_reports (fault : DirectiveFault) (f : α → PreM β) :
    Reports R (fail fault >>= f) :=
  PreM.fail_bind_reports _ _

@[grind ←] instance report_reports (fault : DirectiveFault) : Reports R (report fault) := by
  unfold report
  grind

end Directive
end Calm

section Reading

variable [Reading R]

namespace PreM

theorem setFile_reported (current : pp.current? = some src)
    (same : later.openConditionals = src.openConditionals) (host : Host) :
    Reported R account pp.account (setFile later host pp) := by
  obtain ⟨old,files,held,kept⟩ := current?_open current
  have read : R pp.account ⟨pp.diagnostics,pp.macros,later :: pp.files.drop 1,pp.conditionals⟩ := by
    rw [account,held]
    exact Reading.read (same.trans kept)
  exact read

@[grind ←] instance lex_reports (newlines : Bool) : Reports R (lex newlines) := by
  refine get_bind fun host pp => ?_
  cases current : pp.current? with
  | none => exact refl _
  | some src =>
    refine Reports.bind_run (setFile_reported current (Lexer.nextToken_open newlines src) host) fun _ => ?_
    split <;> grind

@[grind ←] instance readLine_reports : Reports R readLine := by
  unfold readLine
  grind

end PreM

@[grind ←] instance Directive.condition_reports : Reports R Directive.condition := by
  unfold Directive.condition
  grind

end Reading

section Free

variable [Free R]

namespace Directive

@[grind ←] instance enterFile_reports (src : Source) : Reports R (enterFile src) := by
  refine get_bind fun host pp => ?_
  split
  next => exact (fail_reports .includeDepth).run host pp
  next few => exact Free.moved pp.account (.entered src (Nat.lt_of_not_le few))

@[grind ←] instance (name : String) (m : Macro) : Reports R (define name m) := by
  have defined : Reports R (modify fun pp => { pp with macros := pp.macros.define name m } : PreM PUnit) :=
    .change fun pp => Free.defined pp.account name m
  unfold define
  grind

@[grind ←] instance readParameters_reports : Reports R readParameters := by
  refine .bind .read fun host => .iterate (fun names => (PreM.lex_reports true).bind fun tok => ?_) _ _
  split
  · exact .pure _
  · dsimp only
    split
    · grind
    · split <;> grind

@[grind ←] instance (params : Option (List String)) (tok : Token) : Reports R (bodyPart params tok) := by
  unfold bodyPart
  grind

@[grind ←] instance (params : Option (List String)) (first : Token) : Reports R (readBody params first) := by
  unfold readBody
  grind

@[grind ←] instance : Reports R readDefine := by
  refine (PreM.lex_reports true).bind fun tok => ?_
  split
  · dsimp only
    split
    · exact fail_bind_reports _ _
    · refine (PreM.lex_reports true).bind fun tok => ?_
      split
      · refine readParameters_reports.bind fun found => (PreM.lex_reports true).bind fun tok => ?_
        grind
      · grind
  · exact fail_reports _

@[grind ←] instance (name : String) : Reports R (undefine name) :=
  .change fun pp => Free.undefined pp.account name

@[grind ←] instance : Reports R includeName := by
  refine get_bind fun host pp => ?_
  cases current : pp.current? with
  | none => exact (fail_reports .includeOperand).run host pp
  | some src =>
    refine Reports.bind_run (PreM.setFile_reported current (Lexer.includeOperand_open src) host) fun _ => ?_
    split <;> grind

@[grind ←] instance (name : String) (paths : List String) : Reports R (search name paths) := by
  induction paths with
  | nil => exact fail_reports _
  | cons path rest ih =>
    unfold search
    grind

@[grind ←] instance : Reports R include_ := by
  unfold include_
  grind

@[grind ←] instance lineFile_reports (spelling : Bytes) : Reports R (lineFile spelling) := by
  unfold lineFile
  grind

theorem changeFile_reports {f : Source → Source} (same : ∀ src, (f src).openConditionals = src.openConditionals) :
    Reports R (do
      match (← get).files with
      | [] => return
      | src :: _ => setFile (f src) : PreM Unit) := by
  refine get_bind fun host pp => ?_
  cases held : pp.files with
  | nil => exact refl _
  | cons src files =>
    have read : R pp.account ⟨pp.diagnostics,pp.macros,f src :: pp.files.drop 1,pp.conditionals⟩ := by
      rw [account,held]
      exact Reading.read (same src)
    exact read

@[grind ←] instance (tokens : List Token) : Reports R (line tokens) := by
  unfold line
  dsimp only
  split
  · split
    · exact changeFile_reports fun _ => rfl
    · exact .bind (.map (lineFile_reports _) _) fun _ => changeFile_reports fun _ => rfl
    · exact fail_bind_reports _ _
  · exact fail_reports _

@[grind ←] instance : Reports R pragma := by
  refine readLine_reports.bind fun tokens => get_bind fun host pp => ?_
  split
  · exact refl _
  · split
    · exact (warn_reports _).run host pp
    · exact refl _

/-- The same conditionals are open, as many as before in the current file, and the files around it are the same. -/
def Stays (a b : Account) : Prop :=
  b.nesting.files.head?.map (·.openConditionals) = a.nesting.files.head?.map (·.openConditionals) ∧
    b.nesting.conditionals = a.nesting.conditionals ∧ b.nesting.files.tail = a.nesting.files.tail

instance : Reading Stays where
  refl _ := ⟨rfl,rfl,rfl⟩
  trans first second := ⟨second.1.trans first.1,second.2.1.trans first.2.1,second.2.2.trans first.2.2⟩
  reported _ _ _ := ⟨rfl,rfl,rfl⟩
  read same := ⟨congrArg some same,rfl,rfl⟩

theorem current?_congr (stays : Stays pp.account later.account) : current? later = current? pp := by
  have conditionals : later.conditionals = pp.conditionals := stays.2.1
  have depth : later.fileDepth = pp.fileDepth := congrArg (·.getD 0) stays.1
  rw [current?,current?,conditionals,depth]

/-- A conditional of the current file can be changed. -/
theorem current?_own (held : current? pp = some c) : pp.nesting.depth < pp.nesting.conditionals.length := by
  unfold current? at held
  split at held
  next own => exact own
  next => cases held

theorem setCurrent_reported (held : current? pp = some c) (next : Conditional)
    (host : Host) : Reported R account pp.account (setCurrent next host pp) :=
  Free.moved pp.account (.chosen (current?_own held) next)

@[grind ←] instance : Reports R elif := by
  refine get_bind fun host pp => ?_
  cases held : current? pp with
  | none => exact (fail_reports .elifAlone).run host pp
  | some c =>
    dsimp only
    split
    · exact (fail_reports .elifAfterElse).run host pp
    · split
      · exact (readLine_reports.bind fun _ => .pure true).run host pp
      · -- the condition is read behind the choice of the conditional, which is still the current one then
        have reported := (condition_reports (R := R)).run host pp
        have stays := (condition_reports (R := Stays)).run host pp
        rw [run_bind]
        cases run : condition host pp with
        | error e later =>
          rw [run] at reported
          exact reported.error_congr rfl
        | ok holds later =>
          rw [run] at reported stays
          cases holds with
          | false => exact reported
          | true =>
            have still : current? later = some c := (current?_congr stays).trans held
            exact (Reports.bind_run (setCurrent_reported still _ host) fun _ => .pure false).mono reported

@[grind ←] instance : Reports R else_ := by
  refine get_bind fun host pp => ?_
  cases held : current? pp with
  | none => exact ((report_reports .elseAlone).bind fun _ => .pure false).run host pp
  | some c =>
    dsimp only
    split
    · exact ((report_reports .elseAfterElse).bind fun _ => .pure false).run host pp
    · exact Reports.bind_run (setCurrent_reported held _ host) fun _ => .pure c.taken

@[grind ←] instance : Reports R endif := by
  refine get_bind fun host pp => ?_
  cases held : current? pp with
  | none => exact (report_reports .endifAlone).run host pp
  | some c => exact Free.moved pp.account (.closed (current?_own held))

@[grind ←] instance skipGroup_reports : Reports R skipGroup := by
  refine .bind .read fun _ => .iterate (fun depth => get_bind fun host pp => ?_) _ _
  cases current : pp.current? with
  | none => exact refl _
  | some src =>
    exact Reports.bind_run (setFile_reported current (skipLine_open depth src) host) fun _ => .pure _

@[grind ←] instance : Reports R skipGroups := by
  refine .bind .read fun host => .iterate (fun _ => .bind skipGroup_reports fun found => ?_) _ _
  cases found <;> grind

@[grind ←] instance (holds : Bool) : Reports R (openConditional holds) := by
  have opened : Reports R (modify fun pp => { pp with conditionals := { taken := holds } :: pp.conditionals } : PreM Unit) :=
    .change fun pp => Free.moved pp.account (.opened pp.nesting _)
  unfold openConditional
  grind

@[grind ←] instance (name : String) : Reports R (named name) := by
  unfold named
  split <;> grind

@[grind ←] instance read_reports : Reports R read_ := by
  unfold read_
  grind

end Directive

end Free

namespace PreM

/-- The end of a file closes its conditionals, and leaves the file if it was included. -/
theorem endFile_run (host : Host) (pp : Preprocessor) : ∃ now, pp.account.Notes now.account ∧
    now.nesting = ⟨pp.files,pp.conditionals.drop (pp.conditionals.length - pp.fileDepth)⟩ ∧
    endFile host pp = if pp.files.length > 1 then .ok true now.popFile else .ok false now := by
  unfold endFile
  rw [run_bind,run_get]
  by_cases deep : pp.conditionals.length > pp.fileDepth
  · refine ⟨{ pp with
      diagnostics := (pp.diagnostics.error pp.chain DirectiveFault.endifMissing.complaint).2
      conditionals := pp.conditionals.drop (pp.conditionals.length - pp.fileDepth) },
      fun _ => .reported .refl (.error .refl pp.chain _),rfl,?_⟩
    simp only [if_pos deep]
    split <;> rfl
  · refine ⟨pp,refl _,?_,?_⟩
    · rw [Nat.sub_eq_zero_of_le (Nat.le_of_not_lt deep)]
      rfl
    · simp only [if_neg deep]
      split <;> rfl

@[grind ←] instance : Reports Notes endFile := by
  refine ⟨fun host pp => ?_⟩
  obtain ⟨now,notes,-,run⟩ := endFile_run host pp
  have popped : now.account.Notes now.popFile.account := by
    unfold popFile
    split <;> exact fun _ => .refl
  rw [run]
  split
  · exact trans notes popped
  · exact notes

instance round_reports : Reports Notes round := by
  unfold round
  grind

@[grind ←] instance fromFiles_reports : Reports Follows fromFiles := by
  rw [fromFiles_rounds]
  refine .bind .read fun _ => .iterate (fun _ => ⟨fun host pp => ?_⟩) _ _
  have reported := round_reports.run host pp
  have moved (notes : pp.account.Notes (turn host pp).account) : pp.account.Follows (turn host pp).account :=
    (notes pp.nesting).moved ⟨host,pp,rfl,rfl⟩
  unfold turn at moved
  cases run : round host pp with
  | ok r after =>
    rw [run] at reported moved
    exact moved reported
  | error e after =>
    rw [run] at reported moved
    exact ⟨moved reported.1,reported.2⟩

@[grind ←] instance next_reports : Reports Follows next := by
  unfold next
  grind

end PreM

namespace Printer

@[grind ←] instance (text : Bytes) : Reports Follows (write text) := by
  unfold write
  grind

@[grind ←] instance : Reports Follows flush := by
  unfold flush
  grind

@[grind ←] instance print_reports : Reports Follows print := by
  refine .bind .read fun host => .iterate (fun previous => next_reports.bind fun tok => ?_) _ _
  split
  · grind
  · refine .bind .get fun pp => ?_
    cases previous <;> grind

end Printer
end OnePass
