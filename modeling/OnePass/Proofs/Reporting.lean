import OnePass.Proofs.Effect
import OnePass.Session

/-! # Errors are reported before they stop anything

A computation reports its errors when its diagnostics change by delivering warnings and errors and by
counting the errors, and when it stops with no error but the one that it counted last. -/
namespace OnePass

namespace Diagnostics

/-- What diagnostics become when warnings and errors are reported. -/
inductive Follows (d : Diagnostics) : Diagnostics → Prop where
  | refl : Follows d d
  | error {d' : Diagnostics} (before : Follows d d') (chain : List Location) (complaint : Complaint) :
    Follows d (d'.error chain complaint).2
  | warned {d' : Diagnostics} (before : Follows d d') (chain : List Location) (text : String) :
    Follows d (d'.deliver (format chain .warning text))

def IsWarning (text : String) : Prop := ∃ chain reason, text = format chain .warning reason

namespace Follows

theorem trans (first : Follows d d') (second : Follows d' d'') : Follows d d'' := by
  induction second with
  | refl => exact first
  | error _ chain complaint ih => exact ih.error chain complaint
  | warned _ chain text ih => exact ih.warned chain text

theorem warning (before : Follows d d') (chain : List Location) (text : String) :
    Follows d (d'.warning chain text) := by
  unfold Diagnostics.warning
  split
  · exact before
  · split
    · exact before.error chain _
    · exact before.warned chain text

/-- Either no error was counted and only warnings were delivered, or the last error that was counted is at
hand and its text was delivered. -/
theorem counted (follows : Follows d d') : ∃ texts, d'.delivered = texts ++ d.delivered ∧
    ((d'.errorCount = d.errorCount ∧ d'.lastError = d.lastError ∧ ∀ text ∈ texts, IsWarning text) ∨
      (d.errorCount < d'.errorCount ∧ ∃ e, d'.lastError = some e ∧ e.message ∈ texts)) := by
  induction follows with
  | refl => exact ⟨[],rfl,Or.inl ⟨rfl,rfl,by simp⟩⟩
  | @error d' before chain complaint ih =>
    obtain ⟨texts,eq,ih⟩ := ih
    have grown : d.errorCount ≤ d'.errorCount := by omega
    exact ⟨_ :: texts,congrArg _ eq,Or.inr ⟨Nat.lt_succ_of_le grown,_,rfl,List.mem_cons_self⟩⟩
  | warned _ chain text ih =>
    obtain ⟨texts,eq,ih⟩ := ih
    refine ⟨_ :: texts,congrArg _ eq,ih.imp ?_ ?_⟩
    · rintro ⟨count,last,warnings⟩
      exact ⟨count,last,List.forall_mem_cons.2 ⟨⟨chain,text,rfl⟩,warnings⟩⟩
    · rintro ⟨grown,e,last,member⟩
      exact ⟨grown,e,last,List.mem_cons_of_mem _ member⟩

end Follows
end Diagnostics

/-- The files and the conditionals that are open, innermost first. -/
structure Nesting where
  files : List Source
  conditionals : List Conditional

def Preprocessor.nesting (pp : Preprocessor) : Nesting := ⟨pp.files,pp.conditionals⟩

namespace PreM

/-- One round of reading from the files, which gives a token or goes on. -/
def round : PreM (Unit ⊕ Token) := do
  if (← get).files.isEmpty then return .inr (Token.eof 0)
  let tok ← lex false
  if tok.isPunct .hash && tok.lineStart then
    Directive.read_
    return .inl ()
  else if tok.isEof then
    return if ← endFile then .inl () else .inr tok
  else return .inr tok

theorem fromFiles_rounds : fromFiles = (do iterate (fun _ => round) (← read).fuel ()) := rfl

/-- The state that a round leaves, whether it fails or not. -/
def turn (host : Host) (pp : Preprocessor) : Preprocessor :=
  match round host pp with
  | .ok _ after | .error _ after => after

end PreM

namespace Nesting

/-- What one round of reading makes of the open files and conditionals. -/
def Round (n m : Nesting) : Prop := ∃ host pp, pp.nesting = n ∧ (PreM.turn host pp).nesting = m

/-- How many conditionals were open when the current file was entered. -/
def depth (n : Nesting) : Nat := (n.files.head?.map (·.openConditionals)).getD 0

/-- One change of the open files and conditionals within a file. The conditionals opened outside the current file are out of its reach. -/
inductive Move : Nesting → Nesting → Prop where
  | read {src later : Source} {files : List Source} {cs : List Conditional}
    (same : later.openConditionals = src.openConditionals) : Move ⟨src :: files,cs⟩ ⟨later :: files,cs⟩
  | opened (n : Nesting) (c : Conditional) : Move n { n with conditionals := c :: n.conditionals }
  | chosen {n : Nesting} (own : n.depth < n.conditionals.length) (c : Conditional) :
    Move n { n with conditionals := c :: n.conditionals.drop 1 }
  | closed {n : Nesting} (own : n.depth < n.conditionals.length) :
    Move n { n with conditionals := n.conditionals.drop 1 }
  | cut (n : Nesting) :
    Move n { n with conditionals := n.conditionals.drop (n.conditionals.length - n.depth) }
  | entered {n : Nesting} (src : Source) (few : n.files.length < Directive.maxIncludeDepth) :
    Move n { n with files := { src with openConditionals := n.conditionals.length } :: n.files }

end Nesting

/-- What a unit may leave behind for the next one, and where it reads. -/
structure Account where
  diagnostics : Diagnostics
  macros : MacroTable
  nesting : Nesting

namespace Account

inductive Follows (a : Account) : Account → Prop where
  | refl : Follows a a
  | reported {a' : Account} {d : Diagnostics} (before : Follows a a') (follows : a'.diagnostics.Follows d) :
    Follows a { a' with diagnostics := d }
  | defined {a' : Account} (before : Follows a a') (name : String) (m : Macro) :
    Follows a { a' with macros := a'.macros.define name m }
  | undefined {a' : Account} (before : Follows a a') (name : String) :
    Follows a { a' with macros := a'.macros.undefine name }
  | moved {a' : Account} {nesting : Nesting} (before : Follows a a') (round : a'.nesting.Round nesting) :
    Follows a { a' with nesting }

namespace Follows

theorem trans (first : Follows a a') (second : Follows a' a'') : Follows a a'' := by
  induction second with
  | refl => exact first
  | reported _ follows ih => exact ih.reported follows
  | defined _ name m ih => exact ih.defined name m
  | undefined _ name ih => exact ih.undefined name
  | moved _ round ih => exact ih.moved round

theorem diagnostics (follows : Follows a a') : a.diagnostics.Follows a'.diagnostics := by
  induction follows with
  | refl => exact .refl
  | reported _ follows ih => exact ih.trans follows
  | defined _ _ _ ih => exact ih
  | undefined _ _ ih => exact ih
  | moved _ _ ih => exact ih

end Follows

/-- What becomes of the messages and macros, wherever that is. -/
def Notes (a b : Account) : Prop := ∀ nesting, Follows { a with nesting } { b with nesting }

theorem Follows.notes {a b : Account} (follows : a.Follows b) : a.Notes b := by
  intro nesting
  induction follows with
  | refl => exact .refl
  | reported _ follows ih => exact ih.reported follows
  | defined _ name m ih => exact ih.defined name m
  | undefined _ name ih => exact ih.undefined name
  | moved _ _ ih => exact ih

end Account

/-- A relation that reporting keeps. -/
class Calm (R : Account → Account → Prop) : Prop where
  refl (a : Account) : R a a
  trans {a b c : Account} : R a b → R b c → R a c
  reported (a : Account) {d : Diagnostics} : a.diagnostics.Follows d → R a { a with diagnostics := d }

/-- A relation that reading on in a file keeps as well. -/
class Reading (R : Account → Account → Prop) : Prop extends Calm R where
  read {d : Diagnostics} {macros : MacroTable} {src later : Source} {files : List Source} {cs : List Conditional} :
    later.openConditionals = src.openConditionals → R ⟨d,macros,src :: files,cs⟩ ⟨d,macros,later :: files,cs⟩

/-- A relation that everything keeps which directives do. -/
class Free (R : Account → Account → Prop) : Prop extends Reading R where
  defined (a : Account) (name : String) (m : Macro) : R a { a with macros := a.macros.define name m }
  undefined (a : Account) (name : String) : R a { a with macros := a.macros.undefine name }
  moved (a : Account) {nesting : Nesting} : a.nesting.Move nesting → R a { a with nesting }

instance : Calm Account.Follows where
  refl _ := .refl
  trans := .trans
  reported _ := .reported .refl

instance : Free Account.Notes where
  refl _ _ := .refl
  trans first second nesting := (first nesting).trans (second nesting)
  reported _ _ follows _ := .reported .refl follows
  read _ _ := .refl
  defined _ name m _ := .defined .refl name m
  undefined _ name _ := .undefined .refl name
  moved _ _ _ _ := .refl

/-- Where a state keeps its account. -/
class Diagnosed (σ : Type) where
  account : σ → Account

/-- A result that is related to account `d`; an error is the one that was reported last. -/
def Reported {σ α : Type} (R : Account → Account → Prop) (account : σ → Account) (d : Account) :
    EStateM.Result Stop σ α → Prop
  | .ok _ s => R d (account s)
  | .error e s => R d (account s) ∧ ∀ error, e = .failed error → (account s).diagnostics.lastError = some error

/-- The computation reports its errors and is related in its accounts. -/
class Reports {ρ σ α : Type} [D : Diagnosed σ] (R : Account → Account → Prop) (x : ReaderT ρ (EStateM Stop σ) α) : Prop where
  run : ∀ r s, Reported R D.account (D.account s) (x r s)

namespace Reported

variable {σ τ α β : Type}

theorem mono [Calm R] (first : R d d') (reported : Reported R account d' result) : Reported R account d result := by
  cases result with
  | ok _ _ => exact Calm.trans first reported
  | error _ _ => exact ⟨Calm.trans first reported.1,reported.2⟩

theorem imp (reported : Reported R account d result)
    (weaker : ∀ {a b}, R a b → S a b) : Reported S account d result := by
  cases result with
  | ok _ _ => exact weaker reported
  | error _ _ => exact ⟨weaker reported.1,reported.2⟩

theorem failed (related : R d (account s)) (last : (account s).diagnostics.lastError = some e) :
    Reported R account d (.error (.failed e) s : EStateM.Result Stop σ α) :=
  ⟨related,fun _ same => by cases same; exact last⟩

theorem error_congr (reported : Reported R account d (.error e s : EStateM.Result Stop σ α))
    (same : view t = account s) : Reported R view d (.error e t : EStateM.Result Stop τ β) := by
  rwa [Reported,same]

end Reported

namespace Reports

open Calm

variable {ρ σ α β γ : Type} [D : Diagnosed σ]

theorem imp {x : ReaderT ρ (EStateM Stop σ) α} (reports : Reports R x)
    (weaker : ∀ {a b}, R a b → S a b) : Reports S x :=
  ⟨fun r s => (reports.run r s).imp weaker⟩

theorem change (related : ∀ s, R (D.account s) (D.account (f s))) :
    Reports R (modify f : ReaderT ρ (EStateM Stop σ) PUnit) :=
  ⟨fun _ => related⟩

theorem get_bind (each : ∀ r s, Reported R D.account (D.account s) (f s r s)) :
    Reports R (MonadState.get >>= f : ReaderT ρ (EStateM Stop σ) α) :=
  ⟨each⟩

/-- A change behind the computation keeps what was reported. -/
theorem finishing {x y : ReaderT ρ (EStateM Stop σ) α} {after : σ → σ} (reports : Reports R x)
    (quiet : ∀ d s, R d (D.account s) → R d (D.account (after s)))
    (kept : ∀ s, (D.account (after s)).diagnostics = (D.account s).diagnostics)
    (ok : ∀ r s a t, x r s = .ok a t → y r s = .ok a (after t))
    (error : ∀ r s e t, x r s = .error e t → y r s = .error e (after t)) : Reports R y := by
  refine ⟨fun r s => ?_⟩
  have reported := reports.run r s
  cases run : x r s with
  | ok a t =>
    rw [run] at reported
    rw [ok r s a t run]
    exact quiet _ t reported
  | error e t =>
    rw [run] at reported
    rw [error r s e t run]
    exact ⟨quiet _ t reported.1,kept t ▸ reported.2⟩

variable [Calm R]

/-! ## Sequences, choices and loops -/

theorem bind_run {f : α → ReaderT ρ (EStateM Stop σ) β} {r : ρ} {s : σ}
    (first : Reported R D.account d (x r s)) (second : ∀ a, Reports R (f a)) :
    Reported R D.account d ((x >>= f) r s) := by
  rw [run_bind]
  cases run : x r s with
  | ok a t =>
    rw [run] at first
    exact ((second a).run r t).mono first
  | error e t =>
    rw [run] at first
    exact first.error_congr rfl

@[grind ←] theorem bind {f : α → ReaderT ρ (EStateM Stop σ) β}
    (first : Reports R x) (second : ∀ a, Reports R (f a)) : Reports R (x >>= f) :=
  ⟨fun r s => bind_run (first.run r s) second⟩

@[grind ←] instance pure (a : α) : Reports R (Pure.pure a : ReaderT ρ (EStateM Stop σ) α) :=
  ⟨fun _ _ => refl _⟩

@[grind ←] theorem map {x : ReaderT ρ (EStateM Stop σ) α} (reports : Reports R x) (f : α → β) :
    Reports R (f <$> x) := by
  exact reports.bind fun a => .pure (f a)

@[grind ←] theorem iterate {step : α → ReaderT ρ (EStateM Stop σ) (α ⊕ β)} (each : ∀ a, Reports R (step a)) (fuel : Nat)
    (a : α) : Reports R (OnePass.iterate step fuel a) := by
  induction fuel generalizing a with
  | zero => exact ⟨fun _ _ => ⟨refl _,nofun⟩⟩
  | succ fuel ih =>
    refine (each a).bind fun next => ?_
    cases next with
    | inl a => exact ih a
    | inr b => exact .pure b

/-! ## Single steps -/

@[grind ←] instance get : Reports R (MonadState.get : ReaderT ρ (EStateM Stop σ) σ) :=
  ⟨fun _ _ => refl _⟩

@[grind ←] instance read : Reports R (MonadReader.read : ReaderT ρ (EStateM Stop σ) ρ) :=
  ⟨fun _ _ => refl _⟩

@[grind ←] instance exhausted : Reports R (throw .exhausted : ReaderT ρ (EStateM Stop σ) α) :=
  ⟨fun _ _ => ⟨refl _,nofun⟩⟩

@[grind ←] theorem modify (quiet : ∀ s, D.account (f s) = D.account s) :
    Reports R (modify f : ReaderT ρ (EStateM Stop σ) PUnit) :=
  ⟨fun _ s => (quiet s ▸ refl _ : R (D.account s) (D.account (f s)))⟩

@[grind ←] theorem modifyGet (quiet : ∀ s, D.account (f s).2 = D.account s) :
    Reports R (MonadState.modifyGet f : ReaderT ρ (EStateM Stop σ) α) :=
  ⟨fun _ s => (quiet s ▸ refl _ : R (D.account s) (D.account (f s).2))⟩

end Reports
end OnePass
