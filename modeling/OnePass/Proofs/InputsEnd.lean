import Mathlib.Data.Set.Finite.Basic
import Mathlib.Order.WellFounded
import OnePass.Proofs.SessionArena

/-! # Inputs that lead to further inputs

A linker script names files and libraries, which may be linker scripts themselves. Adding an input comes to
an end when none of the inputs that it leads to leads back to itself. -/
namespace OnePass.Session

open Elf Session Relation FileSystem OnePass.Path LinkScript
open ReflTransGen

variable {files : FileSystem}

deriving instance DecidableEq for Except

/-! ## What adding inputs does not change -/

/-- What decides where an input leads. -/
structure Surroundings where
  files : FileSystem
  libraryPaths : List String
  outputType : OutputType

def surroundings (s : Session) : Surroundings := ⟨s.files,s.libraryPaths,s.outputType⟩

namespace Fixes

theorem failOn (chain : List Location) (fault : SessionFault) : Fixes surroundings (failOn chain fault : SessionM α) :=
  fun _ _ => rfl

theorem load (chain : List Location) (act : LoadM α) : Fixes surroundings (load chain act) := by
  intro world s
  simp only [Session.load,run_bind,run_get]
  cases act s.arena with
  | ok a arena => rfl
  | error e arena => rfl

theorem processUnit (name : String) : Fixes surroundings (processUnit name) := by
  refine .bind .get fun s => ?_
  split
  · exact .preprocess (fun _ _ => rfl) _
  all_goals
    refine .bind (.modify fun _ => rfl) fun _ => .bind (.bind .read fun _ => .bind .get fun _ => .pure _) fun host => ?_
    intro world s
    rw [run_bind,run_get]
    dsimp only
    cases (Compile.compile host s.settings s.pre s.arena).1 with
    | ok _ => rfl
    | error e => rfl

theorem compileUnit (src : Source) : Fixes surroundings (compileUnit src) := by
  refine .bind (.configure (fun _ _ => rfl) fun _ => rfl) fun _ => .bind .get fun _ => ?_
  extract_lets rest
  have restFixes : ∀ u, Fixes surroundings (rest u) := by
    refine fun _ => .bind (.modify fun _ => rfl) fun _ => .bind .get fun _ => ?_
    refine .bind (.finishing (.bind (.preprocess (fun _ _ => rfl) _) fun _ => .processUnit _) fun _ => rfl)
      fun _ => .bind .get fun _ => ?_
    dsimp only
    split
    · exact .throw _
    · exact .pure _
  split
  · exact .bind (.failOn _ _) restFixes
  · exact restFixes ()

theorem compileFile (name : String) : Fixes surroundings (compileFile name) := by
  unfold Session.compileFile
  split
  · exact .bind .read fun _ => .compileUnit _
  · refine .bind (.preprocess (fun _ _ => rfl) _) fun opened => ?_
    split
    · exact .compileUnit _
    · exact .compileUnit _
    · exact .failOn _ _

end Fixes

/-! ## Where an input leads -/

namespace Surroundings

variable (around : Surroundings)

def holds (name : String) : Bool := (around.files.lookup name).toOption.isSome

def inPaths (file : String) : List String := around.libraryPaths.map (· ++ "/" ++ file)

def library? (name : String) : Option String :=
  match (around.inPaths ("lib" ++ name ++ ".so")).find? around.holds with
  | some path => some path
  | none => (around.inPaths ("lib" ++ name ++ ".a")).find? around.holds

def compiles (name : String) : Bool :=
  around.outputType == .preprocess || (extension name).isEmpty || extension name == "c" || name == "-"

def named : ScriptInput → List ScriptInput
  | .library name => [.library name]
  | .file name => (((name :: around.inPaths name).find? around.holds).map ScriptInput.file).toList

def ofScript (contents : Bytes) : List ScriptInput :=
  match parse contents with
  | .ok inputs => inputs.flatMap around.named
  | .error _ => []

def next : ScriptInput → List ScriptInput
  | .library name => ((around.library? name).map ScriptInput.file).toList
  | .file name =>
    if around.compiles name then []
    else match around.files.lookup name with
      | .ok (.file contents) =>
        match classify contents.toArray with
        | .ok .script => around.ofScript contents
        | _ => []
      | _ => []

def Leads (input other : ScriptInput) : Prop := other ∈ around.next input

end Surroundings

/-! ## One input -/

/-- Add an item of the script on a chain of files; `add` adds the input that it comes to. -/
def addItem (add : ScriptInput → SessionM Unit) (chain : List Location) : ScriptInput → SessionM Unit
  | .library name => add (.library name)
  | .file name => do
    match ← firstExisting? (name :: (← inLibraryPaths name)) with
    | some path => add (.file path)
    | none => failOn chain (.inputNotFound name)

def addContents (add : ScriptInput → SessionM Unit) (chain : List Location) (contents : Bytes) : SessionM Unit :=
  let data := contents.toArray
  match classify data with
  | .error e => failOn chain (.load e)
  | .ok .object => load chain (Object.load data)
  | .ok .archive => load chain (Archive.load data)
  | .ok .sharedObject => load chain (SharedObject.load data)
  | .ok .coff => failOn chain .coff
  | .ok .script =>
    match parse contents with
    | .error e => failOn chain (.load e)
    | .ok inputs => inputs.forM (addItem add chain)

def addStep (add : ScriptInput → SessionM Unit) : ScriptInput → SessionM Unit
  | .library name => do
    match ← findLibrary? name with
    | some path => add (.file path)
    | none => fail (.libraryNotFound name)
  | .file name => do
    let extension := extension name
    if (← get).outputType == .preprocess || extension.isEmpty || extension == "c" || name == "-" then
      compileFile name
    else
      match ← preprocess (PreM.lookup name) with
      | .ok (.file contents) =>
        modify fun s => { s with pre := { s.pre with deps := s.pre.deps ++ [name] } }
        addContents add [⟨name,0⟩] contents
      | _ => fail (.fileNotFound name)

theorem addInput_succ (fuel : Nat) (input : ScriptInput) : addInput (fuel + 1) input = addStep (addInput fuel) input := by
  cases input with
  | library name => rfl
  | file name => rfl

/-- The computation always gives the same value, and leaves these surroundings alone. -/
def Yields {α : Type} (around : Surroundings) (x : SessionM α) (a : α) : Prop :=
  ∀ world s, s.surroundings = around → ∃ t, x world s = .ok a t ∧ t.surroundings = around

theorem lookup_run (name : String) (host : Host) (pp : Preprocessor) :
    ∃ after, PreM.lookup name host pp = .ok (host.files.lookup name) after := by
  simp only [PreM.lookup,PreM.resolve,lookup,run_bind,run_read]
  cases host.files.resolve name with
  | ok found | error e => exact ⟨_,rfl⟩

theorem lookup_yields (around : Surroundings) (name : String) :
    Yields around (preprocess (PreM.lookup name)) (around.files.lookup name) := by
  rintro world s rfl
  obtain ⟨after,run⟩ := lookup_run name (unitHost world s) s.pre
  refine ⟨{ s with pre := after },?_,rfl⟩
  simp only [preprocess,host,run_bind,run_read,run_get,run_pure]
  rw [unitHost] at run
  rw [run]
  rfl

theorem firstExisting?_yields (around : Surroundings) (names : List String) :
    Yields around (firstExisting? names) (names.find? around.holds) := by
  induction names with
  | nil => exact fun _ s same => ⟨s,rfl,same⟩
  | cons name rest ih =>
    intro world s same
    obtain ⟨t,found,same'⟩ := lookup_yields around name world s same
    simp only [firstExisting?,nameExists,run_bind,found,List.find?_cons,Surroundings.holds]
    cases (around.files.lookup name).toOption.isSome with
    | true => exact ⟨t,rfl,same'⟩
    | false => exact ih world t same'

theorem findLibrary?_yields (around : Surroundings) (name : String) :
    Yields around (findLibrary? name) (around.library? name) := by
  rintro world s same
  have paths file : s.libraryPaths.map (· ++ "/" ++ file) = around.inPaths file := by
    rw [← same]
    rfl
  obtain ⟨t,shared,same'⟩ := firstExisting?_yields around (around.inPaths ("lib" ++ name ++ ".so")) world s same
  simp only [findLibrary?,inLibraryPaths,run_bind,run_get,run_pure,paths,shared,Surroundings.library?]
  cases (around.inPaths ("lib" ++ name ++ ".so")).find? around.holds with
  | some path => exact ⟨t,rfl,same'⟩
  | none =>
    have paths' : t.libraryPaths.map (· ++ "/" ++ ("lib" ++ name ++ ".a")) = around.inPaths ("lib" ++ name ++ ".a") := by
      rw [← same']
      rfl
    simp only [run_bind,run_get,paths']
    exact firstExisting?_yields around _ world t same'

/-! ## Adding with two bounds -/

/-- A unit ran out of its own allowance and left this session behind. -/
def UnitExhausted (world : World) (s : Session) : Prop := ∃ name before, compileFile name world before = .error .exhausted s

/-- Two computations do the same in these surroundings and leave them alone; only a unit can run out. -/
def Agree {α : Type} (around : Surroundings) (x y : SessionM α) : Prop :=
  ∀ world s, s.surroundings = around → x world s = y world s ∧ (left (x world s)).surroundings = around ∧
    ∀ t, x world s = .error .exhausted t → UnitExhausted world t

namespace Agree

theorem of_yields (yields : Yields around x a)
    (agree : Agree around (f a) (g a)) : Agree around (x >>= f) (x >>= g) := by
  intro world s same
  obtain ⟨t,run,same'⟩ := yields world s same
  rw [run_bind,run_bind,run]
  exact agree world t same'

theorem bind (first : Agree around x y)
    (second : ∀ a, Agree around (f a) (g a)) : Agree around (x >>= f) (y >>= g) := by
  intro world s same
  obtain ⟨equal,kept,ends⟩ := first world s same
  rw [run_bind,run_bind,← equal]
  cases run : x world s with
  | ok a t =>
    rw [run] at kept
    exact second a world t kept
  | error e t =>
    rw [run] at kept ends
    refine ⟨rfl,kept,fun u failed => ?_⟩
    cases failed
    exact ends t rfl

theorem of_get (each : ∀ s, s.surroundings = around → Agree around (f s) (g s)) :
    Agree around (get >>= f) (get >>= g) := fun world s same => each s same world s same

theorem of_modify (kept : ∀ s, (h s).surroundings = s.surroundings)
    (agree : Agree around (f ()) (g ())) : Agree around (modify h >>= f) (modify h >>= g) :=
  fun world s same => agree world (h s) ((kept s).trans same)

theorem pure (a : α) : Agree around (Pure.pure a) (Pure.pure a) := by
  refine fun _ _ same => ⟨rfl,same,fun _ failed => ?_⟩
  cases failed

theorem failOn (chain : List Location) (fault : SessionFault) :
    Agree around (failOn chain fault : SessionM α) (failOn chain fault) := by
  refine fun _ _ same => ⟨rfl,same,fun _ failed => ?_⟩
  cases failed

theorem load (chain : List Location) (act : LoadM α) : Agree around (load chain act) (load chain act) := by
  refine fun world s same => ⟨rfl,(Fixes.load chain act world s).trans same,fun t failed => ?_⟩
  simp only [Session.load,run_bind,run_get] at failed
  cases run : act s.arena with
  | ok a arena | error e arena =>
    simp only [run] at failed
    cases failed

theorem compileFile (name : String) : Agree around (compileFile name) (compileFile name) :=
  fun world s same => ⟨rfl,(Fixes.compileFile name world s).trans same,fun _ failed => ⟨name,s,failed⟩⟩

theorem forM {γ : Type} {f g : γ → SessionM Unit} (items : List γ) (each : ∀ c ∈ items, Agree around (f c) (g c)) :
    Agree around (items.forM f) (items.forM g) := by
  induction items with
  | nil => exact .pure _
  | cons c rest ih =>
    exact (each c (by simp)).bind fun _ => ih fun d member => each d (by simp [member])

end Agree

section Bounds

theorem inLibraryPaths_yields (around : Surroundings) (file : String) :
    Yields around (inLibraryPaths file) (around.inPaths file) := by
  rintro world s rfl
  exact ⟨s,rfl,rfl⟩

theorem addItem_agree (chain : List Location) (item : ScriptInput)
    (agree : ∀ other ∈ around.named item, Agree around (add other) (add' other)) :
    Agree around (addItem add chain item) (addItem add' chain item) := by
  cases item with
  | library name => exact agree _ (by simp [Surroundings.named])
  | file name =>
    refine .of_yields (inLibraryPaths_yields around name) (.of_yields (firstExisting?_yields around _) ?_)
    cases found : (name :: around.inPaths name).find? around.holds with
    | some path => exact agree _ (by simp [Surroundings.named,found])
    | none => exact .failOn _ _

theorem addContents_agree (chain : List Location) (contents : Bytes)
    (agree : classify contents.toArray = .ok .script →
      ∀ other ∈ around.ofScript contents, Agree around (add other) (add' other)) :
    Agree around (addContents add chain contents) (addContents add' chain contents) := by
  unfold addContents
  dsimp only
  split
  · exact .failOn _ _
  · exact .load _ _
  · exact .load _ _
  · exact .load _ _
  · exact .failOn _ _
  next script =>
    split
    · exact .failOn _ _
    next inputs parsed =>
      refine .forM inputs fun item member => addItem_agree chain item fun other named => agree script other ?_
      rw [Surroundings.ofScript,parsed]
      exact List.mem_flatMap.mpr ⟨item,member,named⟩

theorem addStep_agree (input : ScriptInput)
    (agree : ∀ other, around.Leads input other → Agree around (add other) (add' other)) :
    Agree around (addStep add input) (addStep add' input) := by
  cases input with
  | library name =>
    refine .of_yields (findLibrary?_yields around name) ?_
    cases found : around.library? name with
    | some path => exact agree (.file path) (by simp [Surroundings.Leads,Surroundings.next,found])
    | none => exact .failOn _ _
  | file name =>
    refine .of_get fun s same => ?_
    have compiles : (s.outputType == .preprocess || (extension name).isEmpty || extension name == "c" ||
        name == "-") = around.compiles name := by
      rw [← same]
      rfl
    simp only [compiles]
    cases compiled : around.compiles name with
    | true => exact .compileFile name
    | false =>
      refine .of_yields (lookup_yields around name) ?_
      cases found : around.files.lookup name with
      | error e => exact .failOn _ _
      | ok node =>
        cases node with
        | directory => exact .failOn _ _
        | file contents =>
          refine .of_modify (fun _ => rfl) (addContents_agree _ contents fun script other member => agree other ?_)
          simpa [Surroundings.Leads,Surroundings.next,compiled,found,script] using member

/-- Adding an input does not depend on the bound from a depth on. -/
def EndsAt (around : Surroundings) (depth : Nat) (input : ScriptInput) : Prop :=
  ∀ n m, depth ≤ n → depth ≤ m → Agree around (addInput n input) (addInput m input)

theorem endsAt_common (inputs : List ScriptInput) (each : ∀ input ∈ inputs, ∃ depth, EndsAt around depth input) :
    ∃ depth, ∀ input ∈ inputs, EndsAt around depth input := by
  induction inputs with
  | nil => exact ⟨0,by simp⟩
  | cons input rest ih =>
    obtain ⟨first,ends⟩ := each input (by simp)
    obtain ⟨others,later⟩ := ih fun other member => each other (by simp [member])
    refine ⟨max first others,fun other member n m enough enough' => ?_⟩
    rcases List.mem_cons.mp member with rfl | member
    · exact ends n m (by omega) (by omega)
    · exact later other member n m (by omega) (by omega)

theorem endsAt_of_acc (input : ScriptInput) (ends : Acc (fun other input => around.Leads input other) input) :
    ∃ depth, EndsAt around depth input := by
  induction ends with
  | intro input _ ih =>
    obtain ⟨depth,agree⟩ := endsAt_common (around.next input) ih
    refine ⟨depth + 1,fun n m enough enough' => ?_⟩
    obtain ⟨n,rfl⟩ : ∃ k, n = k + 1 := ⟨n - 1,by omega⟩
    obtain ⟨m,rfl⟩ : ∃ k, m = k + 1 := ⟨m - 1,by omega⟩
    rw [addInput_succ,addInput_succ]
    exact addStep_agree input fun other leads => agree other leads n m (by omega) (by omega)

end Bounds

/-! ## Finitely many inputs -/

/-- From a place from which finitely many others are reached, and none of them from itself, every way ends. -/
theorem acc_of_acyclic {α : Type} {r : α → α → Prop} {a : α} (finite : {b | ReflTransGen r a b}.Finite)
    (acyclic : ∀ b, ReflTransGen r a b → ¬TransGen r b b) : Acc (fun c b => r b c) a := by
  let before (c b : {b | ReflTransGen r a b}) : Prop := TransGen r b.1 c.1
  have : Finite {b | ReflTransGen r a b} := finite
  have : Std.Irrefl before := ⟨fun b cycle => acyclic b.1 b.2 cycle⟩
  have ends : WellFounded before := Finite.wellFounded_of_trans_of_irrefl before
  suffices ∀ b : {b | ReflTransGen r a b}, Acc (fun c b => r b c) b.1 from this ⟨a,.refl⟩
  intro b
  induction ends.apply b with
  | intro b _ ih => exact ⟨_,fun c step => ih ⟨c,b.2.tail step⟩ (.single step)⟩

theorem walk_mem (here rest : List String)
    (found : files.walk here rest = .ok (key,.file contents)) : (key,contents) ∈ files.files := by
  fun_induction walk files here rest with
  | case1 here node held =>
    obtain ⟨rfl,rfl⟩ := Prod.mk.inj (Except.ok.inj found)
    rw [node?] at held
    split at held
    next listed =>
      cases held
      obtain ⟨_,_,split,-⟩ := List.lookup_eq_some_iff.mp listed
      simp [split]
    next => split at held <;> cases held
  | case5 here component rest _ _ ih => exact ih found
  | case6 here component rest _ _ _ ih => exact ih found
  | case8 here component rest _ _ _ _ ih => exact ih found
  | _ => cases found

theorem lookup_mem (found : files.lookup name = .ok (.file contents)) : ∃ key, (key,contents) ∈ files.files := by
  unfold lookup resolve at found
  split at found
  · cases found
  · cases walked : files.walk (start name) (parts '/' name) with
    | error e =>
      rw [walked] at found
      cases found
    | ok result =>
      rw [walked] at found
      obtain ⟨key,node⟩ := result
      cases found
      exact ⟨key,walk_mem _ _ walked⟩

namespace Surroundings

variable (around : Surroundings)

def scripted : List ScriptInput := around.files.files.flatMap fun file => around.ofScript file.2

theorem next_file_subset (name : String) : around.next (.file name) ⊆ around.scripted := by
  intro other member
  rw [next] at member
  split at member
  · cases member
  · split at member
    next contents found =>
      split at member
      · obtain ⟨key,listed⟩ := lookup_mem found
        exact List.mem_flatMap.mpr ⟨_,listed,member⟩
      · cases member
    next => cases member

theorem library_scripted (leads : around.Leads input (.library name)) : .library name ∈ around.scripted := by
  cases input with
  | library other => simp [Leads,next] at leads
  | file other => exact around.next_file_subset other leads

/-- Behind an input and what is next to it there is only what scripts lead to, and where libraries are found. -/
theorem leads_finite (input : ScriptInput) : {other | ReflTransGen around.Leads input other}.Finite := by
  refine ((input :: around.next input ++ (around.scripted ++ around.scripted.flatMap around.next)).finite_toSet).subset ?_
  intro other leads
  induction leads with
  | refl => simp
  | @tail middle other before step ih =>
    cases middle with
    | file name =>
      have scripted := around.next_file_subset name step
      simp [scripted]
    | library name =>
      -- the library is the input itself, or a script names it
      rcases cases_tail before with rfl | ⟨_,_,named⟩
      · have next : other ∈ around.next (.library name) := step
        simp [next]
      · have scripted := around.library_scripted named
        have next : ∃ item ∈ around.scripted, other ∈ around.next item := ⟨_,scripted,step⟩
        simp [next]

end Surroundings

/-- When none of the inputs that an input leads to leads back to itself, adding it ends: with every bound from some
depth on the same is done, and then only a unit can run out of its allowance. -/
theorem inputs_end (world : World) (s : Session) (input : ScriptInput)
    (acyclic : ∀ other, ReflTransGen s.surroundings.Leads input other →
      ¬TransGen s.surroundings.Leads other other) :
    ∃ depth, ∀ n, depth ≤ n → addInput n input world s = addInput depth input world s ∧
      ∀ t, addInput n input world s = .error .exhausted t → UnitExhausted world t := by
  obtain ⟨depth,ends⟩ := endsAt_of_acc input (acc_of_acyclic (s.surroundings.leads_finite input) acyclic)
  refine ⟨depth,fun n enough => ?_⟩
  obtain ⟨same,-,only⟩ := ends n depth enough (Nat.le_refl _) world s rfl
  exact ⟨same,only⟩

/-- A script that names another one. -/
def twoScripts : Session :=
  { files := { files := [(["a.ld"],Bytes.ofString "INPUT(b.ld)"),(["b.ld"],Bytes.ofString "OUTPUT_FORMAT(elf64)")] } }

theorem inputs_end_twoScripts : (∀ other, ReflTransGen twoScripts.surroundings.Leads (.file "a.ld") other →
      ¬TransGen twoScripts.surroundings.Leads other other) ∧
    ∃ depth, ∀ n, depth ≤ n → addInput n (.file "a.ld") { fuel := 0, base := 0 } twoScripts =
      addInput depth (.file "a.ld") { fuel := 0, base := 0 } twoScripts := by
  have first : twoScripts.surroundings.next (.file "a.ld") = [.file "b.ld"] := by decide +kernel
  have second : twoScripts.surroundings.next (.file "b.ld") = [] := by decide +kernel
  have last (other : ScriptInput) : ¬twoScripts.surroundings.Leads (.file "b.ld") other := by
    simp [Surroundings.Leads,second]
  have only (other : ScriptInput) (leads : twoScripts.surroundings.Leads (.file "a.ld") other) : other = .file "b.ld" := by
    simpa [Surroundings.Leads,first] using leads
  have acyclic : ∀ other, ReflTransGen twoScripts.surroundings.Leads (.file "a.ld") other →
      ¬TransGen twoScripts.surroundings.Leads other other := by
    intro other reached cycle
    obtain ⟨middle,step,back⟩ := TransGen.head'_iff.mp cycle
    rcases cases_head reached with rfl | ⟨next,step',rest⟩
    · obtain rfl := only middle step
      rcases cases_head back with same | ⟨next,step',_⟩
      · exact absurd same (by decide)
      · exact last next step'
    · obtain rfl := only next step'
      rcases cases_head rest with rfl | ⟨next,step',_⟩
      · exact last middle step
      · exact last next step'
  refine ⟨acyclic,?_⟩
  obtain ⟨depth,ends⟩ := inputs_end { fuel := 0, base := 0 } twoScripts (.file "a.ld") acyclic
  exact ⟨depth,fun n enough => (ends n enough).1⟩

theorem addInput_itself (loaded : around.compiles name = false)
    (found : around.files.lookup name = .ok (.file contents)) (script : classify contents.toArray = .ok .script)
    (parsed : parse contents = .ok (.file item :: rest))
    (itself : (item :: around.inPaths item).find? around.holds = some name) (fuel : Nat) (world : World) (s : Session)
    (same : s.surroundings = around) : ∃ t, addInput fuel (.file name) world s = .error .exhausted t := by
  induction fuel generalizing s with
  | zero => exact ⟨s,rfl⟩
  | succ fuel ih =>
    have compiles : (s.outputType == .preprocess || (extension name).isEmpty || extension name == "c" ||
        name == "-") = false := by
      rwa [← same] at loaded
    obtain ⟨t,looked,same'⟩ := lookup_yields around name world s same
    obtain ⟨u,first,same''⟩ := firstExisting?_yields around (item :: around.inPaths item) world
      { t with pre := { t.pre with deps := t.pre.deps ++ [name] } } same'
    obtain ⟨v,deeper⟩ := ih u same''
    have paths : t.libraryPaths.map (· ++ "/" ++ item) = around.inPaths item := by
      rw [← same']
      rfl
    refine ⟨v,?_⟩
    rw [addInput_succ]
    simp only [addStep,run_bind,run_get,compiles,Bool.false_eq_true,if_false,looked,found,addContents,script,parsed]
    change (addItem (addInput fuel) [⟨name,0⟩] (.file item) >>= fun _ => _) world _ = _
    simp only [addItem,inLibraryPaths,run_bind,run_get,run_pure,paths,first,itself,deeper]

def selfNaming : Session := { files := { files := [(["s.ld"],Bytes.ofString "INPUT(s.ld)")] } }

theorem self_naming_never_ends :
    ¬ ∃ fuel world, ∀ t, addInput fuel (.file "s.ld") world selfNaming ≠ .error .exhausted t := by
  rintro ⟨fuel,world,ends⟩
  have parsed : parse (Bytes.ofString "INPUT(s.ld)") = .ok [.file "s.ld"] := by decide +kernel
  have stuck : ∃ t, addInput fuel (.file "s.ld") world selfNaming = .error .exhausted t :=
    addInput_itself (by decide +kernel) (by decide +kernel) (by decide +kernel) parsed (by decide +kernel) fuel world
      selfNaming rfl
  obtain ⟨t,stuck⟩ := stuck
  exact ends t stuck

end OnePass.Session
