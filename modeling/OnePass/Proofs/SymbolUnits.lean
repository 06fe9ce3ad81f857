import OnePass.Proofs.CourseUnit
import OnePass.Proofs.SessionArena

/-! # The symbol table of a session

As long as the units of a session keep off the sections of the symbol table, everything that is done to the
table can be noted in a ledger, from the null symbol on. A unit that asks for the section of the table
spoils it. -/
namespace OnePass.Session

open Elf Arena Ledger

def unitScope? (src : Source) (world : World) (s : Session) : Option Scope :=
  match enterUnit src world s with
  | .error .. => none
  | .ok _ t =>
    if t.outputType = .preprocess then none
    else match compiledUnit src.name world t with
      | .error .. => none
      | .ok _ c => some c.scope

/-- No object and no function that the unit defines asks for a section of the symbol table, and no symbol of the
unit has a zero in its name. -/
def KeepsOff (src : Source) (world : World) (s : Session) : Prop :=
  '\x00' ∉ src.name.toList ∧ ∀ scope ∈ unitScope? src world s, scope.Tame initial.tables

instance (src : Source) (world : World) (s : Session) : Decidable (KeepsOff src world s) :=
  inferInstanceAs (Decidable (_ ∧ _))

/-- A session in which all units were accepted and kept off the symbol table. Between units anything but its
sections may be changed. -/
inductive Undisturbed : Session → Prop where
  | fresh {s : Session} (start : s.arena = initial) : Undisturbed s
  | configured {s s' : Session} (before : Undisturbed s) (same : s'.arena = s.arena) : Undisturbed s'
  | unit {s s' : Session} {src : Source} {world : World} (before : Undisturbed s) (off : KeepsOff src world s)
    (compiled : compileUnit src world s = .ok ⟨⟩ s') : Undisturbed s'

/-- The ledger is about these sections, and code and data are kept away from the symbol table by default. -/
structure Ledgered (arena : Arena) (l : Ledger) : Prop where
  same : l.arena = arena
  rooted : l.Rooted initial.tables
  roots : arena.text ∉ initial.tables ∧ arena.data ∉ initial.tables ∧ arena.bss ∉ initial.tables

namespace Ledgered

variable {arena : Arena}

theorem initial : Ledgered initial { arena := initial } :=
  ⟨rfl,⟨4,5,6,by decide +kernel,agrees_initial.joined,by decide +kernel⟩,by decide +kernel⟩

theorem books (ledgered : Ledgered arena l) :
    Holdings.Books Arena.initial.tables { arena, scope := {}, text := arena.text, deferred := #[] } l :=
  { ledgered with
    arena := ledgered.same
    text := ledgered.roots.1
    bound _ some := absurd rfl some }

theorem of_books {h : Holdings} (books : h.Books Arena.initial.tables l) : Ledgered h.arena l :=
  ⟨books.arena,books.rooted,books.roots⟩

theorem withFile (ledgered : Ledgered arena l) (free : '\x00' ∉ name.toList) :
    ∃ l', l.Step Arena.initial.tables l' ∧ Ledgered (Session.withFile arena name) l' := by
  obtain ⟨symbol,added⟩ := withFile_added arena name
  have framed := addSymbol_framed added
  rw [← ledgered.same] at added
  have step : l.Step Arena.initial.tables _ := .add (mt zero_mem_ofString.mp free) added
  refine ⟨_,step,by rw [ledgered.same],step.rooted ledgered.rooted,?_⟩
  rw [framed.shell]
  exact ledgered.roots

end Ledgered

theorem compiledUnit_course (ran : compiledUnit name world s = .ok ⟨⟩ c) :
    Course { pre := s.pre, arena := withFile s.arena name, text := (withFile s.arena name).text } c := by
  have arrives := Compile.wholeUnit_proceeds.run _ (Compile.env_steady (unitHost world s) s.settings) _
    (Rests.begin s.pre (withFile s.arena name))
  rwa [show Compile.wholeUnit _ _ = compiledUnit name world s from rfl,ran] at arrives

/-- A unit that keeps off the symbol table can be noted in the ledger. -/
theorem compileUnit_ledgered (off : KeepsOff src world s)
    (run : compileUnit src world s = .ok ⟨⟩ s') (ledgered : Ledgered s.arena l) :
    ∃ l', l.Steps initial.tables l' ∧ Ledgered s'.arena l' := by
  obtain ⟨t,u,entered,processed,same⟩ := compileUnit_entered run
  rw [← (enterUnit_aside src).ok entered] at ledgered
  rw [same]
  rcases processUnit_compiled processed with aside | ⟨compiles,c,ran,arena⟩
  · rw [aside]
    exact ⟨l,.refl,ledgered⟩
  · have tame : c.scope.Tame initial.tables :=
      off.2 c.scope (by simp [unitScope?,entered,compiles,ran])
    obtain ⟨l₁,named,ledgered⟩ := ledgered.withFile off.1
    obtain ⟨l₂,steps,books⟩ := (compiledUnit_course ran).books tame ledgered.books
    rw [arena]
    exact ⟨l₂,.head named steps,.of_books books⟩

theorem Undisturbed.ledgered (undisturbed : Undisturbed s) :
    ∃ l, Steps initial.tables { arena := initial } l ∧ Ledgered s.arena l := by
  induction undisturbed with
  | fresh start => exact ⟨_,.refl,start ▸ Ledgered.initial⟩
  | configured _ same ih => exact same ▸ ih
  | unit _ off compiled ih =>
    obtain ⟨l,steps,ledgered⟩ := ih
    obtain ⟨l',more,ledgered'⟩ := compileUnit_ledgered off compiled ledgered
    exact ⟨l',steps.trans more,ledgered'⟩

/-- After units that keep off the symbol table, its records are those that were written, as they were changed
later, and the table is in order. -/
theorem symbols_kept {session : Session} (undisturbed : session.Undisturbed)
    (few : session.arena.symbolCount session.arena.symtab < 2 ^ 32)
    (short : ∀ strings ∈ (session.arena.get session.arena.symtab).link, (session.arena.get strings).size < 2 ^ 32) :
    session.arena.Orderly ∧
    ∃ l, Steps initial.tables { arena := initial } l ∧ l.arena = session.arena ∧
      session.arena.records = l.writes.foldl RecordWrite.apply initial.records := by
  obtain ⟨l,steps,ledgered⟩ := undisturbed.ledgered
  have steps' : Steps [4,5,6] { arena := initial } l :=
    (by decide +kernel : initial.tables = [4,5,6]) ▸ steps
  obtain ⟨joined,-⟩ := steps'.joined agrees_initial.joined
  rw [← ledgered.same,joined.symtab] at few short
  have agrees := steps'.agrees agrees_initial few (short 5 joined.link)
  rw [← ledgered.same]
  exact ⟨agrees.orderly,l,steps,rfl,agrees.records⟩

def compiledText (text : String) : Option Arena :=
  match compileText text { fuel := 1000, base := 0x400000 } {} with
  | .ok _ s => some s.arena
  | .error .. => none

theorem compiledText_run {text : String} {arena : Arena} (compiled : compiledText text = some arena) :
    ∃ session, compileText text { fuel := 1000, base := 0x400000 } {} = .ok ⟨⟩ session ∧ session.arena = arena := by
  unfold compiledText at compiled
  split at compiled
  · next session run => exact ⟨session,run,Option.some.inj compiled⟩
  · cases compiled

def sectioned : String :=
  "int x __attribute__((section(\".own\"))) = 5; static int y; int f(void)\x7b return x + y; \x7d"

theorem symbols_kept_sectioned : ∃ arena, compiledText sectioned = some arena ∧ arena.Orderly := by
  obtain ⟨off,arena,compiled,few,short⟩ :
      KeepsOff (Source.ofBytes "<string>" (Bytes.ofString sectioned)) { fuel := 1000, base := 0x400000 } {} ∧
      ∃ arena ∈ compiledText sectioned, arena.symbolCount arena.symtab < 2 ^ 32 ∧
        ∀ strings ∈ (arena.get arena.symtab).link, (arena.get strings).size < 2 ^ 32 := by
    decide +kernel
  obtain ⟨session,run,rfl⟩ := compiledText_run compiled
  exact ⟨_,compiled,(symbols_kept (.unit (.fresh rfl) off run) few short).1⟩

/-- An object that asks for the section of the symbol table is put between the records: the table does not end
with a whole record, and the name of the object is lost. -/
theorem symbols_spoiled : ∃ arena ∈ compiledText "int x __attribute__((section(\".symtab\"))) = 5;",
      (arena.get arena.symtab).size % Symbol.recordSize = 4 ∧ "x" ∉ arena.records.map (·.2) := by
  decide +kernel

/-- A declaration in a block that is made to refer to a local object makes another entity: the relocation names a
symbol that is not defined, beside the one of the object. -/
theorem hidden_object_missed :
    ∃ arena ∈ compiledText "static int x = 5; int f(void)\x7b extern int x; return x; \x7d",
      ∃ rel ∈ arena.relocations arena.text, arena.symbolName arena.symtab rel.symbol.toNat = "x" ∧
        (arena.symbol arena.symtab rel.symbol.toNat).index = SectionIndex.undef ∧
        ∃ k < arena.symbolCount arena.symtab, arena.symbolName arena.symtab k = "x" ∧
          (arena.symbol arena.symtab k).index.toNat = (arena.get arena.data).number := by
  decide +kernel

/-- After some units: how many errors the last one counted, and the value of the entry for `f`. -/
def entryOf (units : List String) : Option (Nat × UInt64) :=
  match units.forM compileText { fuel := 1000, base := 0x400000 } {} with
  | .ok _ s => some (s.pre.diagnostics.errorCount,
      (s.arena.symbol s.arena.symtab (s.arena.findSymbol s.arena.symtab "f")).value)
  | .error _ _ => none

/-- A second strong body takes the entry without an error when its unit has called the function, and a
weak body takes it from a strong one. -/
theorem entry_overwritten : entryOf ["int f(void)\x7breturn 1;\x7d"] = some (0,0) ∧
    entryOf ["int f(void)\x7breturn 1;\x7d",
      "int f(void); int g(void)\x7breturn f();\x7d int f(void)\x7breturn 2;\x7d"] = some (0,53) ∧
    entryOf ["int f(void)\x7breturn 1;\x7d","__attribute__((weak)) int f(void)\x7breturn 2;\x7d"] =
      some (0,25) := by
  decide +kernel

end OnePass.Session
