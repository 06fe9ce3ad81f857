import Mathlib.Data.List.Chain
import OnePass.Proofs.MacroHistory

/-! # Included files give way to their includer

Reading goes on in rounds. Whatever the rounds inside an included file do, the one that leaves it leads back to the
files and conditionals among which it was entered. -/
namespace OnePass

open Preprocessor Directive
open List hiding count
open PreM
open Nesting

namespace Nesting

/-- A file that was entered from `outer` is still open, and whatever was opened since lies above `outer`. -/
structure Inside (outer n : Nesting) : Prop where
  files : ∃ inner src, n.files = inner ++ src :: outer.files ∧ src.openConditionals = outer.conditionals.length ∧
    ∀ src ∈ inner, outer.conditionals.length ≤ src.openConditionals
  conditionals : outer.conditionals <:+ n.conditionals

/-- As soon as no more files are open than in `outer`, that is where reading goes on, and one file was left for it. -/
def Returns (outer : Nesting) (trail : List Nesting) : Prop :=
  ∀ inner m after, trail = inner ++ m :: after → (∀ i ∈ inner, outer.files.length < i.files.length) →
    m.files.length ≤ outer.files.length →
    m = outer ∧ ∃ last src, inner.getLast? = some last ∧ last.files = src :: outer.files

/-- The current file was left, and its conditionals with it. -/
def Ends (n m : Nesting) : Prop := ∃ src, n.files = src :: m.files ∧
  m.conditionals = n.conditionals.drop (n.conditionals.length - src.openConditionals)

/-- Whatever lies around stays around, and no more files are entered than may be. -/
structure Within (n m : Nesting) : Prop where
  inside : ∀ {outer}, Inside outer n → Inside outer m
  length_le : m.files.length ≤ max n.files.length maxIncludeDepth

namespace Inside

variable (inside : Inside outer n)

include inside

theorem longer : outer.files.length < n.files.length := by
  obtain ⟨inner,src,files,-⟩ := inside.files
  simp only [files,length_append,length_cons]
  omega

theorem depth_le : outer.conditionals.length ≤ n.depth := by
  obtain ⟨inner,src,files,own,above⟩ := inside.files
  rw [depth,files]
  cases inner with
  | nil => exact own.ge
  | cons first inner => exact above first mem_cons_self

/-- Dropping conditionals of the current file alone leaves those of `outer`. -/
theorem drop (own : count ≤ n.conditionals.length - outer.conditionals.length) :
    outer.conditionals <:+ n.conditionals.drop count := by
  obtain ⟨opened,eq⟩ := inside.conditionals
  rw [← eq,length_append,Nat.add_sub_cancel] at own
  rw [← eq,drop_append_of_le_length own]
  exact suffix_append _ _

theorem move (move : Move n m) : Inside outer m := by
  have reach := inside.depth_le
  obtain ⟨inner,bottom,files,own,above⟩ := inside.files
  cases move with
  | @read src later rest cs same =>
    refine ⟨?_,inside.conditionals⟩
    cases inner with
    | nil =>
      cases files
      exact ⟨[],later,rfl,same.trans own,by simp⟩
    | cons first inner =>
      cases files
      rw [forall_mem_cons] at above
      exact ⟨later :: inner,bottom,rfl,own,forall_mem_cons.2 ⟨same ▸ above.1,above.2⟩⟩
  | opened c => exact ⟨inside.files,inside.conditionals.trans (suffix_cons _ _)⟩
  | chosen held c => exact ⟨inside.files,(inside.drop (by omega)).trans (suffix_cons _ _)⟩
  | closed held | cut => exact ⟨inside.files,inside.drop (by omega)⟩
  | entered src few =>
    have open_ := inside.conditionals.length_le
    exact ⟨⟨_ :: inner,bottom,congrArg _ files,own,forall_mem_cons.2 ⟨open_,above⟩⟩,inside.conditionals⟩

/-- The end of a file keeps inside the one entered from `outer`, or arrives at `outer`. -/
theorem leave (ends : Ends n m) : Inside outer m ∨ m = outer ∧ ∃ src, n.files = src :: outer.files := by
  obtain ⟨inner,bottom,files,own,above⟩ := inside.files
  obtain ⟨src,left,closed⟩ := ends
  rw [left] at files
  cases inner with
  | nil =>
    obtain ⟨rfl,same⟩ := cons_eq_cons.1 files
    have suffix : outer.conditionals <:+ m.conditionals := closed ▸ inside.drop (by omega)
    have short : m.conditionals.length ≤ outer.conditionals.length := by
      rw [closed,length_drop]
      omega
    exact .inr ⟨congrArg₂ Nesting.mk same (suffix.eq_of_length_le short).symm,src,same ▸ left⟩
  | cons first inner =>
    obtain ⟨rfl,same⟩ := cons_eq_cons.1 files
    rw [forall_mem_cons] at above
    exact .inl ⟨⟨inner,bottom,same,own,above.2⟩,closed ▸ inside.drop (by omega)⟩

end Inside

theorem Move.within (move : Move n m) : Within n m := by
  refine ⟨fun inside => inside.move move,?_⟩
  cases move with
  | entered src few => simp; omega
  | _ => simp

theorem Within.refl (n : Nesting) : Within n n := ⟨id,Nat.le_max_left _ _⟩

theorem Within.trans (first : Within n m) (second : Within m k) : Within n k := by
  refine ⟨fun inside => second.inside (first.inside inside),second.length_le.trans ?_⟩
  exact Nat.max_le.2 ⟨first.length_le,Nat.le_max_right _ _⟩

instance : Free fun a b : Account => a.nesting.Within b.nesting where
  refl _ := .refl _
  trans := .trans
  reported _ _ _ := .refl _
  read same := (Move.read same).within
  defined _ _ _ := .refl _
  undefined _ _ := .refl _
  moved _ _ := Move.within

/-! ## Rounds -/

namespace Round

/-- The end of a file that was lexed to its end leaves the file, or closes its conditionals alone. -/
theorem ended {pp t : Preprocessor} (stays : Stays pp.account t.account) (host : Host) :
    ∃ more now, endFile host t = .ok more now ∧ (Within t.nesting now.nesting ∨ Ends pp.nesting now.nesting) := by
  obtain ⟨now,-,closed,run⟩ := endFile_run host t
  obtain ⟨head,conditionals,tail⟩ := stays
  split at run
  next included =>
    cases own : pp.files <;> cases others : t.files <;>
      simp_all [Ends,account,nesting,popFile,fileDepth]
  next => exact ⟨_,_,run,.inl (closed ▸ (Move.cut t.nesting).within)⟩

/-- A round keeps within what is open, or ends the current file. -/
theorem cases (round : Round n m) : Within n m ∨ Ends n m := by
  obtain ⟨host,pp,rfl,rfl⟩ := round
  have kept := (PreM.lex_reports (R := fun a b => a.nesting.Within b.nesting) false).run host pp
  have stays := (PreM.lex_reports (R := Stays) false).run host pp
  unfold PreM.turn PreM.round
  rw [run_bind,run_get]
  dsimp only
  by_cases none : pp.files.isEmpty = true
  · rw [if_pos none]
    exact .inl (.refl _)
  rw [if_neg none,run_bind]
  cases run : PreM.lex false host pp with
  | error e t =>
    rw [run] at kept
    exact .inl kept.1
  | ok tok t =>
    rw [run] at kept stays
    dsimp only
    split_ifs with directive ending
    · have read := ((read_reports (R := fun a b => a.nesting.Within b.nesting)).run host t).mono kept
      rw [run_bind]
      generalize read_ host t = result at read ⊢
      cases result with
      | ok _ u => exact .inl read
      | error e u => exact .inl read.1
    · obtain ⟨more,now,did,turned⟩ := ended stays host
      rw [run_bind,did]
      exact turned.imp_left (Within.trans kept)
    · exact .inl kept

theorem inside (round : Round n m) (inside : Inside outer n) :
    Inside outer m ∨ m = outer ∧ ∃ src, n.files = src :: outer.files := by
  obtain within | ends := round.cases
  · exact .inl (within.inside inside)
  · exact inside.leave ends

theorem length_le (round : Round n m) : m.files.length ≤ max n.files.length maxIncludeDepth := by
  obtain within | ⟨src,left,-⟩ := round.cases
  · exact within.length_le
  · simp [left]

end Round

theorem returns_of_rounds (inside : Inside outer n) (chain : (n :: path).IsChain Round) :
    Returns outer (n :: path) := by
  intro inner m after eq within back
  induction inner generalizing n path with
  | nil =>
    cases eq
    exact absurd inside.longer (Nat.not_lt.2 back)
  | cons first inner ih =>
    rw [cons_append,cons_eq_cons] at eq
    obtain ⟨rfl,rfl⟩ := eq
    rw [forall_mem_cons] at within
    cases inner with
    | nil =>
      obtain again | ⟨same,src,files⟩ := (isChain_cons_cons.1 chain).1.inside inside
      · exact absurd again.longer (Nat.not_lt.2 back)
      · exact ⟨same,n,src,rfl,files⟩
    | cons second inner =>
      rw [cons_append,isChain_cons_cons] at chain
      obtain again | ⟨rfl,-⟩ := chain.1.inside inside
      · obtain ⟨same,last,src,found,files⟩ := ih again chain.2 rfl within.2
        exact ⟨same,last,src,found,files⟩
      · exact absurd (within.2 second mem_cons_self) (Nat.lt_irrefl _)

end Nesting

theorem Account.Follows.rounds {a a' : Account} (follows : a.Follows a') :
    Relation.ReflTransGen Round a.nesting a'.nesting := by
  induction follows with
  | refl => exact .refl
  | reported _ _ ih => exact ih
  | defined _ _ _ ih => exact ih
  | undefined _ _ ih => exact ih
  | moved _ round ih => exact ih.tail round

namespace Session

/-- Behind the entering of a file, whatever rounds of reading come, the file that is left gives way to the very files
and conditionals among which it was entered, and no more than 32 files are open. Every unit is read by such rounds. -/
theorem includes_transparent : (∀ (host : Host) (src : Source) (pp pp' : Preprocessor) (path : List Nesting),
      enterFile src host pp = .ok ⟨⟩ pp' → (pp'.nesting :: path).IsChain Round →
      pp.nesting.Returns (pp'.nesting :: path) ∧ ∀ n ∈ pp'.nesting :: path, n.files.length ≤ 32) ∧
    ∀ (name : String) (world : World) (s : Session),
      Relation.ReflTransGen Round s.pre.nesting (left (processUnit name world s)).pre.nesting := by
  refine ⟨fun host src pp pp' path run chain => ?_,fun name world s => ?rounds⟩
  case rounds => exact (left_reported (processUnit_reports name) world s).rounds
  unfold enterFile at run
  rw [run_bind,run_get] at run
  dsimp only at run
  split at run
  next => cases run
  next few =>
    cases run
    have bound : pp.files.length + 1 ≤ 32 := Nat.lt_of_not_le few
    refine ⟨returns_of_rounds ⟨⟨[],_,rfl,rfl,by simp⟩,List.suffix_rfl⟩ chain,?_⟩
    exact chain.induction (·.files.length ≤ 32) _ (fun _ _ round few => round.length_le.trans (Nat.max_le.2 ⟨few,by decide⟩))
      fun _ => bound

/-- A file that opens a conditional and does not close it, which its end does. -/
theorem includes_transparent_unclosed : let host : Host := { fuel := 9 }
    let src := Source.ofBytes "b.h" (Bytes.ofString "#if 1\n")
    let pp : Preprocessor := { files := [{ name := "a.c", line := 2, text := [] }], conditionals := [⟨true,true⟩] }
    let entered := { pp with files := { src with openConditionals := 1 } :: pp.files, deps := ["b.h"], fileSwitches := 1 }
    let opened := turn host entered
    opened.conditionals.length = 2 ∧ (turn host opened).nesting = pp.nesting := by
  intro host src pp entered opened
  have chain : [entered.nesting,opened.nesting,(turn host opened).nesting].IsChain Round :=
    .cons_cons ⟨host,entered,rfl,rfl⟩ (.cons_cons ⟨host,opened,rfl,rfl⟩ (.singleton _))
  have returns := (includes_transparent.1 host src pp entered _ rfl chain).1
  have inner : ∀ n ∈ [entered.nesting,opened.nesting], pp.nesting.files.length < n.files.length := by
    rw [List.forall_mem_cons,List.forall_mem_singleton]
    exact ⟨by decide,by decide +kernel⟩
  exact ⟨by decide +kernel,(returns _ _ [] rfl inner (by decide +kernel)).1⟩

end Session
end OnePass
