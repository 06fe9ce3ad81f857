import Mathlib.Data.List.Perm.Subperm
import OnePass.Elf.Archive
import OnePass.Elf.ObjectFile
import OnePass.Proofs.Effect

/-! # Loading from an archive

Every pass through the index of an archive but the last loads a member that was not loaded before, and the
index names finitely many. -/
namespace OnePass.Elf.Archive

open List

variable {arena middle after : Arena} {read : String → Nat → Except LoadError (Array UInt8)}

/-! ## One load after another -/

/-- Objects loaded one after another, each from the bytes of a member at a moment when an entry of the index names it
for a wanted symbol. The offsets of all members loaded so far are kept, the latest first. -/
inductive Loading (read : String → Nat → Except LoadError (Array UInt8)) (entries : List (String × Nat)) :
    List Nat → Arena → List Nat → Arena → Prop where
  | stop (done : List Nat) (arena : Arena) : Loading read entries done arena done arena
  | load {done last : List Nat} {arena middle after : Arena} {symbol : String} {offset : Nat} {bytes : Array UInt8}
    (listed : (symbol,offset) ∈ entries) (fresh : offset ∉ done) (wanted : isWanted arena symbol = true)
    (found : read symbol offset = .ok bytes) (loaded : Object.load bytes arena = .ok () middle)
    (rest : Loading read entries (offset :: done) middle last after) : Loading read entries done arena last after

namespace Loading

theorem trans (first : Loading read entries done arena now middle) (second : Loading read entries now middle last after) :
    Loading read entries done arena last after := by
  induction first with
  | stop => exact second
  | load listed fresh wanted found loaded _ ih => exact .load listed fresh wanted found loaded (ih second)

variable (loading : Loading read entries done arena last after)

include loading

theorem suffix : done <:+ last := by
  induction loading with
  | stop => exact suffix_rfl
  | load _ _ _ _ _ _ ih => exact (suffix_cons _ _).trans ih

theorem nodup (unique : done.Nodup) : last.Nodup := by
  induction loading with
  | stop => exact unique
  | load _ fresh _ _ _ _ ih => exact ih (nodup_cons.mpr ⟨fresh,unique⟩)

theorem listed (known : done ⊆ entries.map Prod.snd) : last ⊆ entries.map Prod.snd := by
  induction loading with
  | stop => exact known
  | load listed _ _ _ _ _ ih => exact ih (cons_subset.mpr ⟨mem_map.mpr ⟨_,listed,rfl⟩,known⟩)

theorem idle (none : last.length = done.length) : last = done ∧ after = arena := by
  cases loading with
  | stop => exact ⟨rfl,rfl⟩
  | load _ _ _ _ _ rest =>
    have longer := rest.suffix.length_le
    rw [length_cons] at longer
    omega

end Loading

/-- No symbol is wanted whose member is not among the loaded ones. -/
def Closed (entries : List (String × Nat)) (done : List Nat) (arena : Arena) : Prop :=
  ∀ symbol offset, (symbol,offset) ∈ entries → isWanted arena symbol = true → offset ∈ done

/-! ## One pass -/

theorem sweep_cons (run : sweep read ((symbol,offset) :: rest) done arena = .ok last after) :
    ((offset ∈ done ∨ isWanted arena symbol = false) ∧ sweep read rest done arena = .ok last after) ∨
      (offset ∉ done ∧ isWanted arena symbol = true ∧ ∃ bytes middle, read symbol offset = .ok bytes ∧
        Object.load bytes arena = .ok () middle ∧ sweep read rest (offset :: done) middle = .ok last after) := by
  rw [sweep,bind_run,get_run] at run
  simp only at run
  split at run
  next passed =>
    refine .inl ⟨?_,run⟩
    simpa using passed
  next taken =>
    simp only [Bool.or_eq_true,contains_eq_mem,decide_eq_true_eq,Bool.not_eq_true',not_or,Bool.not_eq_false] at taken
    refine .inr ⟨taken.1,taken.2,?_⟩
    cases found : read symbol offset with
    | error fault =>
      rw [found] at run
      cases run
    | ok bytes =>
      rw [found] at run
      obtain ⟨_,middle,loaded,rest⟩ := bind_eq_ok.mp run
      exact ⟨bytes,middle,rfl,loaded,rest⟩

/-- A pass loads members one after another. If it loads none, all that is wanted was loaded before. -/
theorem sweep_loading (whole : part ⊆ entries) (run : sweep read part done arena = .ok last after) :
    Loading read entries done arena last after ∧ (last.length = done.length → Closed part last after) := by
  induction part generalizing done arena with
  | nil =>
    cases run
    exact ⟨.stop _ _,fun _ _ _ member => absurd member not_mem_nil⟩
  | cons entry part ih =>
    obtain ⟨listed,whole⟩ := cons_subset.mp whole
    rcases sweep_cons run with ⟨passed,rest⟩ | ⟨fresh,wanted,bytes,middle,found,loaded,rest⟩
    · obtain ⟨loading,closed⟩ := ih whole rest
      refine ⟨loading,fun none other place member wanted => ?_⟩
      obtain ⟨rfl,rfl⟩ := loading.idle none
      rcases mem_cons.mp member with here | later
      · obtain ⟨rfl,rfl⟩ := Prod.mk.inj here
        exact passed.resolve_right (by simp [wanted])
      · exact closed none other place later wanted
    · obtain ⟨loading,_⟩ := ih whole rest
      have all := Loading.load listed fresh wanted found loaded loading
      refine ⟨all,fun none => ?_⟩
      have longer := loading.suffix.length_le
      rw [length_cons] at longer
      omega

/-! ## Pass after pass -/

/-- How passes through the index end when nothing bounds their number: with an error, or with the first pass
that loads no member. -/
inductive Passes (read : String → Nat → Except LoadError (Array UInt8)) (entries : List (String × Nat)) :
    List Nat → Arena → EStateM.Result LoadError Arena (List Nat) → Prop where
  | fail {done : List Nat} {arena after : Arena} {e : LoadError}
    (run : sweep read entries done arena = .error e after) : Passes read entries done arena (.error e after)
  | stop {done last : List Nat} {arena after : Arena} (run : sweep read entries done arena = .ok last after)
    (none : last.length = done.length) : Passes read entries done arena (.ok last after)
  | again {done now : List Nat} {arena middle : Arena} {result : EStateM.Result LoadError Arena (List Nat)}
    (run : sweep read entries done arena = .ok now middle) (more : now.length ≠ done.length)
    (rest : Passes read entries now middle result) : Passes read entries done arena result

theorem Passes.closed (passes : Passes read entries done arena (.ok last after)) :
    Loading read entries done arena last after ∧ Closed entries last after := by
  generalize ends : EStateM.Result.ok last after = result at passes
  induction passes with
  | fail => cases ends
  | stop run none =>
    cases ends
    obtain ⟨loading,closed⟩ := sweep_loading (List.Subset.refl _) run
    exact ⟨loading,closed none⟩
  | again run _ _ ih =>
    obtain ⟨loading,closed⟩ := ih ends
    exact ⟨(sweep_loading (List.Subset.refl _) run).1.trans loading,closed⟩

/-- The index names as many members as it has entries at most, so that many passes and one more are enough. -/
theorem sweeps_passes (unique : done.Nodup) (known : done ⊆ entries.map Prod.snd)
    (enough : entries.length < fuel + done.length) :
    Passes read entries done arena (sweeps read entries fuel done arena) := by
  induction fuel generalizing done arena with
  | zero =>
    have few := (subperm_of_subset unique known).length_le
    rw [length_map] at few
    omega
  | succ fuel ih =>
    rw [sweeps,bind_run]
    cases run : sweep read entries done arena with
    | error e after => exact .fail run
    | ok now middle =>
      obtain ⟨loading,_⟩ := sweep_loading (List.Subset.refl _) run
      simp only
      split
      next none => exact .stop run none
      next more =>
        have longer := loading.suffix.length_le
        exact .again run more (ih (loading.nodup unique) (loading.listed known) (by omega))

/-! ## What is read -/

section

variable {entries : List (String × Nat)} {other : String → Nat → Except LoadError (Array UInt8)}
  (same : ∀ symbol offset, (symbol,offset) ∈ entries → read symbol offset = other symbol offset)

include same

theorem sweep_congr (done : List Nat) : sweep read entries done = sweep other entries done := by
  induction entries generalizing done with
  | nil => rfl
  | cons entry rest ih =>
    have here := same entry.1 entry.2 mem_cons_self
    simp only [sweep,here,ih fun symbol offset member => same symbol offset (mem_cons_of_mem _ member)]

/-- Only what is read for the entries of the index matters. -/
theorem loadWanted_congr : loadWanted read entries = loadWanted other entries := by
  have sweeps_congr (fuel : Nat) (done : List Nat) : sweeps read entries fuel done = sweeps other entries fuel done := by
    induction fuel generalizing done with
    | zero => rfl
    | succ fuel ih => simp only [sweeps,sweep_congr same,ih]
  rw [loadWanted,loadWanted,sweeps_congr]

end

theorem slice?_inside {data : Array UInt8} (inside : offset + size ≤ data.size) :
    slice? data offset size = some ((data.toList.drop offset).take size).toArray := by
  rw [slice?,if_pos inside]
  congr 1
  apply Array.toList_inj.mp
  simp [List.extract_eq_take_drop]

/-! ## The archive as a whole -/

theorem readLongNames_data (run : readLongNames archive member = .ok result) : result.data = archive.data := by
  unfold readLongNames at run
  split at run
  · split at run <;> cases run
    rfl
  · cases run
    rfl

theorem parse_data {data : Array UInt8} (parsed : parse data = .ok archive) : archive.data = data := by
  simp only [parse,bind,Except.bind,throw,throwThe,MonadExceptOf.throw,pure,Except.pure] at parsed
  repeat' split at parsed
  all_goals first | cases parsed; rfl | exact readLongNames_data parsed | cases parsed

theorem read_ok (archive : Archive) (symbol : String) (offset : Nat) (bytes : Array UInt8) :
    archive.read symbol offset = .ok bytes ↔ ∃ member, memberAt archive.data archive.longNames offset = .ok member ∧
      archive.first ≤ offset ∧ offset < archive.data.size ∧ slice? archive.data member.start member.size = some bytes := by
  simp only [read,indexedMember,memberData]
  by_cases inside : offset < archive.first ∨ offset ≥ archive.data.size
  · rw [if_pos (by simpa using inside)]
    simp
    omega
  · rw [if_neg (by simpa using inside)]
    obtain ⟨low,high⟩ : archive.first ≤ offset ∧ offset < archive.data.size := by omega
    cases memberAt archive.data archive.longNames offset with
    | error fault => simp
    | ok member =>
      simp only [low,high,true_and]
      cases sliced : slice? archive.data member.start member.size <;> simp [sliced]

/-- For any index and whatever reads its members, loading ends as passes through the index do without any bound. Unless
one of them fails, no member is loaded twice, each is loaded when the index names it for a symbol that is in the table
and undefined, and in the end the index names no loadable member for such a symbol. An archive with an index is loaded
in this way, from the bytes behind the headers that its index names. -/
theorem load_until_closed (read : String → Nat → Except LoadError (Array UInt8)) (entries : List (String × Nat))
    (arena : Arena) :
    (∃ result, Passes read entries [] arena result ∧
      match result with
      | .error e after => loadWanted read entries arena = .error e after
      | .ok done after => loadWanted read entries arena = .ok done.length after ∧ done.Nodup ∧
          Loading read entries [] arena done after ∧ Closed entries done after) ∧
    ∀ data archive, parse data = .ok archive → archive.symbols = .ok (some entries) →
      load data arena = loadWanted archive.read entries arena ∧
      ∀ symbol offset bytes, archive.read symbol offset = .ok bytes ↔ ∃ member,
        memberAt data archive.longNames offset = .ok member ∧ archive.first ≤ offset ∧ offset < data.size ∧
        slice? data member.start member.size = some bytes := by
  have passes : Passes read entries [] arena (sweeps read entries (entries.length + 1) [] arena) :=
    sweeps_passes List.nodup_nil (List.nil_subset _) (by simp)
  refine ⟨⟨_,passes,?_⟩,fun data archive parsed indexed => ⟨?_,fun symbol offset bytes => ?_⟩⟩
  · cases ends : sweeps read entries (entries.length + 1) [] arena with
    | error e after => simp [loadWanted,bind_run,ends]
    | ok done after =>
      rw [ends] at passes
      obtain ⟨loading,closed⟩ := passes.closed
      refine ⟨?_,loading.nodup List.nodup_nil,loading,closed⟩
      rw [loadWanted,bind_run,ends]
      rfl
  · simp only [load,parsed,indexed]
  · rw [read_ok,parse_data parsed]

/-- An object that defines one symbol and needs another. -/
def needing (name needed : String) : Array UInt8 :=
  let symbols : List Elf.Symbol := [{},{ nameOffset := 1, info := 0x10, index := SectionIndex.abs },
    { nameOffset := 3, info := 0x10 }]
  let headers : List ObjectFile.Header := [
    { name := 0, type := SectionType.symtab, offset := 64, size := 72, link := 2 },
    { name := 0, type := SectionType.strtab, offset := 136, size := 5 }]
  (ObjectFile.fileHeader 141 3 2 ++ symbols.flatMap Symbol.encode ++ Bytes.ofString ("\x00" ++ name ++ "\x00" ++ needed ++
    "\x00") ++ Bytes.zeros 64 ++ headers.flatMap ObjectFile.Header.encode).toArray

/-- Two members that need each other. The index names the one that is not asked for first. -/
def circle : Array UInt8 :=
  (Bytes.ofString "!<arch>\n/               0           0     0     0       16        `\n" ++
    [0,0,0,2,0,0,1,0xde,0,0,0,84] ++ Bytes.ofString "b\x00a\x00" ++
    Bytes.ofString "a.o/            0           0     0     0       333       `\n" ++ (needing "a" "b").toList ++
    Bytes.ofString "\nb.o/            0           0     0     0       333       `\n" ++ (needing "b" "a").toList).toArray

/-- The member with a symbol. -/
def held (symbol : String) : Array UInt8 := if symbol = "a" then needing "a" "b" else needing "b" "a"

theorem circle_held (symbol : String) (offset : Nat) (member : (symbol,offset) ∈ [("b",478),("a",84)]) :
    ∃ member, memberAt circle #[] offset = .ok member ∧ 84 ≤ offset ∧ offset < circle.size ∧
      slice? circle member.start member.size = some (held symbol) := by
  have places : ∀ entry ∈ [("b",478),("a",84)], ((memberAt circle #[] entry.2).toOption.any fun member =>
      decide (84 ≤ entry.2 ∧ entry.2 < circle.size ∧ member.start + member.size ≤ circle.size ∧
        (circle.toList.drop member.start).take member.size = (held entry.1).toList)) = true := by decide +kernel
  have place := places _ member
  cases found : memberAt circle #[] offset with
  | error fault =>
    rw [found] at place
    cases place
  | ok member =>
    rw [found] at place
    obtain ⟨low,high,inside,bytes⟩ := of_decide_eq_true place
    exact ⟨_,rfl,low,high,by rw [slice?_inside inside,bytes,Array.toArray_toList]⟩

def asking : Arena := (Arena.initial.putSymbol 4 { info := 0x10, index := SectionIndex.undef } "a").2

/-- When the first pass comes to the first entry, its symbol is not asked for yet. So it takes a second one. -/
theorem load_until_closed_circle : ∃ archive, parse circle = .ok archive ∧
    archive.symbols = .ok (some [("b",478),("a",84)]) ∧ isWanted asking "b" = false ∧
    ∃ done after, load circle asking = .ok 2 after ∧ done.length = 2 ∧
      Loading archive.read [("b",478),("a",84)] [] asking done after ∧ Closed [("b",478),("a",84)] done after := by
  have index : (match parse circle with
      | .ok archive => (archive.symbols,archive.longNames,archive.first)
      | .error fault => (.error (.invalidArchive fault),#[],0)) = (.ok (some [("b",478),("a",84)]),#[],84) := by
    decide +kernel
  have two : succeeds (· == 2) (loadWanted (fun symbol _ => .ok (held symbol)) [("b",478),("a",84)] asking) = true := by
    decide +kernel
  obtain ⟨count,after,run,same⟩ := succeeds_iff.mp two
  obtain rfl := eq_of_beq same
  cases parsed : parse circle with
  | error fault =>
    rw [parsed] at index
    cases index
  | ok archive =>
    rw [parsed] at index
    obtain ⟨index,names,first⟩ : archive.symbols = .ok (some [("b",478),("a",84)]) ∧ archive.longNames = #[] ∧
        archive.first = 84 := by simpa using index
    obtain ⟨⟨result,_,ends⟩,whole⟩ := load_until_closed archive.read [("b",478),("a",84)] asking
    have reads symbol offset (member : (symbol,offset) ∈ [("b",478),("a",84)]) :
        archive.read symbol offset = .ok (held symbol) := by
      rw [(whole circle archive parsed index).2,names,first]
      exact circle_held symbol offset member
    rw [← loadWanted_congr reads] at run
    refine ⟨archive,rfl,index,by decide +kernel,?_⟩
    cases result with
    | error e state =>
      rw [run] at ends
      cases ends
    | ok done state =>
      obtain ⟨loaded,_,loading,closed⟩ := ends
      rw [run] at loaded
      obtain ⟨two,rfl⟩ := EStateM.Result.ok.inj loaded
      exact ⟨done,after,(whole circle archive parsed index).1.trans run,two.symm,loading,closed⟩

end OnePass.Elf.Archive
