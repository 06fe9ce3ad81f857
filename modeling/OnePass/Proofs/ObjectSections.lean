import OnePass.Elf.Object
import OnePass.Proofs.Effect
import OnePass.Proofs.ObjectRead

/-! # Loading the sections of an object file

The sections of a written file go one after the other to sections of the same names: first to the empty ones
that are there already, then to new ones. Each then holds what was written. -/
namespace OnePass.Elf

open Arena SectionFlag Section Array
open ObjectFile hiding bytes

structure Kin (sec other : Section) : Prop where
  name : other.name = sec.name
  type : other.type = sec.type
  flags : other.flags = sec.flags

/-- Sections that hold the same under the same name. -/
structure SameSection (sec other : Section) : Prop extends Kin sec other where
  size : other.size = sec.size
  contents : other.contents = sec.contents

namespace Section

variable {sec blank : Section}

theorem limit_kin (kin : Kin sec blank) : blank.limit = sec.limit := by rw [limit,limit,isNobits,isNobits,kin.type]

theorem contents_filled (backed : sec.Backed) (size : sec.size = bytes.length) :
    (sec.patch 0 bytes).contents = bytes.toArray := by
  have stored := backed.stored
  have whole : BytesAt (sec.patch 0 bytes).store 0 bytes := by
    exact BytesAt.overwrite_same (by omega)
  have extract := whole.extract
  rw [contents,size_patch,size]
  apply toList_inj.mp
  rw [min_eq_left (by simp [patch]; omega)]
  simpa using extract

theorem filled (kin : Kin sec blank) (whole : sec.Whole) (blankWhole : blank.Whole) :
    SameSection sec ((blank.resize sec.size).patch 0 sec.contents.toList) := by
  obtain ⟨_,_,_,eq⟩ := (Section.Rewritten.resize blank sec.size).trans (.patch _ 0 sec.contents.toList)
  refine ⟨⟨?_,?_,?_⟩,rfl,?_⟩
  · rw [eq]
    exact kin.name
  · rw [eq]
    exact kin.type
  · rw [eq]
    exact kin.flags
  · cases kind : sec.isNobits with
    | true =>
      have kind' : blank.isNobits = true := by rwa [isNobits,kin.type]
      have result : ((blank.resize sec.size).patch 0 sec.contents.toList).store = #[] := by
        have after := (blankWhole.resize sec.size).patch 0 sec.contents.toList
        rw [eq] at after ⊢
        refine (whole_iff ?_).mp after
        exact kind'
      rw [contents,result,contents,(whole_iff kind).mp whole,extract_empty,extract_empty]
    | false =>
      have kind' : blank.isNobits = false := by rwa [isNobits,kin.type]
      rw [contents_filled (resize_backed kind' _)]
      rw [length_toList,(whole.backed kind).size_contents]
      rfl

end Section

namespace Object

variable {sec : Section}

theorem placeSection_run (reads : ReadsContent file sec head) (loadable : isLoadable head = true)
    (found : targetSection sec.name head arena = .ok target middle)
    (aligned : middle.update target (fun s => (({ s with align := max s.align 32 }).alignTo 32).2) = made)
    (kin : Kin sec (made.get target)) (empty : (made.get target).size = 0) (limit : sec.size ≤ sec.limit) :
    placeSection file head arena = .ok (some ⟨target,0,sec.size⟩)
      (made.update target fun _ => ((made.get target).resize sec.size).patch 0 sec.contents.toList) := by
  have align : max head.align 1 = 32 := by rw [reads.align]; rfl
  have grown : (made.get target).grow? sec.size = some (0,(made.get target).resize sec.size) := by
    simp only [grow?,empty,zero_add,limit_kin kin]
    rw [if_pos limit]
  rw [placeSection,loadable]
  simp only [Bool.not_true,Bool.false_eq_true,if_false,reads.name,align,reads.bytes,reads.size,LoadM.format]
  simp only [bind_run,found,pure_run,modify_run,aligned,get_run,grown]

theorem alignTo_empty {s : Section} (empty : s.size = 0) (align : s.align ≤ 32) :
    (({ s with align := max s.align 32 }).alignTo 32).2 = { s with align := 32 } := by
  have largest : max s.align 32 = 32 := if_pos align
  simp only [alignTo,largest,empty]
  rw [if_neg (by decide)]

theorem targetSection_known (found : arena.find? sec.name = some target) (type : (arena.get target).type = head.type) :
    targetSection sec.name head arena = .ok target arena := by
  simp [targetSection,bind_run,found,type]

theorem targetSection_new (absent : arena.find? sec.name = none) (type : head.type = sec.type)
    (flags : head.flags = sec.flags.toUInt64)
    (kept : sec.flags &&& (alloc ||| write ||| exec) = sec.flags) :
    targetSection sec.name head arena = .ok (arena.create sec.name sec.type sec.flags).1
      ((arena.create sec.name sec.type sec.flags).2.update (arena.create sec.name sec.type sec.flags).1
        fun s => { s with align := 1 }) := by
  have same : head.flags.toUInt32 &&& (alloc ||| write ||| exec) = sec.flags := by
    rw [flags,UInt32.toUInt32_toUInt64,kept]
  rw [targetSection]
  simp only [bind_run,get_run,absent,LoadM.change,set_run,pure_run,modify_run,type,same]

theorem isLoadable_content (content : sec.Content) (alloc : sec.isAllocated = true) (type : head.type = sec.type)
    (flags : head.flags = sec.flags.toUInt64) : isLoadable head = true := by
  have set : head.flags &&& SectionFlag.alloc.toUInt64 ≠ 0 := by
    rw [flags,← UInt32.toUInt64_and]
    intro zero
    have low := congrArg UInt64.toUInt32 zero
    rw [UInt32.toUInt32_toUInt64] at low
    simp [isAllocated,low] at alloc
  rw [isLoadable,type]
  rcases content.kind with is | is
  · rw [is]
    simpa using set
  · rw [is]
    simpa using set

end Object

namespace Arena

variable {arena : Arena} {strings hash id : SectionId} {name : String}

theorem Formed.find?_some (formed : arena.Formed strings hash)
    (bare : ∀ id ∈ arena.allocated, (arena.get id).reloc = none) (member : id ∈ arena.allocated) :
    arena.find? (arena.get id).name = some id := by
  have inside := (List.mem_filter.mp member).1
  cases found : arena.find? (arena.get id).name with
  | none =>
    have none := List.find?_eq_none.mp found id inside
    simp at none
  | some other =>
    have named : (arena.get other).name = (arena.get id).name := by simpa using List.find?_some found
    have own := (formed.content id member).fresh
    rcases formed.kinds other (List.mem_of_find?_eq_some found) with content | rfl | rfl | ⟨target,content,owned⟩
    · rw [formed.names other content id member named]
    · rw [formed.table.2.2] at named
      exact absurd named.symm own.1
    · rw [formed.texts.2.2] at named
      exact absurd named.symm own.2
    · rw [bare target content] at owned
      cases owned

theorem Formed.find?_none (formed : arena.Formed strings hash)
    (bare : ∀ id ∈ arena.allocated, (arena.get id).reloc = none) (own : name ≠ ".symtab" ∧ name ≠ ".strtab")
    (fresh : ∀ id ∈ arena.allocated, (arena.get id).name ≠ name) : arena.find? name = none := by
  refine List.find?_eq_none.mpr fun other inside => ?_
  rw [beq_iff_eq]
  rcases formed.kinds other inside with content | rfl | rfl | ⟨target,content,owned⟩
  · exact fresh other content
  · rw [formed.table.2.2]
    exact Ne.symm own.1
  · rw [formed.texts.2.2]
    exact Ne.symm own.2
  · rw [bare target content] at owned
    cases owned

end Arena

namespace Object

variable {strings hash strings' hash' id : SectionId}

/-- The first `j` sections with contents are loaded; those that were there already and are not yet are empty. -/
structure Placing (before after : Arena) (strings hash : SectionId) (j : Nat) : Prop where
  formed : after.Formed strings hash
  bare : ∀ id ∈ after.allocated, (after.get id).reloc = none
  count : after.symbolCount after.symtab = 1
  reach : j ≤ after.allocated.length
  pairs : ∀ (i : Nat) image, after.allocated[i]? = some image → ∃ id, before.allocated[i]? = some id ∧
    if i < j then SameSection (before.get id) (after.get image)
    else Kin (before.get id) (after.get image) ∧ (after.get image).size = 0

theorem Placing.fill (placing : Placing before made strings' hash' j)
    (formed : before.Formed strings hash) (fits : before.Fits) (at_ : before.allocated[j]? = some id)
    (describes : Describes before id head) (target : made.allocated[j]? = some image)
    (found : targetSection (before.get id).name head.read after = .ok image middle)
    (aligned : middle.update image (fun s => (({ s with align := max s.align 32 }).alignTo 32).2) = made) :
    ∃ next, placeSection (fileOf before) head.read after = .ok (some ⟨image,0,(before.get id).size⟩) next ∧
      Placing before next strings' hash' (j + 1) ∧ next.allocated = made.allocated := by
  have member := List.mem_of_getElem? at_
  have inside := List.mem_of_getElem? target
  have bound := (List.getElem?_eq_some_iff.mp target).1
  have reads := describes.content formed fits member
  have content := formed.content id member
  obtain ⟨whole,limit⟩ := formed.whole id member
  obtain ⟨other,same,rest⟩ := placing.pairs j image target
  obtain rfl : id = other := Option.some.inj (at_.symm.trans same)
  rw [if_neg (lt_irrefl j)] at rest
  obtain ⟨kin,empty⟩ := rest
  have loadable := isLoadable_content content (List.mem_filter.mp member).2 reads.type reads.flags
  have blank := (placing.formed.whole image inside).1
  have run := placeSection_run reads loadable found aligned kin empty limit
  have filled := filled kin whole blank
  obtain ⟨formed',framed,_⟩ := placing.formed.rewrite inside
    ((Section.Rewritten.resize _ (before.get id).size).trans (.patch _ 0 (before.get id).contents.toList))
    ((blank.resize _).patch _ _) (by rwa [limit_kin filled.toKin])
    (by rw [empty]; exact Nat.zero_le _)
  have others other different := framed.others other (by simpa using different)
  have here : (made.update image fun _ => ((made.get image).resize (before.get id).size).patch 0
      (before.get id).contents.toList).get image = _ := get_update_same (allocated_bound inside)
  generalize made.update image (fun _ => ((made.get image).resize (before.get id).size).patch 0
    (before.get id).contents.toList) = next at run formed' framed others here
  refine ⟨next,run,⟨formed',?_,?_,?_,?_⟩,framed.allocated⟩
  · intro other listed
    rw [framed.allocated] at listed
    rw [(framed.rewritten other).reloc]
    exact placing.bare other listed
  · rw [framed.symtab,symbolCount_congr (others _ (placing.formed.content_apart inside).1.symm)]
    exact placing.count
  · rw [framed.allocated]
    omega
  · intro i other listed
    rw [framed.allocated] at listed
    obtain ⟨source,found,pair⟩ := placing.pairs i other listed
    refine ⟨source,found,?_⟩
    by_cases last : i = j
    · subst last
      obtain rfl : id = source := Option.some.inj (at_.symm.trans found)
      obtain rfl : image = other := Option.some.inj (target.symm.trans listed)
      rwa [if_pos (Nat.lt_succ_self i),here]
    · have different : other ≠ image := by
        rintro rfl
        exact last ((List.getElem?_inj (List.getElem?_eq_some_iff.mp listed).1
          (allocated_nodup placing.formed.distinct)).mp (listed.trans target.symm))
      rw [others other different]
      by_cases earlier : i < j
      · rw [if_pos earlier] at pair
        rwa [if_pos (by omega)]
      · rw [if_neg earlier] at pair
        rwa [if_neg (by omega)]

theorem Placing.step (placing : Placing before after strings' hash' j) (formed : before.Formed strings hash)
    (fits : before.Fits) (at_ : before.allocated[j]? = some id) (describes : Describes before id head) :
    ∃ image next, placeSection (fileOf before) head.read after = .ok (some ⟨image,0,(before.get id).size⟩) next ∧
      Placing before next strings' hash' (j + 1) ∧ next.allocated[j]? = some image ∧
      after.allocated <+: next.allocated := by
  have member := List.mem_of_getElem? at_
  have reads := describes.content formed fits member
  have content := formed.content id member
  by_cases known : j < after.allocated.length
  · -- The target has been there from the beginning.
    have target := List.getElem?_eq_getElem known
    have inside := List.mem_of_getElem? target
    obtain ⟨other,same,rest⟩ := placing.pairs j _ target
    obtain rfl : id = other := Option.some.inj (at_.symm.trans same)
    rw [if_neg (lt_irrefl j)] at rest
    obtain ⟨kin,empty⟩ := rest
    have found := placing.formed.find?_some placing.bare inside
    rw [kin.name] at found
    have align := (placing.formed.content _ inside).align
    obtain ⟨next,run,placed,allocated⟩ := placing.fill formed fits at_ describes target
      (targetSection_known found (by rw [kin.type,reads.type])) (update_self _ (by
        rw [alignTo_empty empty (by rw [align]; exact UInt64.le_refl _),← align]))
    exact ⟨_,next,run,placed,by rwa [allocated],allocated ▸ List.prefix_rfl⟩
  · -- The target is made.
    have last : j = after.allocated.length := by
      have := placing.reach
      omega
    have fresh : ∀ other ∈ after.allocated, (after.get other).name ≠ (before.get id).name := by
      intro other listed named
      obtain ⟨i,found⟩ := List.getElem?_of_mem listed
      have below := (List.getElem?_eq_some_iff.mp found).1
      obtain ⟨source,origin,pair⟩ := placing.pairs i other found
      rw [if_pos (by omega)] at pair
      rw [pair.name] at named
      have same := formed.names source (List.mem_of_getElem? origin) id member named
      rw [same] at origin
      have index := (List.getElem?_inj (List.getElem?_eq_some_iff.mp origin).1
        (allocated_nodup formed.distinct)).mp (origin.trans at_.symm)
      omega
    have alloc : (before.get id).flags &&& alloc ≠ 0 := by
      simpa [isAllocated] using (List.mem_filter.mp member).2
    have absent := placing.formed.find?_none placing.bare content.fresh fresh
    obtain ⟨formed',index,symtab,allocated,made,old⟩ :=
      placing.formed.create content.kind content.name content.fresh fresh content.flags alloc
    have found := targetSection_new absent reads.type reads.flags content.flags
    rw [index] at found
    generalize (after.create (before.get id).name (before.get id).type (before.get id).flags).2 = created
      at formed' symtab allocated made old found
    have kept other listed : created.get other = after.get other :=
      old other (allocated_bound listed)
    have placing' : Placing before created strings' hash' j := by
      refine ⟨formed',?_,?_,?_,?_⟩
      · intro other listed
        rw [allocated,List.mem_append,List.mem_singleton] at listed
        rcases listed with listed | rfl
        · rw [kept other listed]
          exact placing.bare other listed
        · rw [made]
          rfl
      · rw [symtab,symbolCount_congr (old _ (placing.formed.bound placing.formed.tables.1))]
        exact placing.count
      · rw [allocated,List.length_append]
        omega
      · intro i other listed
        rw [allocated] at listed
        by_cases earlier : i < after.allocated.length
        · rw [List.getElem?_append_left earlier] at listed
          obtain ⟨source,origin,pair⟩ := placing.pairs i other listed
          refine ⟨source,origin,?_⟩
          rwa [kept other (List.mem_of_getElem? listed)]
        · have here : i = j := by
            have bound := (List.getElem?_eq_some_iff.mp listed).1
            rw [List.length_append,List.length_singleton] at bound
            omega
          subst here
          rw [last,List.getElem?_append_right (Nat.le_refl _),Nat.sub_self] at listed
          obtain rfl := Option.some.inj listed
          refine ⟨id,at_,?_⟩
          rw [if_neg (lt_irrefl i),made]
          exact ⟨⟨rfl,rfl,rfl⟩,rfl⟩
    have target : created.allocated[j]? = some after.sections.size := by
      rw [allocated,last,List.getElem?_append_right (Nat.le_refl _),Nat.sub_self]
      rfl
    obtain ⟨next,run,placed,same⟩ := placing'.fill formed fits at_ describes target found (by
      rw [update_update]
      refine update_self _ ?_
      have inside := List.mem_of_getElem? target
      have align := (formed'.content _ inside).align
      have aligned := alignTo_empty (s := { created.get after.sections.size with align := 1 }) (by rw [made]; rfl)
        (show 1 ≤ 32 by decide)
      exact aligned.trans (by rw [← align]))
    exact ⟨_,next,run,placed,by rwa [same],by rw [same,allocated]; exact List.prefix_append _ _⟩

theorem placeSection_skip {head : SectionHeader} (flags : head.flags = 0) :
    placeSection file head arena = .ok none arena := by
  have none : isLoadable head = false := by simp [isLoadable,flags]
  simp [placeSection,none]

/-- Sections with contents that correspond in two arenas. -/
def Image (before after : Arena) (id image : SectionId) : Prop :=
  ∃ j : Nat, before.allocated[j]? = some id ∧ after.allocated[j]? = some image

theorem Image.mono (pair : Image before after id image)
    (grown : after.allocated <+: next.allocated) : Image before next id image := by
  obtain ⟨j,source,target⟩ := pair
  obtain ⟨bound,rfl⟩ := List.getElem?_eq_some_iff.mp target
  exact ⟨j,source,List.prefix_iff_getElem?.mp grown j bound⟩

/-- Where sections landed: those with contents at sections that correspond to them. -/
structure Landed (before after : Arena) (ids : List SectionId) (placed : List (Option Placed)) : Prop where
  length : placed.length = ids.length
  at_ : ∀ (k : Nat) id, ids[k]? = some id → id ∈ before.allocated → ∃ image,
    placed[k]? = some (some ⟨image,0,(before.get id).size⟩) ∧ Image before after id image

/-- All sections are loaded, in the order of their numbers. -/
theorem Placing.all (formed : before.Formed strings hash) (fits : before.Fits) (items : List (SectionId × ObjectFile.Header))
    (describe : ∀ item ∈ items, Describes before item.1 item.2) (done : List SectionId)
    (split : before.numbered = done ++ items.map Prod.fst) (after : Arena)
    (placing : Placing before after strings' hash'
      (done.filter fun id => (before.get id).isAllocated).length) :
    ∃ placed next, (items.map (·.2.read)).mapM (placeSection (fileOf before)) after = .ok placed next ∧
      Placing before next strings' hash' before.allocated.length ∧ Landed before next (items.map Prod.fst) placed ∧
      after.allocated <+: next.allocated := by
  induction items generalizing done after with
  | nil =>
    have all : (done.filter fun id => (before.get id).isAllocated).length = before.allocated.length := by
      rw [allocated,split]
      simp
    rw [all] at placing
    exact ⟨[],after,by rw [List.map_nil]; rfl,placing,⟨rfl,by simp⟩,List.prefix_rfl⟩
  | cons item rest ih =>
    have describes := describe item List.mem_cons_self
    have later := fun item member => describe item (List.mem_cons_of_mem _ member)
    have split' : before.numbered = (done ++ [item.1]) ++ rest.map Prod.fst := by rw [split]; simp
    by_cases content : (before.get item.1).isAllocated = true
    · have at_ : before.allocated[(done.filter fun id => (before.get id).isAllocated).length]? = some item.1 := by
        rw [allocated,split,List.map_cons,List.filter_append,List.getElem?_append_right (le_refl _),
          Nat.sub_self,List.filter_cons_of_pos (by simpa using content)]
        rfl
      obtain ⟨image,middle,run,placing',target,grown⟩ := placing.step formed fits at_ describes
      obtain ⟨placed,next,runs,result,landed,grown'⟩ := ih later (done ++ [item.1]) split' middle (by
        rwa [List.filter_append,List.filter_cons_of_pos (by simpa using content),List.length_append])
      refine ⟨some ⟨image,0,(before.get item.1).size⟩ :: placed,next,?_,result,⟨by simp [landed.length],?_⟩,grown.trans grown'⟩
      · simp only [List.map_cons,List.mapM_cons,bind_run,run,runs,pure_run]
      · intro k id found member
        cases k with
        | zero =>
          obtain rfl : item.1 = id := by simpa using found
          exact ⟨image,rfl,Image.mono ⟨_,at_,target⟩ grown'⟩
        | succ k => exact landed.at_ k id (by simpa using found) member
    · have absent : item.1 ∉ before.allocated := fun member => content (List.mem_filter.mp member).2
      have run : placeSection (fileOf before) item.2.read after = .ok none after :=
        placeSection_skip (describes.flags formed absent)
      obtain ⟨placed,next,runs,result,landed,grown⟩ := ih later (done ++ [item.1]) split' after (by
        rwa [List.filter_append,List.filter_cons_of_neg (by simpa using content),List.filter_nil,List.append_nil])
      refine ⟨none :: placed,next,?_,result,⟨by simp [landed.length],?_⟩,grown⟩
      · simp only [List.map_cons,List.mapM_cons,bind_run,run,runs,pure_run]
      · intro k id found member
        cases k with
        | zero =>
          obtain rfl : item.1 = id := by simpa using found
          exact absurd member absent
        | succ k => exact landed.at_ k id (by simpa using found) member

/-- The sections of a written file are loaded into an arena with nothing but the empty sections that every state
begins with. -/
theorem placeSections_bytes (formed : before.Formed strings hash) (fits : before.Fits)
    (placing : Placing before after strings' hash' 0) :
    ∃ placed next, placeSections (fileOf before) after = .ok placed next ∧
      Placing before next strings' hash' before.allocated.length ∧
      ∀ id ∈ before.allocated, ∃ image,
        placedAt? placed (before.get id).number = some ⟨image,0,(before.get id).size⟩ ∧ Image before next id image := by
  obtain ⟨items,ids,eq,all⟩ := headers_describe (parts formed fits)
  obtain ⟨placed,next,runs,result,landed,grown⟩ := Placing.all formed fits items all [] (by rw [ids]; rfl) after placing
  have last : placeSection (fileOf before) (lastHeader before).read next = .ok none next := placeSection_skip rfl
  refine ⟨none :: (placed ++ [none]),next,?_,result,fun id member => ?_⟩
  · have sections : (fileOf before).sections.toList =
        (nullHeader before).read :: (items.map (·.2.read) ++ [(lastHeader before).read]) := by
      simp [fileOf,eq]
    rw [placeSections,sections]
    simp only [List.mapM_append,List.mapM_cons,List.mapM_nil,bind_run,runs,last,pure_run]
  · obtain ⟨k,positive,listed,number,_⟩ := formed.numbered_at (List.mem_filter.mp member).1
    obtain ⟨j,rfl⟩ : ∃ j, k = j + 1 := ⟨k - 1,by omega⟩
    have found : (items.map Prod.fst)[j]? = some id := by
      rwa [ids,numbered,List.getElem?_drop,getElem?_toList,add_comm]
    obtain ⟨image,at_,pair⟩ := landed.at_ j id found member
    refine ⟨image,?_,pair⟩
    rw [placedAt?,number,List.getElem?_cons_succ,
      List.getElem?_append_left (List.getElem?_eq_some_iff.mp at_).1,at_]
    rfl

theorem Placing.length (placing : Placing before after strings' hash' before.allocated.length) :
    after.allocated.length = before.allocated.length := by
  refine le_antisymm ?_ placing.reach
  cases last : after.allocated.length with
  | zero => exact Nat.zero_le _
  | succ n =>
    obtain ⟨_,found,_⟩ := placing.pairs n _ (List.getElem?_eq_getElem (by omega))
    exact (List.getElem?_eq_some_iff.mp found).1

theorem Placing.listed (placing : Placing before after strings' hash' before.allocated.length)
    (formed : before.Formed strings hash) : after.listed.size ≤ before.listed.size := by
  have loaded : after.numbered.length ≤ (after.allocated ++ [after.symtab,strings']).length := by
    refine (placing.formed.distinct.sublist (List.drop_sublist 1 _)).length_le_of_subset fun id member => ?_
    rcases placing.formed.kinds id member with content | rfl | rfl | ⟨target,content,owned⟩
    · exact List.mem_append_left _ content
    · simp
    · simp
    · rw [placing.bare target content] at owned
      cases owned
  have written : (before.allocated ++ [before.symtab,strings]).length ≤ before.numbered.length := by
    refine List.Nodup.length_le_of_subset ?_ fun id member => ?_
    · refine List.nodup_append.mpr ⟨allocated_nodup formed.distinct,?_,?_⟩
      · simpa using Ne.symm formed.tabled.named.strings_ne
      · intro id content other table
        have apart := formed.content_apart content
        simp only [List.mem_cons,List.not_mem_nil,or_false] at table
        rcases table with rfl | rfl
        · exact apart.1
        · exact apart.2.1
    · simp only [List.mem_append,List.mem_cons,List.not_mem_nil,or_false] at member
      rcases member with content | rfl | rfl
      · exact (List.mem_filter.mp content).1
      · exact formed.tables.1
      · exact formed.tables.2
  have length := placing.length
  rw [List.length_append] at loaded written
  simp only [numbered,List.length_drop,length_toList,List.length_cons] at loaded written
  omega

theorem placing_initial (extends_ : initial.Extends before) : Placing before initial 5 6 0 := by
  refine ⟨formed_initial,by decide,by decide,Nat.zero_le _,fun i image found => ?_⟩
  have member := List.mem_of_getElem? found
  obtain ⟨bound,same⟩ := List.getElem?_eq_some_iff.mp found
  obtain ⟨name,type,flags⟩ := extends_.same image member
  have empty : ∀ id ∈ initial.allocated, (initial.get id).size = 0 := by decide
  refine ⟨image,?_,?_⟩
  · rw [← same]
    exact List.prefix_iff_getElem?.mp extends_.allocated i bound
  · exact ⟨⟨name.symm,type.symm,flags.symm⟩,empty image member⟩

end Object
end OnePass.Elf
