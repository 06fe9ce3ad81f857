import OnePass.Proofs.Alignment

/-! # What loading an object keeps of an arena

The sections of an arena are wired when the symbol table, its strings and chains and the relocations of
every section are tables of their own, outside the image. Appending the sections of an object file, its
symbols and its relocations keeps an arena wired and regular. -/
namespace OnePass

open Elf List Bytes SectionIndex UInt32
open Section (Rewritten isAllocated size)

def IsAlignment (align : UInt64) : Prop := ∃ k ≤ 32, align.toNat = 2 ^ k

instance (align : UInt64) : Decidable (IsAlignment align) := inferInstanceAs (Decidable (∃ k ≤ 32, align.toNat = 2 ^ k))

theorem IsAlignment.max (first : IsAlignment a) (second : IsAlignment b) : IsAlignment (max a b) := by
  obtain ⟨i,small,first⟩ := first
  obtain ⟨j,small',second⟩ := second
  exact ⟨Max.max i j,Nat.max_le.mpr ⟨small,small'⟩,max_power first second⟩

namespace Elf

/-! ## Words of a hash table -/

namespace Section

open SectionType

/-- The heads and links of a hash table lead to symbols below a bound. -/
def LeadsBelow (sec : Section) (bound : Nat) : Prop := ∀ k, sec.word ((2 + k) * 4) < bound

theorem toNatLE_take_ofNatLE (width count n : Nat) : toNatLE ((ofNatLE width n).take count) ≤ n := by
  induction width generalizing count n with
  | zero => simp [ofNatLE,toNatLE]
  | succ width ih =>
    cases count with
    | zero => simp [toNatLE]
    | succ count =>
      have rest := ih count (n / 256)
      simp only [ofNatLE,take_succ_cons,toNatLE]
      have low : (UInt8.ofNat n).toNat = n % 256 := UInt8.toNat_ofNat'
      omega

variable {sec : Section}

theorem LeadsBelow.mono (leads : sec.LeadsBelow bound) (le : bound ≤ more) : sec.LeadsBelow more :=
  fun k => lt_of_lt_of_le (leads k) le

theorem word_setWord_le (sec : Section) (at_ value : Nat) : (sec.setWord at_ value).word at_ ≤ value := by
  have bytes : ((overwrite sec.store at_ (ofNatLE 4 value)).extract at_ (at_ + 4)).toList =
      (ofNatLE 4 value).take (sec.store.size - at_) := by
    apply ext_getElem?
    intro i
    rw [getElem?_extract_toList,getElem?_take]
    by_cases inWord : i < 4
    · rw [if_pos inWord]
      by_cases inStore : at_ + i < sec.store.size
      · rw [if_pos (by omega),overwrite_lane _ _ _ _ inStore (by simpa using inWord)]
      · rw [if_neg (by omega),Array.getElem?_eq_none (by simpa using inStore)]
    · rw [if_neg inWord,getElem?_eq_none (by simpa using inWord)]
      split <;> rfl
  rw [word,readLE,setWord,patch,bytes]
  exact toNatLE_take_ofNatLE _ _ _

theorem LeadsBelow.setWord (leads : sec.LeadsBelow bound) (k : Nat) (below : value < bound) :
    (sec.setWord ((2 + k) * 4) value).LeadsBelow bound := by
  intro j
  by_cases same : j = k
  · subst same
    exact lt_of_le_of_lt (word_setWord_le _ _ _) below
  · rw [word_setWord_other (by omega)]
    exact leads j

theorem LeadsBelow.withHashed (leads : sec.LeadsBelow bound) (hashed : Nat) : { sec with hashed }.LeadsBelow bound := leads

theorem LeadsBelow.setCount (leads : sec.LeadsBelow bound) (value : Nat) : (sec.setWord 4 value).LeadsBelow bound := by
  intro j
  rw [word_setWord_other (by omega)]
  exact leads j

theorem LeadsBelow.resize (leads : sec.LeadsBelow bound) (size : Nat) : (sec.resize size).LeadsBelow bound := by
  intro k
  rw [word_resized]
  exact leads k

theorem leadsBelow_rewritten (kind : sec.isNobits = false) (words : Array UInt32) (hashed : Nat) (positive : 0 < bound)
    (each : ∀ k, (words[2 + k]?.getD 0).toNat < bound) :
    ({ sec.clear.append (words.toList.flatMap ofUInt32) with hashed } : Section).LeadsBelow bound := by
  intro k
  by_cases inside : 2 + k < words.size
  · rw [Arena.word_flatMap kind words hashed _ inside]
    exact each k
  · -- Behind the words the store is as it was cleared.
    have length : (words.toList.flatMap ofUInt32).length = 4 * words.size := by
      rw [length_flatMap_width _ 4 _ fun _ _ => length_ofUInt32 _,Array.length_toList]
    have zero : (sec.clear.append (words.toList.flatMap ofUInt32)).word ((2 + k) * 4) = 0 := by
      rw [append,word,patch,readLE_overwrite_frame _ _ _ _ _ (by right; simp only [clear]; omega)]
      rw [← word,word_resized,word,clear]
      have blank := readLE_append_zeros #[] sec.store.size ((2 + k) * 4) 4
      rw [Array.empty_append] at blank
      rw [blank]
      simp [readLE,toNatLE]
    exact lt_of_le_of_lt (le_of_eq zero) positive

def IsContent (type : UInt32) : Prop :=
  type ∈ [progbits, nobits, note, initArray,
    finiArray, preinitArray]

theorem IsContent.ne {type : UInt32} (content : IsContent type) (other : UInt32)
    (table : other ∈ [SectionType.symtab, SectionType.strtab, SectionType.hash, SectionType.rela]) : type ≠ other := by
  rintro rfl
  simp only [IsContent,mem_cons,not_mem_nil,or_false] at content table
  rcases table with rfl | rfl | rfl | rfl <;> exact absurd content (by decide)

structure HoldsRelocations (sec : Section) : Prop where
  type : sec.type = rela
  aside : sec.isAllocated = false
  backed : sec.Backed
  full : sec.size % Relocation.recordSize = 0

structure Filled (before after : Section) : Prop where
  type : after.type = before.type
  flags : after.flags = before.flags
  number : after.number = before.number
  reloc : after.reloc = before.reloc
  longer : before.size ≤ after.size

end Section

/-! ## Wired arenas -/

namespace Arena

variable {arena after : Arena} {id : SectionId}

/-- The tables of an arena are sections of their own, outside the image, and lead to symbols that exist. -/
structure Wired (arena : Arena) : Prop where
  numbered : Numbered arena
  zeroed : arena.bss ∈ arena.allocated
  ordinary : (arena.get arena.bss).number < reserved.toNat
  plain : Plain arena
  null : 0 < arena.symbolCount arena.symtab
  table : (arena.get arena.symtab).type = SectionType.symtab ∧ (arena.get arena.symtab).flags = 0
  strings : ∀ id ∈ (arena.get arena.symtab).link,
    (arena.get id).type = SectionType.strtab ∧ (arena.get id).isAllocated = false
  chains : ∀ id ∈ (arena.get arena.symtab).hash, (arena.get id).type = SectionType.hash ∧
    (arena.get id).isAllocated = false ∧ (arena.get id).reloc = none
  leads : ∀ id ∈ (arena.get arena.symtab).hash, (arena.get id).LeadsBelow (arena.symbolCount arena.symtab)
  relocs : ∀ id rela, (arena.get id).reloc = some rela → (arena.get rela).HoldsRelocations
  owners : ∀ id other rela, (arena.get id).reloc = some rela → (arena.get other).reloc = some rela → id = other

/-- Alignments are powers of two, relocations lie inside their sections and name symbols that exist. -/
structure Regular (arena : Arena) : Prop where
  powers : ∀ id < arena.sections.size, IsAlignment (arena.get id).align
  fields : ∀ id, ∀ rel ∈ arena.relocations id, ∀ width ∈ relocWidth? rel.type,
    rel.offset.toNat + width ≤ (arena.get id).size
  targets : ∀ id, ∀ rel ∈ arena.relocations id, rel.symbol.toNat < arena.symbolCount arena.symtab
  tentative : ∀ i < arena.symbolCount arena.symtab, (arena.symbol arena.symtab i).index = common →
    IsAlignment (max (arena.symbol arena.symtab i).value 1)
  sizes : ∀ id ∈ arena.allocated, (arena.get id).size ≤ (arena.get id).limit

structure Safe (arena : Arena) : Prop extends Wired arena, Regular arena

theorem typed_bound (is : (arena.get id).type = type) (some_ : type ≠ SectionType.null) : id < arena.sections.size := by
  by_contra outside
  rw [get_outside (Nat.le_of_not_lt outside)] at is
  exact some_ is.symm

/-- A change beside the symbol table. -/
structure Beyond (before after : Arena) : Prop where
  symtab : after.symtab = before.symtab
  bss : after.bss = before.bss
  size : before.sections.size ≤ after.sections.size
  listed : before.listed.toList <+: after.listed.toList
  zeroed : (after.get before.bss).flags = (before.get before.bss).flags ∧
    (after.get before.bss).number = (before.get before.bss).number
  same : ∀ id ∈ before.tables, after.get id = before.get id

theorem beyond_update (aside : id ∉ arena.tables) (flags : (f (arena.get id)).flags = (arena.get id).flags)
    (number : (f (arena.get id)).number = (arena.get id).number) : Beyond arena (arena.update id f) where
  symtab := rfl
  bss := rfl
  size := le_of_eq update_size.symm
  listed := prefix_rfl
  zeroed := ⟨get_update_congr Section.flags flags,get_update_congr Section.number number⟩
  same _ member := get_update_other fun eq => aside (eq ▸ member)

theorem numbered_update (numbered : Numbered arena)
    (number : (f (arena.get id)).number = (arena.get id).number) : Numbered (arena.update id f) := by
  intro k other at_
  rw [update_size,get_update_congr Section.number number]
  exact numbered k other at_

namespace Beyond

theorem table (beyond : Beyond arena after) : after.get arena.symtab = arena.get arena.symtab :=
  beyond.same _ (by simp [tables])

theorem count (beyond : Beyond arena after) : after.symbolCount arena.symtab = arena.symbolCount arena.symtab :=
  symbolCount_congr beyond.table

theorem safe (beyond : Beyond arena after) (safe : Safe arena) (numbered : Numbered after)
    (relocs : ∀ id rela, (after.get id).reloc = some rela → (after.get rela).HoldsRelocations)
    (owners : ∀ id other rela, (after.get id).reloc = some rela → (after.get other).reloc = some rela → id = other)
    (powers : ∀ id < after.sections.size, IsAlignment (after.get id).align)
    (fields : ∀ id, ∀ rel ∈ after.relocations id, ∀ width ∈ relocWidth? rel.type,
      rel.offset.toNat + width ≤ (after.get id).size)
    (targets : ∀ id, ∀ rel ∈ after.relocations id, rel.symbol.toNat < arena.symbolCount arena.symtab)
    (sizes : ∀ id ∈ after.allocated, (after.get id).size ≤ (after.get id).limit) : Safe after := by
  have table := beyond.table
  have count := beyond.count
  have strings id (link : id ∈ (arena.get arena.symtab).link) : after.get id = arena.get id :=
    beyond.same id (by simp [tables,Option.mem_def.mp link])
  have hash id (found : id ∈ (arena.get arena.symtab).hash) : after.get id = arena.get id :=
    beyond.same id (by simp [tables,Option.mem_def.mp found])
  refine ⟨⟨numbered,?_,?_,?_,?_,?_,?_,?_,?_,relocs,owners⟩,⟨powers,fields,?_,?_,sizes⟩⟩
  · obtain ⟨listed,inImage⟩ := mem_filter.mp safe.zeroed
    obtain ⟨more,extended⟩ := beyond.listed
    refine mem_filter.mpr ⟨?_,?_⟩
    · rw [beyond.bss,Arena.numbered,← extended,drop_append]
      exact mem_append_left _ listed
    · rwa [beyond.bss,isAllocated,beyond.zeroed.1]
  · rw [beyond.bss,beyond.zeroed.2]
    exact safe.ordinary
  · have plain := safe.plain
    refine ⟨?_,?_,?_,?_,?_⟩
    · rw [beyond.symtab]
      exact lt_of_lt_of_le plain.bound beyond.size
    all_goals rw [beyond.symtab,table]
    · exact plain.records
    · rw [count]
      exact plain.whole
    · exact plain.strings
    · exact plain.chains
  · rw [beyond.symtab,count]
    exact safe.null
  · rw [beyond.symtab,table]
    exact safe.table
  · rw [beyond.symtab,table]
    intro id link
    rw [strings id link]
    exact safe.strings id link
  · rw [beyond.symtab,table]
    intro id found
    rw [hash id found]
    exact safe.chains id found
  · rw [beyond.symtab,table,count]
    intro id found
    rw [hash id found]
    exact safe.leads id found
  · rwa [beyond.symtab,count]
  · rw [beyond.symtab,count]
    intro i below
    rw [symbol_congr table]
    exact safe.tentative i below

end Beyond

namespace Safe

open Section

variable (safe : Safe arena)

include safe

theorem tables_kind (member : id ∈ arena.tables) :
    (arena.get id).type ∈ [SectionType.symtab, SectionType.strtab, SectionType.hash] ∧
      (arena.get id).isAllocated = false := by
  simp only [tables,cons_append,mem_cons,mem_append,Option.mem_toList] at member
  rcases member with rfl | link | found
  · rw [isAllocated,safe.table.1,safe.table.2]
    decide
  · exact ⟨by simp [(safe.strings _ link).1],(safe.strings _ link).2⟩
  · exact ⟨by simp [(safe.chains _ found).1],(safe.chains _ found).2.1⟩

theorem apart (content : IsContent (arena.get id).type) :
    id ∉ arena.tables ∧ ∀ other rela, (arena.get other).reloc = some rela → rela ≠ id := by
  refine ⟨fun member => content.ne _ (mem_append_left [SectionType.rela] (safe.tables_kind member).1) rfl,?_⟩
  rintro other _ found rfl
  exact content.ne _ (by decide) (safe.relocs other _ found).type

theorem fill (content : IsContent (arena.get id).type)
    (filled : (arena.get id).Filled sec) (align : IsAlignment sec.align)
    (limit : sec.isAllocated = true → sec.size ≤ sec.limit) : Safe (arena.update id fun _ => sec) := by
  obtain ⟨aside,noRela⟩ := safe.apart content
  have reloc target : ((arena.update id fun _ => sec).get target).reloc = (arena.get target).reloc :=
    get_update_congr reloc filled.reloc
  have rela {target rela : SectionId} (found : (arena.get target).reloc = some rela) :
      (arena.update id fun _ => sec).get rela = arena.get rela := get_update_other (noRela target rela found)
  have relocations target :
      (arena.update id fun _ => sec).relocations target = arena.relocations target :=
    relocations_congr (reloc target) fun _ found => rela found
  have allocated : (arena.update id fun _ => sec).allocated = arena.allocated :=
    allocated_congr rfl fun _ => get_update_congr flags filled.flags
  refine (beyond_update aside filled.flags filled.number).safe safe (numbered_update safe.numbered filled.number)
    (fun target table found => ?_) (fun first second table found found' => ?_) (fun target below => ?_)
    (fun target rel member width known => ?_) (fun target rel member => ?_) fun target member => ?_
  · rw [reloc] at found
    rw [rela found]
    exact safe.relocs target table found
  · rw [reloc] at found found'
    exact safe.owners first second table found found'
  · rw [get_update]
    split
    · exact align
    · exact safe.powers target (by rwa [update_size] at below)
  · rw [relocations] at member
    exact le_trans (safe.fields target rel member width known) (size_le_update filled.longer target)
  · rw [relocations] at member
    exact safe.targets target rel member
  · rw [allocated] at member
    rw [get_update]
    split
    next same =>
      refine limit ?_
      rw [isAllocated,filled.flags,← same.1]
      exact (mem_filter.mp member).2
    next => exact safe.sizes target member

theorem tables_bound (member : id ∈ arena.tables) : id < arena.sections.size := by
  have kind := (safe.tables_kind member).1
  refine typed_bound rfl fun eq => ?_
  rw [eq] at kind
  exact absurd kind (by decide)

/-- Linking needs no more of the tables than that they are wired. -/
theorem sound : Sound arena := by
  have image : (arena.get arena.bss).isAllocated = true := (mem_filter.mp safe.zeroed).2
  have aside {id : SectionId} (out : (arena.get id).isAllocated = false) : id ≠ arena.bss := by
    rintro rfl
    rw [image] at out
    cases out
  have other {id : SectionId} {type : UInt32} (is : (arena.get id).type = type) (apart : type ≠ SectionType.symtab) :
      id ≠ arena.symtab := by
    rintro rfl
    exact apart (is.symm.trans safe.table.1)
  refine ⟨Numbered.distinct safe.numbered,safe.plain.bound,allocated_bound safe.zeroed,
    ⟨Link.number_pos safe.numbered safe.zeroed,Nat.lt_trans safe.ordinary (by decide)⟩,safe.plain.records.2,
    aside (by rw [isAllocated,safe.table.2]; decide),fun id link => ?_,fun id rela found => ?_⟩
  · obtain ⟨type,out⟩ := safe.strings id link
    exact ⟨aside out,other type (by decide)⟩
  · have holds := safe.relocs id rela found
    exact ⟨aside holds.aside,other holds.type (by decide)⟩

theorem listed_pos : 0 < arena.listed.size := by
  have member := allocated_listed safe.zeroed
  by_contra none
  rw [Array.eq_empty_of_size_eq_zero (Nat.eq_zero_of_not_pos none)] at member
  cases member

theorem extend (listed : Listed new arena after) (bss : after.bss = arena.bss)
    (same : ∀ id < arena.sections.size, after.get id = arena.get id) (alone : new.reloc = none)
    (align : IsAlignment new.align) (empty : new.size = 0) : Safe after := by
  have cases id : id = arena.sections.size ∨ after.get id = arena.get id := by
    rcases Nat.lt_trichotomy id arena.sections.size with below | here | behind
    · exact .inr (same id below)
    · exact .inl here
    · right
      rw [get_outside (by rw [listed.size]; omega),get_outside (by omega)]
  have reloc {id rela : SectionId} (found : (after.get id).reloc = some rela) :
      (arena.get id).reloc = some rela ∧ after.get rela = arena.get rela := by
    rcases cases id with here | eq
    · rw [here,listed.made,alone] at found
      cases found
    · rw [eq] at found
      exact ⟨found,same rela (typed_bound (safe.relocs id rela found).type (by decide))⟩
  have relocations {id : SectionId} {rel : Relocation} (member : rel ∈ after.relocations id) :
      rel ∈ arena.relocations id ∧ after.get id = arena.get id := by
    rcases cases id with here | eq
    · rw [Arena.relocations,here,listed.made,alone] at member
      cases member
    · refine ⟨?_,eq⟩
      rwa [← relocations_congr (congrArg Section.reloc eq) fun rela found => (reloc (eq ▸ found)).2]
  have null := safe.listed_pos
  have bssBound := allocated_bound safe.zeroed
  have beyond : Beyond arena after := {
    symtab := listed.symtab
    bss
    size := by rw [listed.size]; omega
    listed := by rw [listed.listed,Array.toList_push]; exact prefix_append _ _
    zeroed := by rw [same _ bssBound]; exact ⟨rfl,rfl⟩
    same := fun id member => same id (safe.tables_bound member) }
  refine beyond.safe safe (listed.numbers safe.numbered fun id below => by rw [same id below]) (fun id rela found => ?_)
    (fun first second rela found found' => safe.owners first second rela (reloc found).1 (reloc found').1)
    (fun id below => ?_) (fun id rel member width known => ?_) (fun id rel member => safe.targets id rel (relocations member).1)
    fun id member => ?_
  · obtain ⟨there,eq⟩ := reloc found
    rw [eq]
    exact safe.relocs id rela there
  · by_cases here : id = arena.sections.size
    · rwa [here,listed.made]
    · rw [listed.size] at below
      have old : id < arena.sections.size := Nat.lt_of_le_of_ne (Nat.le_of_lt_succ below) here
      rw [same id old]
      exact safe.powers id old
  · obtain ⟨member,eq⟩ := relocations member
    rw [eq]
    exact safe.fields id rel member width known
  · rcases cases id with here | eq
    · rw [here,listed.made,empty]
      exact Nat.zero_le _
    · obtain ⟨inList,inImage⟩ := mem_filter.mp member
      rw [listed.numbered null] at inList
      rw [eq] at inImage ⊢
      rcases mem_append.mp inList with old | new
      · exact safe.sizes id (mem_filter.mpr ⟨old,inImage⟩)
      · obtain rfl := mem_singleton.mp new
        rw [get_outside (Nat.le_refl _)] at inImage
        simp [isAllocated] at inImage

theorem rela_aside (found : (arena.get id).reloc = some rela) : rela ∉ arena.tables := by
  intro member
  have kind := (safe.tables_kind member).1
  rw [(safe.relocs id rela found).type] at kind
  exact absurd kind (by decide)

theorem retable (framed : Framed arena.tables arena after) (plain : Plain after)
    (grows : arena.symbolCount arena.symtab ≤ after.symbolCount arena.symtab)
    (leads : ∀ id ∈ (arena.get arena.symtab).hash, (after.get id).LeadsBelow (after.symbolCount arena.symtab))
    (longer : ∀ id, (arena.get id).reloc ≠ none → (arena.get id).size ≤ (after.get id).size)
    (tentative : ∀ i < after.symbolCount arena.symtab, (after.symbol arena.symtab i).index = common →
      IsAlignment (max (after.symbol arena.symtab i).value 1)) : Safe after := by
  have kinds := framed.rewritten
  have rela {id rela : SectionId} (found : (arena.get id).reloc = some rela) : after.get rela = arena.get rela :=
    framed.others rela (safe.rela_aside found)
  have relocations id : after.relocations id = arena.relocations id :=
    relocations_congr (kinds id).reloc fun _ found => rela found
  have inImage {id : SectionId} (member : id ∈ arena.allocated) : after.get id = arena.get id := by
    refine framed.others id fun there => ?_
    have allocated := (mem_filter.mp member).2
    simp [(safe.tables_kind there).2] at allocated
  have isAllocated id : (after.get id).isAllocated = (arena.get id).isAllocated := by
    rw [isAllocated,isAllocated,(kinds id).flags]
  refine ⟨⟨fun k id at_ => ?_,?_,?_,plain,?_,?_,?_,?_,?_,?_,?_⟩,⟨fun id below => ?_,?_,?_,?_,?_⟩⟩
  · rw [framed.listed] at at_
    rw [framed.size,(kinds id).number]
    exact safe.numbered k id at_
  · rw [framed.allocated,framed.bss]
    exact safe.zeroed
  · rw [framed.bss,(kinds _).number]
    exact safe.ordinary
  · rw [framed.symtab]
    exact lt_of_lt_of_le safe.null grows
  · rw [framed.symtab,(kinds _).type,(kinds _).flags]
    exact safe.table
  · rw [framed.symtab,(kinds _).link]
    intro strings link
    rw [(kinds _).type,isAllocated]
    exact safe.strings strings link
  · rw [framed.symtab,(kinds _).hash]
    intro hash found
    rw [(kinds _).type,(kinds _).reloc,isAllocated]
    exact safe.chains hash found
  · rwa [framed.symtab,(kinds _).hash]
  · intro id table found
    rw [(kinds id).reloc] at found
    rw [rela found]
    exact safe.relocs id table found
  · intro first second table found found'
    rw [(kinds _).reloc] at found found'
    exact safe.owners first second table found found'
  · rw [(kinds id).align]
    exact safe.powers id (framed.size ▸ below)
  · intro id rel member width known
    rw [relocations] at member
    refine le_trans (safe.fields id rel member width known) (longer id fun none => ?_)
    rw [Arena.relocations,none] at member
    cases member
  · intro id rel member
    rw [relocations] at member
    rw [framed.symtab]
    exact lt_of_lt_of_le (safe.targets id rel member) grows
  · rwa [framed.symtab]
  · intro id member
    rw [framed.allocated] at member
    rw [inImage member]
    exact safe.sizes id member

end Safe

/-! ## Symbols -/

section Chains

variable {table hash : SectionId}

theorem hashWords_below (each : ∀ k, (words[2 + k]?.getD 0).toNat < bound)
    (below : index < bound) (k : Nat) : ((arena.hashWords table buckets words index)[2 + k]?.getD 0).toNat < bound := by
  have small : (ofNat index).toNat < bound := by
    exact Nat.lt_of_le_of_lt (Nat.mod_le _ _) below
  simp only [hashWords,Array.getElem?_setIfInBounds]
  split
  · split
    · exact small
    · exact Nat.lt_of_le_of_lt (Nat.zero_le _) below
  · split
    · split
      · exact each _
      · exact Nat.lt_of_le_of_lt (Nat.zero_le _) below
    · exact each k

theorem rebuildHash_leads (found : (arena.get table).hash = some hash) (kind : (arena.get hash).isNobits = false)
    (present : hash < arena.sections.size) (positive : 0 < arena.symbolCount table) (buckets : Nat) :
    ((arena.rebuildHash table buckets).get hash).LeadsBelow (arena.symbolCount table) := by
  simp only [rebuildHash,found]
  rw [get_update_same present]
  refine Section.leadsBelow_rewritten kind _ _ positive ?_
  have start : ∀ k, ((((Array.replicate (2 + buckets + arena.symbolCount table) 0).setIfInBounds 0
      (ofNat buckets)).setIfInBounds 1 (ofNat (arena.symbolCount table)))[2 + k]?.getD 0).toNat <
        arena.symbolCount table := by
    intro k
    rw [Array.getElem?_setIfInBounds_ne (by omega),Array.getElem?_setIfInBounds_ne (by omega),Array.getElem?_replicate]
    split <;> exact positive
  have entered : ∀ i ∈ (range' 1 (arena.symbolCount table - 1)).filter fun i => !(arena.symbol table i).isLocal,
      i < arena.symbolCount table := by
    intro i member
    have inRange := mem_range'_1.mp (mem_filter.mp member).1
    omega
  revert start
  generalize ((Array.replicate (2 + buckets + arena.symbolCount table) 0).setIfInBounds 0
    (ofNat buckets)).setIfInBounds 1 (ofNat (arena.symbolCount table)) = words
  revert entered
  generalize (range' 1 (arena.symbolCount table - 1)).filter (fun i => !(arena.symbol table i).isLocal) = items
  intro entered start
  induction items generalizing words with
  | nil => exact start
  | cons i rest ih =>
    refine ih _ (fun j member => entered j (mem_cons_of_mem _ member)) fun k => ?_
    exact hashWords_below start (entered i mem_cons_self) k

theorem enterHash_leads (found : (arena.get table).hash = some hash) (kind : (arena.get hash).isNobits = false)
    (apart : table ≠ hash) (present : hash < arena.sections.size)
    (leads : (arena.get hash).LeadsBelow (arena.symbolCount table)) (below : index < arena.symbolCount table)
    (name : String) (isLocal : Bool) :
    ((arena.enterHash table hash index name isLocal).get hash).LeadsBelow (arena.symbolCount table) := by
  have positive : 0 < arena.symbolCount table := Nat.lt_of_le_of_lt (Nat.zero_le _) below
  unfold enterHash
  extract_lets sec buckets chain counted bucket linked entered after
  have room : counted.LeadsBelow (arena.symbolCount table) := (leads.resize _).setCount _
  have link value (small : value < arena.symbolCount table) :
      (counted.setWord chain value).LeadsBelow (arena.symbolCount table) := by
    rw [show chain = (2 + (buckets + index)) * 4 by simp only [chain]; omega]
    exact room.setWord _ small
  split
  · rw [get_update_same present]
    exact link 0 positive
  · have head : counted.word bucket < arena.symbolCount table := room ((hashName (ofString name)).toNat % buckets)
    have leads' : linked.LeadsBelow (arena.symbolCount table) :=
      (link _ head).setWord ((hashName (ofString name)).toNat % buckets) below
    have leads'' : (after.get hash).LeadsBelow (arena.symbolCount table) := by
      rw [get_update_same present]
      exact leads'.withHashed _
    split
    · have same : after.get table = arena.get table := get_update_other apart
      have count : after.symbolCount table = arena.symbolCount table := symbolCount_congr same
      rw [← count]
      refine rebuildHash_leads (by rw [same,found]) ?_ (by rwa [update_size]) (by rwa [count]) _
      rw [Section.isNobits,(Framed.update arena (mem_singleton_self hash) ?_).rewritten hash |>.type]
      · exact kind
      · exact .withHashed (((((Rewritten.resize _ _).trans (.setWord _ _ _)).trans (.setWord _ _ _)).trans
          (.setWord _ _ _))) _
    · exact leads''

theorem chase_below (leads : (arena.get hash).LeadsBelow bound) (positive : 0 < bound) (buckets : Nat) (name : String)
    (fuel : Nat) (below : index < bound) : arena.chase table hash buckets name fuel index < bound := by
  induction fuel generalizing index with
  | zero => exact positive
  | succ fuel ih =>
    cases index with
    | zero => exact positive
    | succ index =>
      rw [chase]
      · split
        · exact below
        · exact ih (add_assoc 2 buckets (index + 1) ▸ leads _)
      · exact Nat.succ_ne_zero _

end Chains

namespace Safe

theorem findSymbol_below (safe : Safe arena) (name : String) :
    arena.findSymbol arena.symtab name < arena.symbolCount arena.symtab := by
  unfold findSymbol
  split
  · exact safe.null
  · next hash found =>
    dsimp only
    split
    · exact safe.null
    · exact chase_below (safe.leads hash found) safe.null _ _ _ (safe.leads hash found _)

theorem putSymbol (safe : Safe arena) (tentative : entry.index = common → IsAlignment (max entry.value 1))
    (name : String) :
    Safe (arena.putSymbol arena.symtab entry name).2 ∧
      (arena.putSymbol arena.symtab entry name).1 = arena.symbolCount arena.symtab ∧
      (arena.putSymbol arena.symtab entry name).2.symbolCount arena.symtab = arena.symbolCount arena.symtab + 1 := by
  have framed := putSymbol_framed arena entry name
  obtain ⟨nameOffset,records⟩ := putSymbol_records safe.plain entry name
  obtain ⟨old,new,more⟩ := symbol_append safe.plain.records safe.plain.bound safe.plain.whole (entry.withName nameOffset)
  have symbols := symbol_congr records
  have count := (symbolCount_congr records).trans more
  have noStrings : ∀ strings ∈ (arena.get arena.symtab).link, strings ≠ arena.symtab :=
    fun strings link eq => safe.plain.strings (eq ▸ link)
  have noHash : ∀ hash ∈ (arena.get arena.symtab).hash, hash ≠ arena.symtab :=
    fun hash found eq => safe.plain.chains (eq ▸ found)
  obtain ⟨offset,middle,named,put⟩ := putSymbol_eq arena arena.symtab entry name
  -- The name goes to the strings, which are neither the records nor the chains.
  obtain ⟨table,chains,size,longer⟩ : middle.get arena.symtab = arena.get arena.symtab ∧
      (∀ hash ∈ (arena.get arena.symtab).hash, middle.get hash = arena.get hash) ∧
      middle.sections.size = arena.sections.size ∧ ∀ id, (arena.get id).size ≤ (middle.get id).size := by
    rcases named with rfl | ⟨strings,bytes,link,rfl⟩
    · exact ⟨rfl,fun _ _ => rfl,rfl,fun _ => le_refl _⟩
    · refine ⟨get_update_other (noStrings strings link).symm,fun hash found => get_update_other fun eq => ?_,update_size,
        size_le_update (Nat.le_add_right _ _)⟩
      have type := (safe.chains hash found).1
      rw [eq,(safe.strings strings link).1] at type
      exact absurd type (by decide)
  have bound : arena.symtab < middle.sections.size := by rw [size]; exact safe.plain.bound
  have recorded id : (arena.get id).size ≤
      ((middle.update arena.symtab (·.append (entry.withName offset).encode)).get id).size :=
    Nat.le_trans (longer id) (size_le_update (Nat.le_add_right _ _) id)
  have hashed : ((middle.update arena.symtab (·.append (entry.withName offset).encode)).get arena.symtab).hash =
      (arena.get arena.symtab).hash := by
    rw [get_update_same bound,(Rewritten.append _ _).hash,table]
  have counted : (middle.update arena.symtab (·.append (entry.withName offset).encode)).symbolCount arena.symtab =
      arena.symbolCount arena.symtab + 1 := by
    rw [symbolCount,get_update_same bound,table,Section.size_append,Symbol.length_encode,Nat.add_div_right _ (by decide)]
    rfl
  refine ⟨safe.retable framed (framed.plain safe.plain ?_ ?_) (by omega) ?_ ?_ ?_,?_,count⟩
  · rw [records,get_update_same safe.plain.bound]
    exact Section.append_backed safe.plain.records _
  · rw [count,records,get_update_same safe.plain.bound,Section.size_append,safe.plain.whole,Symbol.length_encode,
      Nat.succ_mul]
  · intro hash found
    have kind := (safe.chains hash found).1
    have there := chains hash found
    have apart := noHash hash found
    rw [hashed,Option.mem_def.mp found] at put
    rw [count,← counted,put]
    refine enterHash_leads (by rwa [hashed]) ?_ apart.symm ?_ ?_ ?_ _ _
    · rw [get_update_other apart,there,Section.isNobits,kind]
      rfl
    · rw [update_size,size]
      exact typed_bound kind (by decide)
    · rw [get_update_other apart,there,counted]
      exact (safe.leads hash found).mono (Nat.le_succ _)
    · rw [counted,symbolCount,table]
      exact Nat.lt_succ_self _
  · intro id attached
    cases chainsOf : (arena.get arena.symtab).hash with
    | none =>
      rw [hashed,chainsOf] at put
      rw [put]
      exact recorded id
    | some hash =>
      have other : id ≠ hash := fun eq => attached (eq ▸ (safe.chains hash chainsOf).2.2)
      have chainsTouch : ∀ other ∈ ((middle.update arena.symtab
          (·.append (entry.withName offset).encode)).get arena.symtab).hash, other ∈ [hash] := by
        rw [hashed,chainsOf]
        simp
      rw [hashed,chainsOf] at put
      rw [put]
      rw [(enterHash_framed (mem_singleton_self hash) chainsTouch _ _ _).others id (by simpa using other)]
      exact recorded id
  · intro i below
    rw [symbols]
    by_cases last : i = arena.symbolCount arena.symtab
    · rwa [last,new]
    · rw [old i (by omega)]
      exact safe.tentative i (by omega)
  · rw [put,← symbolCount_congr table]
    split <;> rfl

theorem setSymbol (safe : Safe arena) (sym : Symbol) (below : i < arena.symbolCount arena.symtab)
    (tentative : sym.index = common → IsAlignment (max sym.value 1)) :
    Safe (arena.setSymbol arena.symtab i sym) ∧
      (arena.setSymbol arena.symtab i sym).symbolCount arena.symtab = arena.symbolCount arena.symtab := by
  have framed : Framed arena.tables arena (arena.setSymbol arena.symtab i sym) :=
    .update arena (by simp [tables]) (.patch _ _ _)
  have same : (arena.setSymbol arena.symtab i sym).get arena.symtab =
      (arena.get arena.symtab).patch (i * Symbol.recordSize) sym.encode := get_update_same safe.plain.bound
  have count : (arena.setSymbol arena.symtab i sym).symbolCount arena.symtab = _ := symbolCount_setSymbol i sym
  refine ⟨safe.retable framed (framed.plain safe.plain ?_ ?_) (le_of_eq count.symm) ?_ ?_ ?_,count⟩
  · rw [same]
    exact Section.patch_backed safe.plain.records _ _
  · rw [count,same,Section.size_patch,safe.plain.whole]
  · intro hash found
    have apart : hash ≠ arena.symtab := fun eq => safe.plain.chains (eq ▸ found)
    rw [count,Arena.setSymbol,get_update_other apart]
    exact safe.leads hash found
  · intro id _
    unfold Arena.setSymbol
    generalize sym.encode = bytes
    exact le_of_eq (get_update_congr size rfl).symm
  · rw [count]
    intro j inside
    by_cases here : j = i
    · rwa [here,symbol_setSymbol_same safe.plain.bound safe.plain.records.stored below]
    · rw [symbol_setSymbol_other here]
      exact safe.tentative j inside

theorem addSymbol (safe : Safe arena) (tentative : entry.index = common → IsAlignment (max entry.value 1))
    (shared : entry.isLocal = false) (added : arena.addSymbol arena.symtab entry name = .ok (i,after)) :
    Safe after ∧ i < after.symbolCount arena.symtab ∧
      arena.symbolCount arena.symtab ≤ after.symbolCount arena.symtab ∧ Framed arena.tables arena after := by
  have framed := addSymbol_framed added
  rcases addSymbol_cases shared added with ⟨_,put⟩ | ⟨_,index,outcome⟩
  · obtain ⟨safe',first,count⟩ := safe.putSymbol tentative name
    rw [← put] at safe' first count
    dsimp only at first count
    exact ⟨safe',by omega,by omega,framed⟩
  · have below : i < arena.symbolCount arena.symtab := index ▸ safe.findSymbol_below name
    rcases outcome with rfl | rfl | rfl
    · exact ⟨safe,below,le_refl _,framed⟩
    · obtain ⟨safe',count⟩ := safe.setSymbol { arena.symbol arena.symtab i with size := entry.size } below
        (safe.tentative i below)
      exact ⟨safe',by omega,by omega,framed⟩
    · obtain ⟨safe',count⟩ := safe.setSymbol (entry.withName (arena.symbol arena.symtab i).nameOffset) below tentative
      exact ⟨safe',by omega,by omega,framed⟩

end Safe

/-! ## Relocations -/

structure Carries (before after : Arena) : Prop where
  symtab : after.symtab = before.symtab
  size : before.sections.size ≤ after.sections.size
  type : ∀ id < before.sections.size, (after.get id).type = (before.get id).type
  longer : ∀ id, Section.IsContent (before.get id).type → (before.get id).size ≤ (after.get id).size
  number : ∀ id < before.sections.size, (after.get id).number = (before.get id).number
  listed : before.listed.size ≤ after.listed.size
  count : before.symbolCount before.symtab ≤ after.symbolCount before.symtab

theorem isContent_bound (content : Section.IsContent (arena.get id).type) : id < arena.sections.size := by
  by_contra outside
  rw [get_outside (Nat.le_of_not_lt outside)] at content
  exact absurd content (by unfold Section.IsContent; decide)

namespace Carries

theorem refl (arena : Arena) : Carries arena arena :=
  ⟨rfl,le_refl _,fun _ _ => rfl,fun _ _ => le_refl _,fun _ _ => rfl,le_refl _,le_refl _⟩

theorem content (carries : Carries before after) (content : Section.IsContent (before.get id).type) :
    Section.IsContent (after.get id).type := by
  rwa [carries.type id (isContent_bound content)]

theorem trans (first : Carries before middle) (second : Carries middle after) : Carries before after := by
  have count := second.count
  rw [first.symtab] at count
  refine ⟨second.symtab.trans first.symtab,le_trans first.size second.size,fun id below => ?_,fun id content => ?_,
    fun id below => ?_,le_trans first.listed second.listed,le_trans first.count count⟩
  · rw [second.type id (lt_of_lt_of_le below first.size),first.type id below]
  · exact le_trans (first.longer id content) (second.longer id (first.content content))
  · rw [second.number id (lt_of_lt_of_le below first.size),first.number id below]

theorem extend (safe : Safe arena) (listed : Listed new arena after)
    (same : ∀ id < arena.sections.size, after.get id = arena.get id) : Carries arena after where
  symtab := listed.symtab
  size := by rw [listed.size]; omega
  type id below := by rw [same id below]
  longer id content := by rw [same id (isContent_bound content)]
  number id below := by rw [same id below]
  listed := by rw [listed.listed,Array.size_push]; exact Nat.le_succ _
  count := le_of_eq (symbolCount_congr (same _ safe.plain.bound)).symm

theorem update (aside : id ∉ arena.tables)
    (type : (f (arena.get id)).type = (arena.get id).type) (number : (f (arena.get id)).number = (arena.get id).number)
    (longer : (arena.get id).size ≤ (f (arena.get id)).size) : Carries arena (arena.update id f) where
  symtab := rfl
  size := le_of_eq update_size.symm
  type _ _ := get_update_congr Section.type type
  number _ _ := get_update_congr Section.number number
  listed := le_refl _
  longer other _ := size_le_update longer other
  count := by
    have apart : arena.symtab ≠ id := by
      rintro rfl
      exact aside (by simp [tables])
    rw [symbolCount_congr (get_update_other apart)]

theorem framed (safe : Safe arena) (framed : Framed arena.tables arena after)
    (count : arena.symbolCount arena.symtab ≤ after.symbolCount arena.symtab) : Carries arena after where
  symtab := framed.symtab
  size := le_of_eq framed.size.symm
  type id _ := (framed.rewritten id).type
  longer id content := by rw [framed.others id (safe.apart content).1]
  number id _ := (framed.rewritten id).number
  listed := by rw [framed.listed]
  count

end Carries

theorem create_bss (arena : Arena) (name : String) (type flags : UInt32) :
    (arena.create name type flags).2.bss = arena.bss := by
  simp only [create]
  split <;> rfl

theorem made_listed (arena : Arena) (name : String) (type flags : UInt32) (counted : flags &&& SectionFlag.unlisted = 0)
    (number : ∀ sec, (f sec).number = sec.number) :
    (arena.create name type flags).1 = arena.sections.size ∧
      Listed (f { Section.create name type flags with number := arena.listed.size }) arena
        ((arena.create name type flags).2.update (arena.create name type flags).1 f) ∧
      ((arena.create name type flags).2.update (arena.create name type flags).1 f).bss = arena.bss ∧
      ∀ id < arena.sections.size,
        ((arena.create name type flags).2.update (arena.create name type flags).1 f).get id = arena.get id := by
  obtain ⟨index,listed,same⟩ := create_listed arena name type flags counted
  rw [index]
  refine ⟨rfl,⟨listed.symtab,listed.listed,?_,?_,?_⟩,create_bss _ _ _ _,fun id below => ?_⟩
  · rw [update_size]
    exact listed.size
  · rw [get_update_same (by rw [listed.size]; exact Nat.lt_succ_self _),listed.made]
  · rw [number]
  · rw [get_update_other (ne_of_lt below)]
    exact same id below

namespace Safe

variable {rel : Relocation} (safe : Safe arena)

include safe

theorem related : Related arena :=
  ⟨fun _ ⟨id,found⟩ => ⟨typed_bound (safe.relocs id _ found).type (by decide),(safe.relocs id _ found).backed,
    (safe.relocs id _ found).full⟩,safe.owners⟩

theorem attach (content : Section.IsContent (arena.get id).type) (alone : (arena.get id).reloc = none)
    (holds : (arena.get rela).HoldsRelocations) (empty : (arena.get rela).size = 0) (unowned : ¬arena.Relates rela) :
    Safe (arena.update id fun sec => { sec with reloc := some rela }) := by
  obtain ⟨related,relocations⟩ := safe.related.attach alone unowned (typed_bound holds.type (by decide)) holds.backed empty
  refine (beyond_update (safe.apart content).1 rfl rfl).safe safe (numbered_update safe.numbered rfl)
    (fun target table found => ?_) related.owners (fun target below => ?_) (fun target rel member width known => ?_)
    (fun target rel member => safe.targets target rel (relocations target ▸ member)) fun target member => ?_
  · have there : (arena.get table).HoldsRelocations := by
      rw [get_update] at found
      split at found
      · cases found
        exact holds
      · exact safe.relocs target table found
    rw [get_update]
    split
    next here => exact here.1 ▸ ⟨there.type,there.aside,⟨there.backed.kind,there.backed.stored⟩,there.full⟩
    next => exact there
  · rw [get_update_congr Section.align rfl]
    exact safe.powers target (by rwa [update_size] at below)
  · rw [get_update_congr size rfl]
    exact safe.fields target rel (relocations target ▸ member) width known
  · have allocated : (arena.update id fun sec => { sec with reloc := some rela }).allocated = arena.allocated :=
      allocated_congr rfl fun _ => get_update_congr Section.flags rfl
    rw [get_update_congr size rfl,get_update_congr Section.limit rfl]
    exact safe.sizes target (allocated ▸ member)

theorem record (found : (arena.get id).reloc = some rela)
    (inside : ∀ width ∈ relocWidth? rel.type, rel.offset.toNat + width ≤ (arena.get id).size)
    (named : rel.symbol.toNat < arena.symbolCount arena.symtab) : Safe (arena.update rela (·.append rel.encode)) := by
  have holds := safe.relocs id rela found
  have rewritten : (arena.get rela).Rewritten ((arena.get rela).append rel.encode) := .append _ _
  have framed : Framed [rela] arena (arena.update rela (·.append rel.encode)) :=
    .update arena (mem_singleton_self _) rewritten
  have kinds := framed.rewritten
  have longer target :
      (arena.get target).size ≤ ((arena.update rela (·.append rel.encode)).get target).size :=
    size_le_update (Nat.le_add_right _ _) target
  obtain ⟨related,relocations⟩ := safe.related.record found rel
  refine (beyond_update (safe.rela_aside found) rewritten.flags rewritten.number).safe safe
    (numbered_update safe.numbered rewritten.number) (fun target table there => ?_) related.owners
    (fun target below => ?_) (fun target rel' member width known => ?_) (fun target rel' member => ?_)
    fun target member => ?_
  · obtain ⟨_,backed,full⟩ := related.tables table ⟨target,there⟩
    rw [(kinds target).reloc] at there
    refine ⟨(kinds table).type.trans (safe.relocs target table there).type,?_,backed,full⟩
    rw [isAllocated,(kinds table).flags]
    exact (safe.relocs target table there).aside
  · rw [(kinds target).align]
    exact safe.powers target (framed.size ▸ below)
  · rcases (relocations target rel').mp member with old | ⟨rfl,rfl⟩
    · exact le_trans (safe.fields target rel' old width known) (longer target)
    · exact le_trans (inside width known) (longer target)
  · rcases (relocations target rel').mp member with old | ⟨rfl,rfl⟩
    · exact safe.targets target rel' old
    · exact named
  · rw [framed.allocated] at member
    have apart : target ≠ rela := by
      rintro rfl
      have inImage := (mem_filter.mp member).2
      rw [holds.aside] at inImage
      cases inImage
    rw [get_update_other apart]
    exact safe.sizes target member

theorem record_carries (found : (arena.get id).reloc = some rela) (rel : Relocation) :
    Carries arena (arena.update rela (·.append rel.encode)) :=
  .update (safe.rela_aside found) (Rewritten.append _ _).type (Rewritten.append _ _).number
    (Nat.le_add_right _ _)

theorem allocated_extend (listed : Listed new arena after)
    (same : ∀ id < arena.sections.size, after.get id = arena.get id) (aside : new.isAllocated = false) :
    after.allocated = arena.allocated := by
  rw [Arena.allocated,listed.numbered safe.listed_pos,filter_append,filter_cons,listed.made,aside]
  simp only [Bool.false_eq_true,if_false,filter_nil,append_nil]
  refine filter_congr fun id member => ?_
  obtain ⟨k,at_⟩ := mem_iff_getElem?.mp (mem_of_mem_drop member)
  rw [same id (safe.numbered k id (by simpa using at_)).1]

theorem relocSection (content : Section.IsContent (arena.get id).type) (alone : (arena.get id).reloc = none) :
    Safe (arena.relocSection arena.symtab id).2 ∧ Carries arena (arena.relocSection arena.symtab id).2 ∧
      (arena.relocSection arena.symtab id).2.allocated = arena.allocated ∧
      ((arena.relocSection arena.symtab id).2.get id).reloc = some (arena.relocSection arena.symtab id).1 := by
  have listed : Listed _ arena (arena.withTable arena.symtab id) :=
    withTable_listed (by rw [safe.table.2]; decide)
  have bss : (arena.withTable arena.symtab id).bss = arena.bss := create_bss _ _ _ _
  have same := (withTable_made arena arena.symtab id).2.2
  have reloc := withTable_reloc arena arena.symtab id
  rw [relocSection_none alone]
  generalize arena.withTable arena.symtab id = middle at *
  have safe' : Safe middle := safe.extend listed bss same rfl ⟨3,by decide,rfl⟩ rfl
  have carries : Carries arena middle := .extend safe listed same
  have new := listed.made
  have content' := carries.content content
  have unowned : ¬middle.Relates arena.sections.size := fun ⟨other,found⟩ =>
    lt_irrefl _ (typed_bound (safe.relocs other _ ((reloc other).symm.trans found)).type (by decide))
  refine ⟨safe'.attach content' ((reloc id).trans alone) ?_ (by rw [new]; rfl) unowned,carries.trans (.update (safe'.apart content').1 rfl
    rfl (le_refl _)),?_,?_⟩
  · rw [new]
    exact ⟨rfl,by simp [isAllocated,Section.create],⟨rfl,le_refl _⟩,rfl⟩
  · rw [← safe.allocated_extend listed same (by simp [isAllocated,Section.create])]
    exact allocated_congr rfl fun _ => get_update_congr Section.flags rfl
  · rw [get_update_same (isContent_bound content')]

theorem putRelocation (content : Section.IsContent (arena.get id).type)
    (inside : ∀ width ∈ relocWidth? rel.type, rel.offset.toNat + width ≤ (arena.get id).size)
    (named : rel.symbol.toNat < arena.symbolCount arena.symtab) :
    Safe (arena.putRelocation arena.symtab id rel) ∧ Carries arena (arena.putRelocation arena.symtab id rel) ∧
      (arena.putRelocation arena.symtab id rel).allocated = arena.allocated := by
  have recorded (arena : Arena) rela :
      (arena.update rela (·.append rel.encode)).allocated = arena.allocated :=
    allocated_congr rfl fun _ => get_update_congr Section.flags (Rewritten.append _ _).flags
  cases found : (arena.get id).reloc with
  | some rela =>
    rw [putRelocation_some found]
    exact ⟨safe.record found inside named,safe.record_carries found rel,recorded _ _⟩
  | none =>
    obtain ⟨safe',carries,allocated,attached⟩ := safe.relocSection content found
    refine ⟨safe'.record attached (fun width known => ?_) ?_,carries.trans (safe'.record_carries attached rel),
      (recorded _ _).trans allocated⟩
    · exact le_trans (inside width known) (carries.longer id content)
    · rw [carries.symtab]
      exact lt_of_lt_of_le named carries.count

end Safe
end Arena
end Elf
end OnePass
