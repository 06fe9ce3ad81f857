import OnePass.Proofs.SymbolHash

/-! # The form of an arena

What holds of an arena in which sections are made, written and given symbols and relocations. Every numbered
section is one with contents, the symbol table, its strings or the relocations of a section with contents.
Each operation keeps this form. -/
namespace OnePass.Elf

open List SymbolType SectionFlag

/-! ## Sections -/

namespace Section

/-- A section that only reserves room stores nothing; any other one stores all its bytes. -/
def Whole (sec : Section) : Prop := if sec.isNobits then sec.store = #[] else sec.size ≤ sec.store.size

variable {sec : Section}

theorem whole_iff (kind : sec.isNobits = true) : sec.Whole ↔ sec.store = #[] := by rw [Whole,if_pos kind]

theorem Whole.backed (whole : sec.Whole) (kind : sec.isNobits = false) : sec.Backed := by
  rw [Whole,if_neg (by simp [kind])] at whole
  exact ⟨kind,whole⟩

theorem Backed.whole (backed : sec.Backed) : sec.Whole := by
  rw [Whole,if_neg (by simp [backed.kind])]
  exact backed.stored

theorem Whole.resize (whole : sec.Whole) (size : Nat) : (sec.resize size).Whole := by
  cases kind : sec.isNobits with
  | false => exact (resize_backed kind size).whole
  | true =>
    have same : sec.resize size = { sec with size } := by simp [Section.resize,reserveTo,kind]
    rw [same]
    refine (whole_iff ?_).mpr ((whole_iff kind).mp whole)
    exact kind

theorem limit_resize (sec : Section) (size : Nat) : (sec.resize size).limit = sec.limit := by
  rw [Section.resize,reserveTo]
  split <;> rfl

theorem Whole.patch (whole : sec.Whole) (offset : Nat) (bytes : Bytes) : (sec.patch offset bytes).Whole := by
  cases kind : sec.isNobits with
  | false => exact (patch_backed (whole.backed kind) offset bytes).whole
  | true =>
    refine (whole_iff ?_).mpr (Array.eq_empty_of_size_eq_zero ?_)
    · exact kind
    · simp [Section.patch,(whole_iff kind).mp whole]

structure Content (sec : Section) : Prop where
  kind : sec.type = SectionType.progbits ∨ sec.type = SectionType.nobits
  flags : sec.flags &&& (alloc ||| write ||| exec) = sec.flags
  align : sec.align = 32
  name : 0 ∉ Bytes.ofString sec.name
  fresh : sec.name ≠ ".symtab" ∧ sec.name ≠ ".strtab"

namespace Rewritten

variable {before after : Section} (rewritten : Rewritten before after)

include rewritten

theorem name : after.name = before.name := by
  obtain ⟨_,_,_,rfl⟩ := rewritten
  rfl

theorem type : after.type = before.type := by
  obtain ⟨_,_,_,rfl⟩ := rewritten
  rfl

theorem flags : after.flags = before.flags := by
  obtain ⟨_,_,_,rfl⟩ := rewritten
  rfl

theorem number : after.number = before.number := by
  obtain ⟨_,_,_,rfl⟩ := rewritten
  rfl

theorem link : after.link = before.link := by
  obtain ⟨_,_,_,rfl⟩ := rewritten
  rfl

theorem reloc : after.reloc = before.reloc := by
  obtain ⟨_,_,_,rfl⟩ := rewritten
  rfl

theorem info : after.info = before.info := by
  obtain ⟨_,_,_,rfl⟩ := rewritten
  rfl

theorem content (content : before.Content) : after.Content := by
  obtain ⟨_,_,_,rfl⟩ := rewritten
  exact ⟨content.kind,content.flags,content.align,content.name,content.fresh⟩

end Rewritten
end Section

/-! ## Numbering -/

namespace Arena

variable {arena middle after : Arena} {strings hash id : SectionId}

/-- Listed sections have their places in the list as numbers. -/
def Numbered (arena : Arena) : Prop :=
  ∀ k id, arena.listed[k]? = some id → id < arena.sections.size ∧ (arena.get id).number = k

theorem Numbered.distinct (numbered : Numbered arena) : arena.listed.toList.Nodup := by
  refine pairwise_iff_getElem.mpr fun i j below below' before same => ?_
  have first := numbered i _ (by rw [← Array.getElem?_toList,getElem?_eq_getElem below])
  have second := numbered j _ (by rw [← Array.getElem?_toList,getElem?_eq_getElem below'])
  rw [same] at first
  omega

structure RelocTable (arena : Arena) (id rela : SectionId) : Prop where
  listed : rela ∈ arena.numbered
  type : (arena.get rela).type = SectionType.rela
  flags : (arena.get rela).flags = 0
  link : (arena.get rela).link = some arena.symtab
  info : (arena.get rela).info = UInt32.ofNat (arena.get id).number

/-- How the sections of an arena are numbered and what they are for. -/
structure Laid (arena : Arena) (strings hash : SectionId) : Prop where
  numbers : ∀ k id, arena.listed[k]? = some id → id < arena.sections.size ∧ (arena.get id).number = k
  null : 0 < arena.listed.size
  tables : arena.symtab ∈ arena.numbered ∧ strings ∈ arena.numbered
  table : (arena.get arena.symtab).type = SectionType.symtab ∧ (arena.get arena.symtab).flags = 0 ∧
    (arena.get arena.symtab).name = ".symtab"
  texts : (arena.get strings).type = SectionType.strtab ∧ (arena.get strings).flags = 0 ∧
    (arena.get strings).name = ".strtab"
  words : (arena.get hash).type = SectionType.hash
  kinds : ∀ id ∈ arena.numbered, id ∈ arena.allocated ∨ id = arena.symtab ∨ id = strings ∨
    ∃ target ∈ arena.allocated, (arena.get target).reloc = some id
  content : ∀ id ∈ arena.allocated, (arena.get id).Content
  names : ∀ id ∈ arena.allocated, ∀ other ∈ arena.allocated, (arena.get id).name = (arena.get other).name → id = other
  relocs : ∀ id ∈ arena.allocated, ∀ rela, (arena.get id).reloc = some rela → RelocTable arena id rela
  owners : ∀ id ∈ arena.allocated, ∀ other ∈ arena.allocated, ∀ rela, (arena.get id).reloc = some rela →
    (arena.get other).reloc = some rela → id = other

theorem Framed.numbered (framed : Framed touched arena after) :
    after.numbered = arena.numbered := by rw [Arena.numbered,Arena.numbered,framed.listed]

theorem Framed.allocated (framed : Framed touched arena after) :
    after.allocated = arena.allocated := allocated_congr framed.listed fun id => (framed.rewritten id).flags

theorem Laid.framed (laid : Laid arena strings hash) (framed : Framed touched arena after) :
    Laid after strings hash := by
  have same := framed.rewritten
  refine ⟨fun k id at_ => ?_,by rw [framed.listed]; exact laid.null,?_,?_,?_,?_,?_,?_,?_,?_,?_⟩
  · rw [framed.listed] at at_
    rw [framed.size,(same id).number]
    exact laid.numbers k id at_
  · rw [framed.numbered,framed.symtab]
    exact laid.tables
  · rw [framed.symtab,(same _).type,(same _).flags,(same _).name]
    exact laid.table
  · rw [(same _).type,(same _).flags,(same _).name]
    exact laid.texts
  · rw [(same _).type]
    exact laid.words
  · rw [framed.numbered,framed.allocated,framed.symtab]
    simp only [(same _).reloc]
    exact laid.kinds
  · rw [framed.allocated]
    exact fun id member => (same id).content (laid.content id member)
  · rw [framed.allocated]
    simp only [(same _).name]
    exact laid.names
  · rw [framed.allocated]
    intro id member rela found
    rw [(same id).reloc] at found
    obtain ⟨listed,type,flags,link,info⟩ := laid.relocs id member rela found
    refine ⟨by rwa [framed.numbered],?_,?_,?_,?_⟩
    · rwa [(same rela).type]
    · rwa [(same rela).flags]
    · rwa [(same rela).link,framed.symtab]
    · rwa [(same rela).info,(same id).number]
  · rw [framed.allocated]
    simp only [(same _).reloc]
    exact laid.owners

namespace Laid

variable (laid : Laid arena strings hash)

include laid

theorem numbered_at (member : id ∈ arena.numbered) :
    ∃ k, 0 < k ∧ arena.listed[k]? = some id ∧ (arena.get id).number = k ∧ id < arena.sections.size := by
  obtain ⟨k,found⟩ := getElem?_of_mem member
  rw [numbered,getElem?_drop,Array.getElem?_toList] at found
  have number := laid.numbers _ _ found
  exact ⟨1 + k,by omega,found,number.2,number.1⟩

theorem bound (member : id ∈ arena.numbered) : id < arena.sections.size := by
  obtain ⟨_,_,_,_,bound⟩ := laid.numbered_at member
  exact bound

theorem distinct : arena.listed.toList.Nodup := Numbered.distinct laid.numbers

theorem content_apart (member : id ∈ arena.allocated) : id ≠ arena.symtab ∧ id ≠ strings ∧ id ≠ hash ∧
      ∀ target ∈ arena.allocated, ∀ rela, (arena.get target).reloc = some rela → id ≠ rela := by
  have kind := (laid.content id member).kind
  have other type (apart : type ≠ SectionType.progbits ∧ type ≠ SectionType.nobits) table
      (is : (arena.get table).type = type) : id ≠ table := by
    rintro rfl
    rw [is] at kind
    exact kind.elim apart.1 apart.2
  exact ⟨other _ (by decide) _ laid.table.1,other _ (by decide) _ laid.texts.1,other _ (by decide) _ laid.words,
    fun target inside rela found => other _ (by decide) _ (laid.relocs target inside rela found).type⟩

theorem rela_apart (member : id ∈ arena.allocated)
    (found : (arena.get id).reloc = some rela) : rela ≠ arena.symtab ∧ rela ≠ strings ∧ rela ≠ hash := by
  have type := (laid.relocs id member rela found).type
  refine ⟨?_,?_,?_⟩
  · rintro rfl
    rw [laid.table.1] at type
    exact absurd type (by decide)
  · rintro rfl
    rw [laid.texts.1] at type
    exact absurd type (by decide)
  · rintro rfl
    rw [laid.words] at type
    exact absurd type (by decide)

end Laid

/-! ## Making sections -/

structure Listed (new : Section) (before after : Arena) : Prop where
  symtab : after.symtab = before.symtab
  listed : after.listed = before.listed.push before.sections.size
  size : after.sections.size = before.sections.size + 1
  made : after.get before.sections.size = new
  number : new.number = before.listed.size

namespace Listed

theorem numbered (listed : Listed new arena after) (null : 0 < arena.listed.size) :
    after.numbered = arena.numbered ++ [arena.sections.size] := by
  rw [Arena.numbered,Arena.numbered,listed.listed,Array.toList_push,drop_append_of_le_length]
  simpa using Nat.succ_le_of_lt null

theorem numbers (listed : Listed new arena after) (earlier : Numbered arena)
    (old : ∀ id < arena.sections.size, (after.get id).number = (arena.get id).number) : Numbered after := by
  intro k id at_
  rw [listed.listed,Array.getElem?_push] at at_
  rw [listed.size]
  split at at_
  next last =>
    obtain rfl : arena.sections.size = id := by simpa using at_
    rw [listed.made,listed.number,last]
    exact ⟨Nat.lt_succ_self _,rfl⟩
  next =>
    obtain ⟨below,number⟩ := earlier k id at_
    rw [old id below]
    exact ⟨Nat.lt_succ_of_lt below,number⟩

theorem allocated (listed : Listed new arena after) (laid : Laid arena strings hash)
    (old : ∀ id < arena.sections.size, (after.get id).flags = (arena.get id).flags) :
    after.allocated = arena.allocated ++ (if new.isAllocated then [arena.sections.size] else []) := by
  rw [Arena.allocated,listed.numbered laid.null,filter_append]
  congr 1
  · apply filter_congr
    intro id member
    rw [Section.isAllocated,Section.isAllocated,old id (laid.bound member)]
  · rw [filter_cons,listed.made,filter_nil]

end Listed

/-- A new section comes behind all others, and is numbered unless it is kept out of the list. -/
theorem create_spec (arena : Arena) (name : String) (type flags : UInt32) :
    ∃ number after, arena.create name type flags = (arena.sections.size,after) ∧
      after.sections.size = arena.sections.size + 1 ∧
      (∀ id, after.get id =
        if id = arena.sections.size then { Section.create name type flags with number } else arena.get id) ∧
      after.symtab = arena.symtab ∧ after.bss = arena.bss ∧ (after.listed = arena.listed ∨
        number = arena.listed.size ∧ after.listed = arena.listed.push arena.sections.size) := by
  simp only [create]
  split
  · refine ⟨0,_,rfl,Array.size_push _,fun id => ?_,rfl,rfl,.inl rfl⟩
    rw [get,Array.getElem?_push]
    split <;> rfl
  · refine ⟨_,_,rfl,Array.size_push _,fun id => ?_,rfl,rfl,.inr ⟨rfl,rfl⟩⟩
    rw [get,Array.getElem?_push]
    split <;> rfl

theorem create_listed (arena : Arena) (name : String) (type flags : UInt32)
    (counted : flags &&& SectionFlag.unlisted = 0) :
    (arena.create name type flags).1 = arena.sections.size ∧
      Listed { Section.create name type flags with number := arena.listed.size } arena (arena.create name type flags).2 ∧
      ∀ id < arena.sections.size, (arena.create name type flags).2.get id = arena.get id := by
  have numbered : (Section.create name type flags).isUnlisted = false := by
    simp [Section.isUnlisted,Section.create,counted]
  have eq : arena.create name type flags = (arena.sections.size,
      { arena with
        sections := arena.sections.push { Section.create name type flags with number := arena.listed.size }
        listed := arena.listed.push arena.sections.size }) := by
    simp [create,numbered]
  rw [eq]
  refine ⟨rfl,⟨rfl,rfl,by simp,by simp [get],rfl⟩,fun id below => ?_⟩
  simp [get,Array.getElem?_push,ne_of_lt below]

/-! ## The form -/

/-- Symbols that are not local have names of their own. -/
def Distinct (arena : Arena) (table : SectionId) : Prop :=
  ∀ i < arena.symbolCount table, ∀ j < arena.symbolCount table, (arena.symbol table i).isLocal = false →
    (arena.symbol table j).isLocal = false → arena.symbolName table i = arena.symbolName table j → i = j

theorem Extended.distinct (extended : Extended table entry name arena after)
    (tabled : Tabled arena table strings hash) (distinct : Distinct arena table)
    (fresh : entry.isLocal = false → arena.findSymbol table name = 0) : Distinct after table := by
  have new : (after.symbol table (arena.symbolCount table)).isLocal = entry.isLocal := by
    obtain ⟨_,eq⟩ := extended.newSymbol
    rw [eq]
    rfl
  have older {i : Nat} (below : i < arena.symbolCount table) (shared : (after.symbol table i).isLocal = false)
      (visible : (after.symbol table (arena.symbolCount table)).isLocal = false) :
      after.symbolName table i ≠ after.symbolName table (arena.symbolCount table) := by
    rw [extended.symbol i below] at shared
    rw [extended.symbolName i below,extended.newName]
    exact tabled.findSymbol_none (fresh (new ▸ visible)) below shared
  intro i below j below' shared visible same
  have count := extended.count
  by_cases early : i < arena.symbolCount table
  · by_cases early' : j < arena.symbolCount table
    · rw [extended.symbol i early] at shared
      rw [extended.symbol j early'] at visible
      rw [extended.symbolName i early,extended.symbolName j early'] at same
      exact distinct i early j early' shared visible same
    · obtain rfl : j = arena.symbolCount table := by omega
      exact absurd same (older early shared visible)
  · obtain rfl : i = arena.symbolCount table := by omega
    by_cases early' : j < arena.symbolCount table
    · exact absurd same.symm (older early' visible shared)
    · omega

/-- An index that a symbol may have: a special one or the number of a section with contents. -/
def Placeable (arena : Arena) (index : UInt16) : Prop :=
  index = SectionIndex.undef ∨ SectionIndex.reserved ≤ index ∨
    ∃ id ∈ arena.allocated, index.toNat = (arena.get id).number

/-- A relocation of a known type whose field lies in its section and whose symbol is there. -/
structure FieldIn (arena : Arena) (id : SectionId) (rel : Relocation) : Prop where
  field : ∃ width, relocWidth? rel.type = some width ∧ rel.offset.toNat + width ≤ (arena.get id).size
  symbol : rel.symbol.toNat < arena.symbolCount arena.symtab

/-- What the symbols of an arena are: no sections, each at a place that there is, and each that is not local
with a name of its own. -/
structure Symbols (arena : Arena) : Prop where
  valid : ∀ i, 0 < i → i < arena.symbolCount arena.symtab →
    (arena.symbol arena.symtab i).type ≠ section_ ∧ Placeable arena (arena.symbol arena.symtab i).index
  unique : ∀ i < arena.symbolCount arena.symtab, ∀ j < arena.symbolCount arena.symtab,
    (arena.symbol arena.symtab i).isLocal = false → (arena.symbol arena.symtab j).isLocal = false →
      arena.symbolName arena.symtab i = arena.symbolName arena.symtab j → i = j

theorem Symbols.congr (symbols : Symbols arena) (symtab : after.symtab = arena.symtab)
    (link : (arena.get arena.symtab).link = some strings) (table : after.get arena.symtab = arena.get arena.symtab)
    (texts : after.get strings = arena.get strings)
    (places : ∀ index, Placeable arena index → Placeable after index) : Symbols after := by
  have count := symbolCount_congr table
  have records := symbol_congr table
  have names := symbolName_congr table link texts
  refine ⟨fun i positive below => ?_,?_⟩
  · rw [symtab,count] at below
    rw [symtab,records]
    exact ⟨(symbols.valid i positive below).1,places _ (symbols.valid i positive below).2⟩
  · simp only [symtab,count,records,names]
    exact symbols.unique

structure Formed (arena : Arena) (strings hash : SectionId) : Prop extends Laid arena strings hash where
  tabled : Tabled arena arena.symtab strings hash
  whole : ∀ id ∈ arena.allocated, (arena.get id).Whole ∧ (arena.get id).size ≤ (arena.get id).limit
  records : ∀ id ∈ arena.allocated, ∀ rela, (arena.get id).reloc = some rela →
    (arena.get rela).Backed ∧ (arena.get rela).size % Relocation.recordSize = 0
  symbols : Symbols arena
  fields : ∀ id ∈ arena.allocated, ∀ rel ∈ arena.relocations id, FieldIn arena id rel

/-- Sections with contents are only added, and what they are stays. -/
structure Extends (before after : Arena) : Prop where
  allocated : before.allocated <+: after.allocated
  same : ∀ id ∈ before.allocated, (after.get id).name = (before.get id).name ∧
    (after.get id).type = (before.get id).type ∧ (after.get id).flags = (before.get id).flags

theorem Extends.refl (arena : Arena) : Extends arena arena := ⟨prefix_rfl,fun _ _ => ⟨rfl,rfl,rfl⟩⟩

theorem Extends.trans (first : Extends arena middle) (second : Extends middle after) : Extends arena after := by
  refine ⟨first.allocated.trans second.allocated,fun id member => ?_⟩
  obtain ⟨name,type,flags⟩ := second.same id (first.allocated.subset member)
  rw [name,type,flags]
  exact first.same id member

theorem Framed.extends (framed : Framed touched arena after) : Extends arena after :=
  ⟨framed.allocated ▸ prefix_rfl,fun id _ =>
    ⟨(framed.rewritten id).name,(framed.rewritten id).type,(framed.rewritten id).flags⟩⟩

/-- The sections with contents stay but for the relocations they have. -/
structure Steady (before after : Arena) : Prop where
  allocated : after.allocated = before.allocated
  same : ∀ id ∈ before.allocated, ∃ reloc, after.get id = { before.get id with reloc }

theorem Steady.refl (arena : Arena) : Steady arena arena := ⟨rfl,fun _ _ => ⟨_,rfl⟩⟩

theorem Steady.trans (first : Steady arena middle) (second : Steady middle after) : Steady arena after := by
  refine ⟨second.allocated.trans first.allocated,fun id member => ?_⟩
  obtain ⟨_,eq⟩ := first.same id member
  obtain ⟨reloc,eq'⟩ := second.same id (by rwa [first.allocated])
  exact ⟨reloc,by rw [eq',eq]⟩

theorem Steady.extends (steady : Steady arena after) : Extends arena after := by
  refine ⟨steady.allocated ▸ prefix_rfl,fun id member => ?_⟩
  obtain ⟨_,eq⟩ := steady.same id member
  rw [eq]
  exact ⟨rfl,rfl,rfl⟩

theorem Framed.placeable (framed : Framed touched arena after)
    (placeable : Placeable arena index) : Placeable after index := by
  refine placeable.imp_right fun rest => rest.imp_right fun ⟨id,member,number⟩ => ⟨id,?_,?_⟩
  · rwa [framed.allocated]
  · rwa [(framed.rewritten id).number]

theorem relocations_congr (reloc : (after.get id).reloc = (arena.get id).reloc)
    (same : ∀ rela, (arena.get id).reloc = some rela → after.get rela = arena.get rela) :
    after.relocations id = arena.relocations id := by
  rw [relocations,relocations,reloc]
  cases found : (arena.get id).reloc with
  | none => rfl
  | some rela => simp only [same rela found]

namespace Formed

variable (formed : Formed arena strings hash)

include formed

theorem rewrite (member : id ∈ arena.allocated)
    (rewritten : (arena.get id).Rewritten sec) (whole : sec.Whole) (limit : sec.size ≤ sec.limit)
    (grows : (arena.get id).size ≤ sec.size) :
    let after := arena.update id fun _ => sec
    Formed after strings hash ∧ Framed [id] arena after ∧
      ∀ other ∈ arena.allocated, after.relocations other = arena.relocations other := by
  intro after
  have bound := allocated_bound member
  have framed : Framed [id] arena after := .update arena (by simp) rewritten
  obtain ⟨noTable,noStrings,noHash,noRela⟩ := formed.content_apart member
  have same : after.get id = sec := get_update_same bound
  have other table (apart : id ≠ table) : after.get table = arena.get table := get_update_other apart.symm
  have relocs target inside : after.relocations target = arena.relocations target :=
    relocations_congr (framed.rewritten target).reloc fun rela found => other _ (noRela target inside rela found)
  refine ⟨⟨formed.toLaid.framed framed,?_,?_,?_,?_,?_⟩,framed,relocs⟩
  · exact formed.tabled.congr (le_of_eq framed.size.symm) (other _ noTable) (other _ noStrings) (other _ noHash)
  · intro target inside
    rw [framed.allocated] at inside
    by_cases here : target = id
    · rw [here,same]
      exact ⟨whole,limit⟩
    · rw [other target (Ne.symm here)]
      exact formed.whole target inside
  · intro target inside rela found
    rw [framed.allocated] at inside
    rw [(framed.rewritten target).reloc] at found
    rw [other rela (noRela target inside rela found)]
    exact formed.records target inside rela found
  · exact formed.symbols.congr rfl formed.tabled.beside.link (other _ noTable) (other _ noStrings) fun _ => framed.placeable
  · intro target inside rel found
    rw [framed.allocated] at inside
    rw [relocs target inside] at found
    obtain ⟨⟨width,known,room⟩,symbol⟩ := formed.fields target inside rel found
    refine ⟨⟨width,known,?_⟩,by rwa [update_symtab,symbolCount_congr (other _ noTable)]⟩
    by_cases here : target = id
    · rw [here,same]
      rw [here] at room
      omega
    · rwa [other target (Ne.symm here)]

theorem retable (framed : Framed [arena.symtab,strings,hash] arena after)
    (tabled : Tabled after arena.symtab strings hash)
    (grows : arena.symbolCount arena.symtab ≤ after.symbolCount arena.symtab)
    (valid : ∀ i, 0 < i → i < after.symbolCount arena.symtab →
      (after.symbol arena.symtab i).type ≠ section_ ∧ Placeable arena (after.symbol arena.symtab i).index)
    (unique : Distinct after arena.symtab) :
    Formed after strings hash ∧ Steady arena after ∧
      ∀ id ∈ arena.allocated, after.relocations id = arena.relocations id := by
  have same id (member : id ∈ arena.allocated) : after.get id = arena.get id := by
    obtain ⟨noTable,noStrings,noHash,_⟩ := formed.content_apart member
    exact framed.others id (by simp [noTable,noStrings,noHash])
  have sameRela id (member : id ∈ arena.allocated) rela
      (found : (arena.get id).reloc = some rela) : after.get rela = arena.get rela := by
    obtain ⟨noTable,noStrings,noHash⟩ := formed.rela_apart member found
    exact framed.others rela (by simp [noTable,noStrings,noHash])
  have steady : Steady arena after := ⟨framed.allocated,fun id member => ⟨_,same id member⟩⟩
  have relocs id member : after.relocations id = arena.relocations id :=
    relocations_congr (framed.rewritten id).reloc (sameRela id member)
  refine ⟨⟨formed.toLaid.framed framed,?_,?_,?_,⟨?_,?_⟩,?_⟩,steady,relocs⟩
  · rwa [framed.symtab]
  · intro id member
    rw [framed.allocated] at member
    rw [same id member]
    exact formed.whole id member
  · intro id member rela found
    rw [framed.allocated] at member
    rw [same id member] at found
    rw [sameRela id member rela found]
    exact formed.records id member rela found
  · rw [framed.symtab]
    exact fun i positive below => ⟨(valid i positive below).1,framed.placeable (valid i positive below).2⟩
  · rwa [framed.symtab]
  · intro id member rel found
    rw [framed.allocated] at member
    rw [relocs id member] at found
    obtain ⟨field,symbol⟩ := formed.fields id member rel found
    refine ⟨by rwa [same id member],?_⟩
    rw [framed.symtab]
    omega

theorem putSymbol (small : (arena.get strings).size < 2 ^ 32)
    (few : arena.symbolCount arena.symtab + 1 < 2 ^ 32) (free : 0 ∉ Bytes.ofString name)
    (type : entry.info &&& 0xf ≠ section_) (placeable : Placeable arena entry.index)
    (fresh : entry.isLocal = false → arena.findSymbol arena.symtab name = 0) :
    let after := (arena.putSymbol arena.symtab entry name).2
    (arena.putSymbol arena.symtab entry name).1 = arena.symbolCount arena.symtab ∧ Formed after strings hash ∧
      Extended arena.symtab entry name arena after ∧
      after.symtab = arena.symtab ∧ Steady arena after ∧
      ∀ id ∈ arena.allocated, after.relocations id = arena.relocations id := by
  obtain ⟨index,tabled,extended,framed⟩ := formed.tabled.putSymbol small few entry free
  obtain ⟨offset,new⟩ := extended.newSymbol
  have result := formed.retable framed tabled (by rw [extended.count]; omega) ?_
    (extended.distinct formed.tabled formed.symbols.unique fresh)
  · exact ⟨index,result.1,extended,framed.symtab,result.2⟩
  · intro i positive below
    rw [extended.count] at below
    by_cases last : i = arena.symbolCount arena.symtab
    · rw [last,new]
      exact ⟨type,placeable⟩
    · rw [extended.symbol i (by omega)]
      exact formed.symbols.valid i positive (by omega)

theorem setSymbol (positive : 0 < i) (below : i < arena.symbolCount arena.symtab)
    (nameOffset : sym.nameOffset = (arena.symbol arena.symtab i).nameOffset)
    (own : sym.isLocal = (arena.symbol arena.symtab i).isLocal) (type : sym.type ≠ section_)
    (placeable : Placeable arena sym.index) :
    let after := arena.setSymbol arena.symtab i sym
    Formed after strings hash ∧ Steady arena after := by
  obtain ⟨tabled,names,count,framed⟩ := formed.tabled.setSymbol positive below nameOffset own
  have symbols := formed.tabled.symbol_setSymbol below sym
  have locals j : ((arena.setSymbol arena.symtab i sym).symbol arena.symtab j).isLocal =
      (arena.symbol arena.symtab j).isLocal := by
    rw [symbols]
    split
    next here => rw [here,own]
    next => rfl
  have result := formed.retable (framed.mono (by simp)) tabled (le_of_eq count.symm) ?_ ?_
  · exact ⟨result.1,result.2.1⟩
  · intro j positive below
    rw [count] at below
    rw [symbols]
    split
    next => exact ⟨type,placeable⟩
    next => exact formed.symbols.valid j positive below
  · simp only [Distinct,count,locals,names]
    exact formed.symbols.unique

theorem addSymbol (small : (arena.get strings).size < 2 ^ 32)
    (few : arena.symbolCount arena.symtab + 1 < 2 ^ 32) (free : 0 ∉ Bytes.ofString name)
    (type : entry.info &&& 0xf ≠ section_) (placeable : Placeable arena entry.index)
    (shared : entry.isLocal = false) (added : arena.addSymbol arena.symtab entry name = .ok (i,after)) :
    Formed after strings hash ∧ Steady arena after := by
  rcases addSymbol_cases shared added with ⟨absent,put⟩ | ⟨present,index,kept⟩
  · obtain ⟨_,formed',_,_,steady,_⟩ := formed.putSymbol small few free type placeable fun _ => absent
    rw [← put] at formed' steady
    exact ⟨formed',steady⟩
  · obtain ⟨below,own,_⟩ := formed.tabled.findSymbol_some present
    rw [← index] at present below own
    have old := formed.symbols.valid i (pos_of_ne_zero present) below
    rcases kept with rfl | rfl | rfl
    · exact ⟨formed,.refl _⟩
    · exact formed.setSymbol (pos_of_ne_zero present) below rfl rfl old.1 old.2
    · refine formed.setSymbol (pos_of_ne_zero present) below rfl ?_ type placeable
      rwa [own]

end Formed

end Arena
end OnePass.Elf
