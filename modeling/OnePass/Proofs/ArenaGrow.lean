import OnePass.Proofs.RelocationTables

/-! # Building arenas

Sections, symbols and relocations are added one at a time. Whatever is built in this way from the arena that
every state begins with has the form of an arena. -/
namespace OnePass.Elf.Arena

open SectionFlag Arena List Bytes SectionIndex
open SectionType (nobits progbits)
open Section (Whole isAllocated number)

variable {arena after : Arena} {strings hash id : SectionId}

/-! ## Sections -/

/-- A new section with contents, whose name no other one has. -/
structure Opened (new : Section) (arena after : Arena) : Prop where
  alloc : new.isAllocated = true
  content : new.Content
  fresh : ∀ id ∈ arena.allocated, (arena.get id).name ≠ new.name
  old : ∀ id < arena.sections.size, after.get id = arena.get id

/-- A new section for the relocations of a section that has none. -/
structure Attached (new : Section) (arena after : Arena) (id : SectionId) : Prop where
  member : id ∈ arena.allocated
  bare : (arena.get id).reloc = none
  type : new.type = SectionType.rela
  flags : new.flags = 0
  link : new.link = some arena.symtab
  info : new.info = UInt32.ofNat (arena.get id).number
  here : after.get id = { arena.get id with reloc := some arena.sections.size }
  old : ∀ other < arena.sections.size, other ≠ id → after.get other = arena.get other

section

variable (formed : Formed arena strings hash)

include formed

theorem Formed.join (listed : Listed new arena after) (bare : new.reloc = none) (empty : new.size = 0)
    (blank : new.store = #[]) (role : Opened new arena after ∨ ∃ id, Attached new arena after id) :
    Formed after strings hash ∧ ∀ other ∈ arena.allocated, after.relocations other = arena.relocations other := by
  have shell other (below : other < arena.sections.size) :
      ∃ reloc, after.get other = { arena.get other with reloc } := by
    rcases role with opened | ⟨id,attached⟩
    · exact ⟨_,opened.old other below⟩
    · by_cases same : other = id
      · exact ⟨_,same ▸ attached.here⟩
      · exact ⟨_,attached.old other below same⟩
  have kept {α : Type} (field : Section → α) (plain : ∀ sec reloc, field { sec with reloc } = field sec)
      {other : SectionId} (below : other < arena.sections.size) : field (after.get other) = field (arena.get other) := by
    obtain ⟨_,eq⟩ := shell other below
    rw [eq,plain]
  have owner other (inside : other ∈ arena.allocated) :
      (after.get other).reloc = (arena.get other).reloc ∨ Attached new arena after other := by
    rcases role with opened | ⟨id,attached⟩
    · exact .inl (by rw [opened.old other (allocated_bound inside)])
    · by_cases same : other = id
      · exact .inr (same ▸ attached)
      · exact .inl (by rw [attached.old other (allocated_bound inside) same])
  have aside {table : SectionId} (below : table < arena.sections.size) (apart : ∀ id ∈ arena.allocated, id ≠ table) :
      after.get table = arena.get table := by
    rcases role with opened | ⟨id,attached⟩
    · exact opened.old table below
    · exact attached.old table below (apart id attached.member).symm
  have table := aside (formed.bound formed.tables.1) fun id inside => (formed.content_apart inside).1
  have texts := aside (formed.bound formed.tables.2) fun id inside => (formed.content_apart inside).2.1
  have words := aside formed.tabled.beside.bound fun id inside => (formed.content_apart inside).2.2.1
  have rela other inside table
      (found : (arena.get other).reloc = some table) : after.get table = arena.get table :=
    aside (formed.bound (formed.relocs other inside table found).listed) fun id inside' =>
      (formed.content_apart inside').2.2.2 other inside table found
  have relocs other (inside : other ∈ arena.allocated) :
      after.relocations other = arena.relocations other := by
    rcases owner other inside with same | attached
    · exact relocations_congr same (rela other inside)
    · rw [relocations,relocations,attached.here,attached.bare]
      simp [listed.made,Section.contents,empty,Relocation.decodeAll]
  have numbered := listed.numbered formed.null
  have allocated := listed.allocated formed.toLaid fun _ below => kept Section.flags (fun _ _ => rfl) below
  have remains {id : SectionId} inside : id ∈ after.allocated :=
    allocated ▸ mem_append_left _ inside
  have content {id : SectionId} (member : id ∈ after.allocated) :
      id ∈ arena.allocated ∨ id = arena.sections.size ∧ Opened new arena after := by
    rw [allocated,mem_append] at member
    refine member.imp_right fun last => ?_
    split at last
    next alloc =>
      refine ⟨mem_singleton.mp last,role.resolve_right ?_⟩
      rintro ⟨_,attached⟩
      simp [isAllocated,attached.flags] at alloc
    next => cases last
  -- A table of relocations is an old one or the new one.
  have links {id table : SectionId} (member : id ∈ after.allocated) (found : (after.get id).reloc = some table) :
      id ∈ arena.allocated ∧ ((arena.get id).reloc = some table ∨
        table = arena.sections.size ∧ Attached new arena after id) := by
    rcases content member with inside | ⟨rfl,_⟩
    · refine ⟨inside,(owner id inside).imp (·.symm.trans found) fun attached => ⟨?_,attached⟩⟩
      rw [attached.here] at found
      exact (Option.some.inj found).symm
    · rw [listed.made,bare] at found
      cases found
  refine ⟨⟨⟨listed.numbers formed.numbers fun _ below => kept number (fun _ _ => rfl) below,?_,?_,?_,?_,?_,?_,
    ?_,?_,?_,?_⟩,?_,?_,?_,?_,?_⟩,relocs⟩
  · rw [listed.listed,Array.size_push]
    omega
  · rw [numbered,listed.symtab]
    exact ⟨mem_append_left _ formed.tables.1,mem_append_left _ formed.tables.2⟩
  · rw [listed.symtab,table]
    exact formed.table
  · rw [texts]
    exact formed.texts
  · rw [words]
    exact formed.words
  · intro id member
    rw [numbered,mem_append,mem_singleton] at member
    rw [listed.symtab]
    rcases member with member | rfl
    · refine (formed.kinds id member).imp remains (.imp_right (.imp_right fun reached => ?_))
      obtain ⟨target,inside,found⟩ := reached
      refine ⟨target,remains inside,?_⟩
      rcases owner target inside with same | attached
      · exact same.trans found
      · cases attached.bare.symm.trans found
    · rcases role with opened | ⟨id,attached⟩
      · exact .inl (by simp [allocated,opened.alloc])
      · exact .inr (.inr (.inr ⟨id,remains attached.member,by rw [attached.here]⟩))
  · intro id member
    rcases content member with inside | ⟨rfl,opened⟩
    · obtain ⟨_,eq⟩ := shell id (allocated_bound inside)
      obtain ⟨kind,flags,align,name,fresh⟩ := formed.content id inside
      rw [eq]
      exact ⟨kind,flags,align,name,fresh⟩
    · rw [listed.made]
      exact opened.content
  · intro id member other member' named
    have name {id : SectionId} (inside : id ∈ arena.allocated) :=
      kept Section.name (fun _ _ => rfl) (allocated_bound inside)
    rcases content member with inside | ⟨rfl,opened⟩ <;> rcases content member' with inside' | ⟨rfl,opened'⟩
    · rw [name inside,name inside'] at named
      exact formed.names id inside other inside' named
    · rw [name inside,listed.made] at named
      exact absurd named (opened'.fresh id inside)
    · rw [name inside',listed.made] at named
      exact absurd named.symm (opened.fresh other inside')
    · rfl
  · intro id member table found
    obtain ⟨inside,old | ⟨rfl,attached⟩⟩ := links member found
    · obtain ⟨member,type,flags,link,info⟩ := formed.relocs id inside table old
      rw [← rela id inside table old] at type flags link info
      exact ⟨numbered ▸ mem_append_left _ member,type,flags,listed.symtab ▸ link,
        info.trans (by rw [kept number (fun _ _ => rfl) (allocated_bound inside)])⟩
    · refine ⟨by simp [numbered],?_,?_,?_,?_⟩ <;> rw [listed.made]
      · exact attached.type
      · exact attached.flags
      · rw [attached.link,listed.symtab]
      · rw [attached.info,attached.here]
  · intro id member other member' table found found'
    have new {id : SectionId} inside : (arena.get id).reloc ≠ some arena.sections.size :=
      fun found => Nat.lt_irrefl _ (formed.bound (formed.relocs id inside _ found).listed)
    obtain ⟨inside,first | ⟨rfl,first⟩⟩ := links member found <;>
      obtain ⟨inside',second | ⟨eq,second⟩⟩ := links member' found'
    · exact formed.owners id inside other inside' table first second
    · exact absurd (eq ▸ first) (new inside)
    · exact absurd second (new inside')
    · by_contra apart
      have same := first.old other (allocated_bound inside') (Ne.symm apart)
      rw [second.here] at same
      cases second.bare.symm.trans (congrArg Section.reloc same).symm
  · rw [listed.symtab]
    exact formed.tabled.congr (by rw [listed.size]; omega) table texts words
  · intro id member
    rcases content member with inside | ⟨rfl,_⟩
    · obtain ⟨_,eq⟩ := shell id (allocated_bound inside)
      rw [eq]
      exact formed.whole id inside
    · rw [listed.made,Whole,blank,empty]
      exact ⟨by split <;> simp,Nat.zero_le _⟩
  · intro id member table found
    obtain ⟨inside,old | ⟨rfl,attached⟩⟩ := links member found
    · rw [rela id inside table old]
      exact formed.records id inside table old
    · rw [listed.made,empty]
      exact ⟨⟨by simp [Section.isNobits,attached.type]; decide,by rw [empty]; exact Nat.zero_le _⟩,rfl⟩
  · exact formed.symbols.congr listed.symtab formed.tabled.beside.link table texts fun index placeable =>
      placeable.imp_right fun rest => rest.imp_right fun reached => reached.imp fun _ found => ⟨remains found.1,
        found.2.trans (kept number (fun _ _ => rfl) (allocated_bound found.1)).symm⟩
  · intro id member rel found
    rcases content member with inside | ⟨rfl,_⟩
    · rw [relocs id inside] at found
      obtain ⟨field,symbol⟩ := formed.fields id inside rel found
      exact ⟨by rwa [kept Section.size (fun _ _ => rfl) (allocated_bound inside)],
        by rwa [listed.symtab,symbolCount_congr table]⟩
    · simp [relocations,listed.made,bare] at found

theorem Formed.create (kind : type = progbits ∨ type = nobits)
    (free : 0 ∉ ofString name) (own : name ≠ ".symtab" ∧ name ≠ ".strtab")
    (fresh : ∀ id ∈ arena.allocated, (arena.get id).name ≠ name)
    (kept : flags &&& (alloc ||| write ||| exec) = flags)
    (alloc : flags &&& alloc ≠ 0) :
    let after := (arena.create name type flags).2
    Formed after strings hash ∧ (arena.create name type flags).1 = arena.sections.size ∧ after.symtab = arena.symtab ∧
      after.allocated = arena.allocated ++ [arena.sections.size] ∧
      after.get arena.sections.size = { Section.create name type flags with number := arena.listed.size } ∧
      ∀ id < arena.sections.size, after.get id = arena.get id := by
  have counted : flags &&& SectionFlag.unlisted = 0 := by
    rw [← kept,UInt32.and_assoc,show (SectionFlag.alloc ||| SectionFlag.write ||| SectionFlag.exec) &&&
      SectionFlag.unlisted = 0 from by decide,UInt32.and_zero]
  obtain ⟨index,listed,old⟩ := create_listed arena name type flags counted
  have image : { Section.create name type flags with number := arena.listed.size }.isAllocated = true := by
    simpa [isAllocated,Section.create] using alloc
  have opened : Opened _ arena (arena.create name type flags).2 :=
    ⟨image,⟨kind,kept,by rcases kind with rfl | rfl <;> rfl,free,own⟩,fresh,old⟩
  refine ⟨(formed.join listed rfl rfl rfl (.inl opened)).1,index,listed.symtab,?_,listed.made,old⟩
  rw [listed.allocated formed.toLaid fun id below => by rw [old id below],if_pos image]

/-! ## Relocations -/

theorem Formed.attach (listed : Listed new arena after) (bare : new.reloc = none) (empty : new.size = 0)
    (blank : new.store = #[]) (attached : Attached new arena after id) :
    Formed after strings hash ∧ Steady arena after ∧
      ∀ other ∈ arena.allocated, after.relocations other = arena.relocations other := by
  have shell other (below : other < arena.sections.size) :
      ∃ reloc, after.get other = { arena.get other with reloc } := by
    by_cases same : other = id
    · exact ⟨_,same ▸ attached.here⟩
    · exact ⟨_,attached.old other below same⟩
  obtain ⟨formed',relocs⟩ := formed.join listed bare empty blank (.inr ⟨id,attached⟩)
  refine ⟨formed',⟨?_,fun other inside => shell other (allocated_bound inside)⟩,relocs⟩
  rw [listed.allocated formed.toLaid fun other below => ?_,if_neg (by simp [isAllocated,attached.flags]),
    append_nil]
  obtain ⟨_,eq⟩ := shell other below
  rw [eq]

theorem Formed.relocSection (member : id ∈ arena.allocated) :
    let after := (arena.relocSection arena.symtab id).2
    Formed after strings hash ∧ (after.get id).reloc = some (arena.relocSection arena.symtab id).1 ∧
      after.symtab = arena.symtab ∧ after.get arena.symtab = arena.get arena.symtab ∧ after.get strings = arena.get strings ∧ Steady arena after ∧
      ∀ other ∈ arena.allocated, after.relocations other = arena.relocations other := by
  cases known : (arena.get id).reloc with
  | some rela =>
    have same : arena.relocSection arena.symtab id = (rela,arena) := by simp only [Arena.relocSection,known]
    rw [same]
    exact ⟨formed,known,rfl,rfl,rfl,.refl _,fun _ _ => rfl⟩
  | none =>
    have bound := allocated_bound member
    obtain ⟨noTable,noStrings,_,_⟩ := formed.content_apart member
    have made : Listed _ arena (arena.withTable arena.symtab id) := withTable_listed (by rw [formed.table.2.1]; rfl)
    have old := (withTable_made arena arena.symtab id).2.2
    rw [relocSection_none known]
    generalize arena.withTable arena.symtab id = middle at made old
    have here : (middle.update id fun s => { s with reloc := some arena.sections.size }).get id =
        { arena.get id with reloc := some arena.sections.size } := by
      rw [get_update_same (made.size ▸ Nat.lt_succ_of_lt bound),old id bound]
    have others other (below : other < arena.sections.size) (different : other ≠ id) :
        (middle.update id fun s => { s with reloc := some arena.sections.size }).get other = arena.get other := by
      rw [get_update_other different,old other below]
    have listed : Listed _ arena (middle.update id fun s => { s with reloc := some arena.sections.size }) :=
      ⟨made.symtab,made.listed,update_size.trans made.size,
        (get_update_other (Nat.ne_of_gt bound)).trans made.made,made.number⟩
    obtain ⟨formed',steady,relocs⟩ := formed.attach listed rfl rfl rfl ⟨member,known,rfl,rfl,rfl,rfl,here,others⟩
    exact ⟨formed',by rw [here],listed.symtab,others _ (formed.bound formed.tables.1) (Ne.symm noTable),
      others _ (formed.bound formed.tables.2) (Ne.symm noStrings),steady,relocs⟩

theorem Formed.record (member : id ∈ arena.allocated) (found : (arena.get id).reloc = some rela)
    (field : FieldIn arena id rel) :
    let after := arena.update rela (·.append rel.encode)
    Formed after strings hash ∧ Steady arena after ∧ after.relocations id = arena.relocations id ++ [rel] ∧
      ∀ other ∈ arena.allocated, other ≠ id → after.relocations other = arena.relocations other := by
  intro after
  have bound := formed.bound (formed.relocs id member rela found).listed
  obtain ⟨backed,full⟩ := formed.records id member rela found
  obtain ⟨noTable,noStrings,noHash⟩ := formed.rela_apart member found
  have framed : Framed [rela] arena after := .update arena (by simp) (.append _ _)
  have others other apart : after.get other = arena.get other := get_update_other apart
  have here : after.get rela = (arena.get rela).append rel.encode := get_update_same bound
  have content other inside : after.get other = arena.get other :=
    others other ((formed.content_apart inside).2.2.2 id member rela found)
  have steady : Steady arena after := ⟨framed.allocated,fun other inside => ⟨_,content other inside⟩⟩
  have added : after.relocations id = arena.relocations id ++ [rel] := by
    rw [relocations,relocations,content id member,found]
    simp only
    rw [here,Section.contents_append backed,Relocation.decodeAll_append (by rw [backed.size_contents,full])]
  have kept other (inside : other ∈ arena.allocated) (different : other ≠ id) :
      after.relocations other = arena.relocations other := by
    refine relocations_congr (by rw [content other inside]) fun table owned => others table ?_
    rintro rfl
    exact different (formed.owners other inside id member table owned found)
  refine ⟨⟨formed.toLaid.framed framed,?_,?_,?_,?_,?_⟩,steady,added,kept⟩
  · exact formed.tabled.congr (Nat.le_of_eq framed.size.symm) (others _ (Ne.symm noTable)) (others _ (Ne.symm noStrings))
      (others _ (Ne.symm noHash))
  · intro other inside
    rw [framed.allocated] at inside
    rw [content other inside]
    exact formed.whole other inside
  · intro other inside table owned
    rw [framed.allocated] at inside
    rw [content other inside] at owned
    by_cases same : table = rela
    · rw [same,here,Section.size_append,Relocation.length_encode]
      exact ⟨Section.append_backed backed _,by rw [Nat.add_mod_right,full]⟩
    · rw [others table same]
      exact formed.records other inside table owned
  · exact formed.symbols.congr rfl formed.tabled.beside.link (others _ (Ne.symm noTable)) (others _ (Ne.symm noStrings))
      fun _ => framed.placeable
  · intro other inside record found'
    rw [framed.allocated] at inside
    have count := symbolCount_congr (others _ (Ne.symm noTable))
    suffices FieldIn arena other record from
      ⟨by rw [content other inside]; exact this.field,by rw [update_symtab,count]; exact this.symbol⟩
    by_cases same : other = id
    · rw [same,added,mem_append,mem_singleton] at found'
      rw [same]
      rcases found' with old | rfl
      · exact formed.fields id member record old
      · exact field
    · rw [kept other inside same] at found'
      exact formed.fields other inside record found'

theorem Formed.putRelocation (member : id ∈ arena.allocated) (field : FieldIn arena id rel) :
    let after := arena.putRelocation arena.symtab id rel
    Formed after strings hash ∧ Steady arena after ∧ after.symtab = arena.symtab ∧
      after.get arena.symtab = arena.get arena.symtab ∧ after.get strings = arena.get strings ∧
      after.relocations id = arena.relocations id ++ [rel] ∧
      ∀ other ∈ arena.allocated, other ≠ id → after.relocations other = arena.relocations other := by
  obtain ⟨formed',found,symtab,table,texts,steady,relocs⟩ := formed.relocSection member
  have member' : id ∈ (arena.relocSection arena.symtab id).2.allocated := by rwa [steady.allocated]
  have field' : FieldIn (arena.relocSection arena.symtab id).2 id rel := by
    obtain ⟨_,eq⟩ := steady.same id member
    refine ⟨?_,by rw [symtab,symbolCount_congr table]; exact field.symbol⟩
    rw [eq]
    exact field.field
  obtain ⟨result,steady',added,others⟩ := formed'.record member' found field'
  obtain ⟨noTable,noStrings,_⟩ := formed'.rela_apart member' found
  rw [relocs id member] at added
  rw [symtab] at noTable
  rw [Arena.putRelocation]
  refine ⟨result,steady.trans steady',symtab,?_,?_,added,fun other inside different => ?_⟩
  · rw [get_update_other (Ne.symm noTable),table]
  · rw [get_update_other (Ne.symm noStrings),texts]
  · rw [others other (by rwa [steady.allocated]) different,relocs other inside]

end

/-! ## Whole arenas -/

structure Fits (arena : Arena) : Prop where
  count : arena.listed.size < reserved.toNat
  sizes : ∀ id ∈ arena.numbered, (arena.get id).size < 2 ^ 32
  names : StringPool.room (arena.numbered.map fun id => ofString (arena.get id).name) < 2 ^ 31

theorem fits_iff (arena : Arena) : arena.Fits ↔ arena.listed.size < reserved.toNat ∧
    (∀ id ∈ arena.numbered, (arena.get id).size < 2 ^ 32) ∧
    StringPool.room (arena.numbered.map fun id => ofString (arena.get id).name) < 2 ^ 31 :=
  ⟨fun ⟨count,sizes,names⟩ => ⟨count,sizes,names⟩,fun ⟨count,sizes,names⟩ => ⟨count,sizes,names⟩⟩

instance (arena : Arena) : Decidable arena.Fits :=
  decidable_of_iff _ arena.fits_iff.symm

theorem Fits.number_lt (fits : Fits arena) (formed : Formed arena strings hash) (member : id ∈ arena.numbered) :
    (arena.get id).number < 2 ^ 16 := by
  have count := fits.count
  obtain ⟨k,_,at_,number,_⟩ := formed.numbered_at member
  have below := (Array.getElem?_eq_some_iff.mp at_).1
  rw [show reserved.toNat = 0xff00 from rfl] at count
  omega

/-- One step of building an arena. -/
inductive Build (arena : Arena) : Arena → Prop where
  | create {name : String} {flags : UInt32} (free : 0 ∉ ofString name)
    (own : name ≠ ".symtab" ∧ name ≠ ".strtab") (fresh : ∀ id ∈ arena.allocated, (arena.get id).name ≠ name)
    (kept : flags &&& (alloc ||| write ||| exec) = flags)
    (alloc : flags &&& alloc ≠ 0) : Build arena (arena.create name progbits flags).2
  | grow {id : SectionId} {more offset : Nat} {sec : Section} (member : id ∈ arena.allocated)
    (grows : (arena.get id).grow? more = some (offset,sec)) : Build arena (arena.update id fun _ => sec)
  | write {id : SectionId} (member : id ∈ arena.allocated) (offset : Nat) (bytes : Bytes) :
    Build arena (arena.update id (·.patch offset bytes))
  | addSymbol {entry : SymbolEntry} {name : String} {i : Nat} {after : Arena} (free : 0 ∉ ofString name)
    (type : entry.info &&& 0xf ≠ SymbolType.section_) (placeable : Placeable arena entry.index)
    (shared : entry.isLocal = false) (added : arena.addSymbol arena.symtab entry name = .ok (i,after)) :
    Build arena after
  | putSymbol {entry : SymbolEntry} {name : String} (free : 0 ∉ ofString name)
    (type : entry.info &&& 0xf ≠ SymbolType.section_) (placeable : Placeable arena entry.index)
    (own : entry.isLocal = true) : Build arena (arena.putSymbol arena.symtab entry name).2
  | putRelocation {id : SectionId} {rel : Relocation} (member : id ∈ arena.allocated) (field : FieldIn arena id rel) :
    Build arena (arena.putRelocation arena.symtab id rel)

inductive Built : Arena → Prop where
  | initial : Built initial
  | next {before after : Arena} (built : Built before) (build : Build before after) (fits : Fits after) : Built after

theorem Built.fits (built : Built arena) : Fits arena := by
  cases built with
  | initial => decide +kernel
  | next _ _ fits => exact fits

theorem tabled_initial : Tabled initial 4 5 6 := by
  have one : initial.symbolCount 4 = 1 := by decide +kernel
  refine ⟨⟨?_,?_,?_,?_,⟨?_,?_⟩,⟨?_,?_⟩,?_,?_,?_,?_⟩,⟨?_,?_,?_,?_,?_⟩,⟨⟨?_,?_⟩,?_,?_,?_,?_⟩,?_⟩
  any_goals decide +kernel
  · intro i below
    obtain rfl : i = 0 := by omega
    exact ⟨by unfold StringAt BytesAt; decide +kernel,by decide +kernel⟩
  · unfold StringAt BytesAt
    decide +kernel
  · rw [show (initial.get 6).word 0 = 1 from by decide +kernel]
    refine ⟨fun b below => ?_,fun i below b _ => ?_⟩
    · obtain rfl : b = 0 := by omega
      decide +kernel
    · obtain rfl : i = 0 := by omega
      rw [latest]
      decide +kernel

/-- Beyond the sections that there are, reading gives an empty one. -/
theorem forall_get {p : Section → Prop} (empty : p {}) (each : ∀ id < arena.sections.size, p (arena.get id))
    (id : SectionId) : p (arena.get id) := by
  by_cases inside : id < arena.sections.size
  · exact each id inside
  · rwa [get_outside (Nat.le_of_not_lt inside)]

theorem reloc_initial (id : SectionId) : (initial.get id).reloc = none :=
  forall_get (p := fun sec => sec.reloc = none) rfl (by decide +kernel) id

theorem relocations_initial (id : SectionId) : initial.relocations id = [] := by
  rw [relocations,reloc_initial]

theorem formed_initial : Formed initial 5 6 := by
  have one : initial.symbolCount initial.symtab = 1 := by decide +kernel
  refine ⟨⟨?_,?_,?_,?_,?_,?_,?_,?_,?_,?_,?_⟩,?_,?_,?_,⟨?_,?_⟩,?_⟩
  any_goals decide +kernel
  · intro k id at_
    have below : k < 6 := (Array.getElem?_eq_some_iff.mp at_).1
    have numbers : ∀ k < 6, ∀ id ∈ initial.listed[k]?, id < initial.sections.size ∧
        (initial.get id).number = k := by decide +kernel
    exact numbers k below id at_
  · intro id member
    have content : ∀ id ∈ [1,2,3], (((initial.get id).type = progbits ∨
        (initial.get id).type = nobits) ∧ (initial.get id).flags &&&
          (alloc ||| write ||| exec) = (initial.get id).flags) ∧
        ((initial.get id).align = 32 ∧ 0 ∉ ofString (initial.get id).name ∧
          (initial.get id).name ≠ ".symtab" ∧ (initial.get id).name ≠ ".strtab") := by decide +kernel
    obtain ⟨⟨kind,flags⟩,align,name,fresh⟩ := content id member
    exact ⟨kind,flags,align,name,fresh⟩
  · simp [reloc_initial]
  · exact tabled_initial
  · unfold Whole
    decide +kernel
  · simp [reloc_initial]
  · omega
  · simp [relocations_initial]

theorem Formed.build (formed : Formed arena strings hash) (fits : Fits arena) (build : Build arena after) :
    Formed after strings hash ∧ Extends arena after := by
  have small := fits.sizes strings formed.tables.2
  have few : arena.symbolCount arena.symtab + 1 < 2 ^ 32 := by
    have size := fits.sizes arena.symtab formed.tables.1
    rw [formed.tabled.named.whole,Symbol.recordSize] at size
    omega
  cases build with
  | create free own fresh kept alloc =>
    obtain ⟨formed',_,_,allocated,_,old⟩ := formed.create (Or.inl rfl) free own fresh kept alloc
    refine ⟨formed',⟨by rw [allocated]; exact prefix_append _ _,fun id member => ?_⟩⟩
    rw [old id (allocated_bound member)]
    exact ⟨rfl,rfl,rfl⟩
  | @grow id more offset sec member grows =>
    obtain ⟨whole,_⟩ := formed.whole id member
    rw [Section.grow?] at grows
    split at grows
    next room =>
      obtain ⟨_,rfl⟩ := Prod.mk.inj (Option.some.inj grows)
      obtain ⟨formed',framed,_⟩ := formed.rewrite member (.resize _ _) (whole.resize _)
        (by rwa [Section.limit_resize]) (Nat.le_add_right _ _)
      exact ⟨formed',framed.extends⟩
    next => cases grows
  | @write id member offset bytes =>
    obtain ⟨whole,limit⟩ := formed.whole id member
    rw [← update_const]
    obtain ⟨formed',framed,_⟩ := formed.rewrite member (.patch _ offset bytes) (whole.patch _ _) limit (Nat.le_refl _)
    exact ⟨formed',framed.extends⟩
  | addSymbol free type placeable shared added =>
    obtain ⟨formed',steady⟩ := formed.addSymbol small few free type placeable shared added
    exact ⟨formed',steady.extends⟩
  | putSymbol free type placeable own =>
    obtain ⟨_,formed',_,_,steady,_⟩ := formed.putSymbol small few free type placeable fun shared => by
      rw [own] at shared
      cases shared
    exact ⟨formed',steady.extends⟩
  | putRelocation member field =>
    obtain ⟨formed',steady,_⟩ := formed.putRelocation member field
    exact ⟨formed',steady.extends⟩

/-- What is built has the form of an arena, and the sections that every state begins with come first in it. -/
theorem Built.formed (built : Built arena) : Formed arena 5 6 ∧ Extends Arena.initial arena := by
  induction built with
  | initial => exact ⟨formed_initial,.refl _⟩
  | next built build _ ih =>
    obtain ⟨formed,grown⟩ := ih.1.build built.fits build
    exact ⟨formed,ih.2.trans grown⟩

end OnePass.Elf.Arena
