import OnePass.Proofs.SymbolChains

/-! # Symbol tables

What a symbol table and the tables beside it hold, and what adding a symbol changes. A symbol is found by
its name exactly when one that is not local has it. -/
namespace OnePass.Elf

open Section Bytes Elf.Symbol List

/-! ## Frames -/

/-- A section with other bytes. -/
def Section.Rewritten (before after : Section) : Prop :=
  ∃ store size hashed, after = { before with store, size, hashed }

namespace Section.Rewritten

variable {before middle after : Section}

theorem refl (sec : Section) : Rewritten sec sec := ⟨sec.store,sec.size,sec.hashed,rfl⟩

theorem trans (first : Rewritten before middle) (second : Rewritten middle after) : Rewritten before after := by
  obtain ⟨_,_,_,rfl⟩ := first
  obtain ⟨store,size,hashed,rfl⟩ := second
  exact ⟨store,size,hashed,rfl⟩

theorem append (sec : Section) (bytes : Bytes) : Rewritten sec (sec.append bytes) := by
  obtain ⟨store,eq⟩ := sec.append_eq bytes
  exact ⟨store,_,sec.hashed,eq⟩

theorem patch (sec : Section) (offset : Nat) (bytes : Bytes) : Rewritten sec (sec.patch offset bytes) :=
  ⟨_,sec.size,sec.hashed,rfl⟩

theorem resize (sec : Section) (size : Nat) : Rewritten sec (sec.resize size) := by
  rw [Section.resize,reserveTo]
  split <;> exact ⟨_,_,_,rfl⟩

end Section.Rewritten

namespace Arena

/-- Arenas that differ in the bytes of some sections. -/
structure Framed (touched : List SectionId) (before after : Arena) : Prop where
  shell : after = { before with sections := after.sections }
  size : after.sections.size = before.sections.size
  rewritten : ∀ id, (before.get id).Rewritten (after.get id)
  others : ∀ id, id ∉ touched → after.get id = before.get id

namespace Framed

variable {before middle after : Arena}

theorem refl (touched : List SectionId) (arena : Arena) : Framed touched arena arena :=
  ⟨rfl,rfl,fun _ => .refl _,fun _ _ => rfl⟩

theorem trans (first : Framed touched before middle) (second : Framed touched middle after) :
    Framed touched before after :=
  ⟨by rw [second.shell,first.shell],second.size.trans first.size,
    fun id => (first.rewritten id).trans (second.rewritten id),
    fun id absent => (second.others id absent).trans (first.others id absent)⟩

theorem mono (framed : Framed touched before after) (subset : touched ⊆ more) : Framed more before after :=
  ⟨framed.shell,framed.size,framed.rewritten,fun id absent => framed.others id fun member => absent (subset member)⟩

theorem update (arena : Arena) {id : SectionId} {f : Section → Section} (member : id ∈ touched)
    (rewrites : (arena.get id).Rewritten (f (arena.get id))) : Framed touched arena (arena.update id f) :=
  ⟨rfl,update_size,get_update_rel .refl rewrites,fun _ absent => get_update_other fun same => absent (same ▸ member)⟩

theorem listed (framed : Framed touched before after) : after.listed = before.listed := by rw [framed.shell]

theorem symtab (framed : Framed touched before after) : after.symtab = before.symtab := by rw [framed.shell]

theorem bss (framed : Framed touched before after) : after.bss = before.bss := by rw [framed.shell]

end Framed

/-! ## Records and names -/

def nameRoom (name : String) : Nat := if name.isEmpty then 0 else (ofString name).length + 1

/-- A symbol table with its strings; every name ends inside them. -/
structure Named (arena : Arena) (table strings : SectionId) : Prop where
  table_bound : table < arena.sections.size
  strings_bound : strings < arena.sections.size
  strings_ne : strings ≠ table
  link : (arena.get table).link = some strings
  records : (arena.get table).Backed
  texts : (arena.get strings).Backed
  whole : (arena.get table).size = arena.symbolCount table * recordSize
  names : ∀ i < arena.symbolCount table,
    StringAt (arena.get strings).contents (arena.symbol table i).nameOffset.toNat
      (ofString (arena.symbolName table i)) ∧ 0 ∉ ofString (arena.symbolName table i)
  zero : StringAt (arena.get strings).contents 0 []
  room : (arena.get strings).size =
    1 + ((range (arena.symbolCount table)).map fun i => nameRoom (arena.symbolName table i)).sum

variable {arena after : Arena} {name : String}

section

variable (same : after.get table = arena.get table)

include same

theorem symbol_congr (i : Nat) : after.symbol table i = arena.symbol table i := by rw [symbol,symbol,same]

theorem symbolCount_congr : after.symbolCount table = arena.symbolCount table := by rw [symbolCount,symbolCount,same]

theorem symbolName_congr (link : (arena.get table).link = some strings)
    (texts : after.get strings = arena.get strings) (i : Nat) :
    after.symbolName table i = arena.symbolName table i := by
  simp only [symbolName,same,link,string,texts,symbol_congr same]

theorem Named.congr (named : Named arena table strings) (size : arena.sections.size ≤ after.sections.size)
    (texts : after.get strings = arena.get strings) : Named after table strings := by
  have symbols := symbol_congr same
  have names := symbolName_congr same named.link texts
  have count := symbolCount_congr same
  refine ⟨Nat.lt_of_lt_of_le named.table_bound size,Nat.lt_of_lt_of_le named.strings_bound size,named.strings_ne,
    ?_,?_,?_,?_,?_,?_,?_⟩
  · rw [same]
    exact named.link
  · rw [same]
    exact named.records
  · rw [texts]
    exact named.texts
  · rw [count,same]
    exact named.whole
  · intro i below
    rw [texts,symbols,names]
    exact named.names i (by rwa [← count])
  · rw [texts]
    exact named.zero
  · rw [texts,count,named.room]
    simp only [names]

end

theorem string_eq (at_ : StringAt (arena.get strings).contents offset.toNat (ofString name))
    (free : 0 ∉ ofString name) : arena.string strings offset = name := by
  have inside : offset.toNat + (ofString name).length < (arena.get strings).size := by
    have bound := at_.bound
    have size : (arena.get strings).contents.size ≤ (arena.get strings).size := by
      rw [contents,Array.size_extract]
      omega
    omega
  have stored : StringAt (arena.get strings).store offset.toNat (ofString name) := store_of_contents at_
  simp only [string]
  rw [stored.untilZero_eq free (by omega),Utf8.decode?_ofString,Option.getD_some]

theorem symbolName_eq (link : (arena.get table).link = some strings)
    (at_ : StringAt (arena.get strings).contents (arena.symbol table i).nameOffset.toNat (ofString name))
    (free : 0 ∉ ofString name) : arena.symbolName table i = name := by
  simp only [symbolName,link]
  exact string_eq at_ free

theorem isEmpty_iff_ofString : name.isEmpty = true ↔ ofString name = [] := by
  rw [Utf8.ofString_eq,flatMap_eq_nil_iff,String.isEmpty_iff]
  constructor
  · rintro rfl
    simp
  · intro none
    cases chars : name.toList with
    | nil => simpa using chars
    | cons c rest =>
      have length := String.length_utf8EncodeChar c
      have positive := c.utf8Size_pos
      rw [none c (by simp [chars]),length_nil] at length
      omega

def record (arena : Arena) (table strings : SectionId) (entry : SymbolEntry) (name : String) : Arena :=
  let (nameOffset, arena) := if name.isEmpty then (0, arena) else arena.putString strings name
  arena.update table (·.append (entry.withName nameOffset).encode)

/-- A symbol is added behind the others. -/
structure Extended (table : SectionId) (entry : SymbolEntry) (name : String) (before after : Arena) : Prop where
  count : after.symbolCount table = before.symbolCount table + 1
  symbol : ∀ i < before.symbolCount table, after.symbol table i = before.symbol table i
  symbolName : ∀ i < before.symbolCount table, after.symbolName table i = before.symbolName table i
  newSymbol : ∃ nameOffset, after.symbol table (before.symbolCount table) = entry.withName nameOffset
  newName : after.symbolName table (before.symbolCount table) = name

theorem symbol_append (backed : (arena.get table).Backed) (bound : table < arena.sections.size)
    (whole : (arena.get table).size = arena.symbolCount table * recordSize) (sym : Symbol) :
    (∀ i < arena.symbolCount table,
      (arena.update table (·.append sym.encode)).symbol table i = arena.symbol table i) ∧
    (arena.update table (·.append sym.encode)).symbol table (arena.symbolCount table) = sym ∧
    (arena.update table (·.append sym.encode)).symbolCount table = arena.symbolCount table + 1 := by
  simp only [symbol,symbolCount,get_update_same bound]
  refine ⟨fun i below => ?_,?_,?_⟩
  · refine decode_congr fun k inside => store_append backed ?_
    have room : (i + 1) * recordSize ≤ arena.symbolCount table * recordSize :=
      Nat.mul_le_mul_right _ below
    rw [Nat.succ_mul] at room
    omega
  · apply decode_eq
    apply store_of_contents
    have size := backed.size_contents
    rw [contents_append backed,show (arena.get table).size / recordSize = arena.symbolCount table from rfl,
      ← whole,← size]
    have parts := BytesAt.of_parts (arena.get table).contents #[] sym.encode
    rwa [Array.append_empty] at parts
  · rw [size_append,length_encode,Nat.add_div_right _ (by decide)]

theorem name_put (named : Named arena table strings) (small : (arena.get strings).size < 2 ^ 32) (name : String) :
    ∃ offset middle, (if name.isEmpty then (0, arena) else arena.putString strings name) = (offset,middle) ∧
      Framed [strings] arena middle ∧ (middle.get strings).Backed ∧
      (∃ more, (middle.get strings).contents = (arena.get strings).contents ++ more) ∧
      StringAt (middle.get strings).contents offset.toNat (ofString name) ∧
      (middle.get strings).size = (arena.get strings).size + nameRoom name := by
  rw [nameRoom]
  by_cases empty : name.isEmpty = true
  · refine ⟨0,arena,if_pos empty,.refl _ _,named.texts,⟨#[],by simp⟩,?_,by rw [if_pos empty]; rfl⟩
    rw [isEmpty_iff_ofString.mp empty]
    exact named.zero
  · have size := named.texts.size_contents
    refine ⟨_,_,if_neg empty,.update arena (by simp) (.append _ _),?_,?_,?_,?_⟩
    · rw [get_update_same named.strings_bound]
      exact append_backed named.texts _
    · rw [get_update_same named.strings_bound,contents_append named.texts]
      exact ⟨_,rfl⟩
    · rw [get_update_same named.strings_bound,contents_append named.texts,UInt32.toNat_ofNat',
        Nat.mod_eq_of_lt small,← size]
      exact StringAt.of_parts _ _
    · rw [get_update_same named.strings_bound,if_neg empty]
      simp

theorem record_extended (named : Named arena table strings) (small : (arena.get strings).size < 2 ^ 32)
    (entry : SymbolEntry) (free : 0 ∉ ofString name) :
    let after := arena.record table strings entry name
    Named after table strings ∧ Extended table entry name arena after ∧ Framed [table,strings] arena after := by
  intro after
  obtain ⟨offset,middle,eq,framed,texts,⟨more,contents⟩,at_,size⟩ := name_put named small name
  have tableSame : middle.get table = arena.get table := framed.others _ (by simpa using Ne.symm named.strings_ne)
  have count : middle.symbolCount table = arena.symbolCount table := symbolCount_congr tableSame
  have bound : table < middle.sections.size := by rw [framed.size]; exact named.table_bound
  have stringsBound : strings < middle.sections.size := by rw [framed.size]; exact named.strings_bound
  obtain ⟨old,new,grown⟩ := symbol_append (by rw [tableSame]; exact named.records) bound
    (by rw [count,tableSame]; exact named.whole) (entry.withName offset)
  have result : after = middle.update table (·.append (entry.withName offset).encode) := by simp only [after,record,eq]
  rw [count,← result] at old new grown
  have tableNew : after.get table = (arena.get table).append (entry.withName offset).encode := by
    rw [result,get_update_same bound,tableSame]
  have stringsSame : after.get strings = middle.get strings := by rw [result,get_update_other named.strings_ne]
  have link : (after.get table).link = some strings := by
    rw [tableNew]
    obtain ⟨_,appended⟩ := (arena.get table).append_eq (entry.withName offset).encode
    rw [appended]
    exact named.link
  have kept i (below : i < arena.symbolCount table) :
      StringAt (middle.get strings).contents (arena.symbol table i).nameOffset.toNat
        (ofString (arena.symbolName table i)) := by
    rw [contents]
    exact (named.names i below).1.append more
  have names i (below : i < arena.symbolCount table) : after.symbolName table i = arena.symbolName table i := by
    refine symbolName_eq link ?_ (named.names i below).2
    rw [stringsSame,old i below,symbol_congr tableSame]
    exact kept i below
  have newName : after.symbolName table (arena.symbolCount table) = name := by
    refine symbolName_eq link ?_ free
    rwa [stringsSame,new]
  refine ⟨⟨by simpa [result] using bound,by simpa [result] using stringsBound,named.strings_ne,link,?_,?_,?_,?_,?_,?_⟩,
    ⟨grown,fun i below => by rw [old i below,symbol_congr tableSame],names,⟨offset,new⟩,newName⟩,?_⟩
  · rw [tableNew]
    exact append_backed named.records _
  · rwa [stringsSame]
  · rw [grown,tableNew,size_append,length_encode,named.whole,Nat.succ_mul]
  · intro i below
    rw [stringsSame]
    by_cases last : i = arena.symbolCount table
    · rw [last,newName,new]
      exact ⟨at_,free⟩
    · have inside : i < arena.symbolCount table := by omega
      rw [names i inside,old i inside,symbol_congr tableSame]
      exact ⟨kept i inside,(named.names i inside).2⟩
  · rw [stringsSame,contents]
    exact named.zero.append more
  · have rooms := map_congr_left fun i member => congrArg nameRoom (names i (mem_range.mp member))
    rw [stringsSame,size,grown,named.room,range_succ,map_append,sum_append,map_singleton,newName,Nat.add_assoc,rooms]
    rfl
  · rw [result]
    exact (framed.mono (by simp)).trans (.update middle (by simp) (.append _ _))

end Arena
end OnePass.Elf
