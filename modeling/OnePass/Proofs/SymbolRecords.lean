import OnePass.Proofs.ArenaStanding
import Mathlib.Logic.Relation

/-! # The records of the symbol table

A ledger goes along with an arena and notes what is written to the symbol table. As long as nothing else is
written to the table, its strings and its hash table, reading the records back gives what the notes say. -/
namespace OnePass.Elf

open List Section Arena

variable {id : SectionId} {name : String} {tables : List SectionId} {after : Arena}
  {table strings hash : SectionId}

def Symbol.entry (sym : Symbol) : SymbolEntry :=
  { info := sym.info, other := sym.other, index := sym.index, value := sym.value, size := sym.size }

@[simp] theorem SymbolEntry.withName_entry (entry : SymbolEntry) (nameOffset : UInt32) :
    (entry.withName nameOffset).entry = entry := rfl

/-- A record of the table is written: a new one, or one that takes the place of an old one and keeps its name. -/
inductive RecordWrite where
  | put (entry : SymbolEntry) (name : String)
  | set (index : Nat) (entry : SymbolEntry)
  deriving DecidableEq, Repr

def RecordWrite.apply (records : List (SymbolEntry × String)) : RecordWrite → List (SymbolEntry × String)
  | .put entry name => records ++ [(entry, name)]
  | .set index entry => records.modify index fun record => (entry, record.2)

namespace Arena

/-- The records and names of the symbol table as they are read back. -/
def records (arena : Arena) : List (SymbolEntry × String) :=
  (range (arena.symbolCount arena.symtab)).map fun i =>
    ((arena.symbol arena.symtab i).entry, arena.symbolName arena.symtab i)

/-- What adding a symbol writes. -/
def addWrites (arena : Arena) (entry : SymbolEntry) (name : String) : List RecordWrite :=
  let index := if entry.isLocal then 0 else arena.findSymbol arena.symtab name
  if index == 0 then [.put entry name]
  else
    let old := arena.symbol arena.symtab index
    match arena.merge arena.symtab old entry with
    | .keep => []
    | .widen => [.set index { old.entry with size := entry.size }]
    | .replace => [.set index entry]
    | .clash => []

end Arena

/-- An arena with notes about its symbol table. -/
structure Ledger where
  arena : Arena
  given : List Nat := []
  writes : List RecordWrite := []

namespace Ledger

open Arena

/-- One change of an arena that keeps off the tables, except for symbols that are added and for new values of
symbols that were given away. -/
inductive Step (tables : List SectionId) : Ledger → Ledger → Prop where
  | write {l : Ledger} {touched : List SectionId} {after : Arena} (framed : Framed touched l.arena after)
    (aside : ∀ id ∈ touched, id ∉ tables) : Step tables l { l with arena := after }
  | make (l : Ledger) (name : String) (extra : UInt32) :
    Step tables l { l with arena := (l.arena.create name SectionType.progbits (SectionFlag.alloc ||| extra)).2 }
  | relocate {l : Ledger} {sec : SectionId} (rel : Relocation) (aside : sec ∉ tables) :
    Step tables l { l with arena := l.arena.putRelocation l.arena.symtab sec rel }
  | add {l : Ledger} {entry : SymbolEntry} {name : String} {symbol : Nat} {after : Arena}
    (free : 0 ∉ Bytes.ofString name) (added : l.arena.addSymbol l.arena.symtab entry name = .ok (symbol, after)) :
    Step tables l ⟨after,symbol :: l.given,l.writes ++ l.arena.addWrites entry name⟩
  | redefine {l : Ledger} {symbol : Nat} {sym : Symbol} (given : symbol ∈ l.given)
    (named : sym.nameOffset = (l.arena.symbol l.arena.symtab symbol).nameOffset)
    (own : sym.isLocal = (l.arena.symbol l.arena.symtab symbol).isLocal) :
    Step tables l ⟨l.arena.setSymbol l.arena.symtab symbol sym,l.given,l.writes ++ [.set symbol sym.entry]⟩

def Steps (tables : List SectionId) : Ledger → Ledger → Prop := Relation.ReflTransGen (Step tables)

end Ledger

namespace Arena

/-! ## The sections of the table -/

/-- The symbol table, its strings and its hash table are three sections, and none of them holds relocations. -/
structure Joined (arena : Arena) (table strings hash : SectionId) : Prop extends Beside arena table strings hash where
  symtab : arena.symtab = table
  table_bound : table < arena.sections.size
  strings_bound : strings < arena.sections.size
  strings_ne : strings ≠ table
  relocs : ∀ id rela, (arena.get id).reloc = some rela → rela ∉ [table,strings,hash]

structure Lengthens (table strings : SectionId) (before after : Arena) : Prop where
  records : before.symbolCount table ≤ after.symbolCount table
  texts : (before.get strings).size ≤ (after.get strings).size

namespace Lengthens

theorem refl (arena : Arena) : Lengthens table strings arena arena := ⟨le_refl _,le_refl _⟩

theorem trans (first : Lengthens table strings before middle) (second : Lengthens table strings middle after) :
    Lengthens table strings before after :=
  ⟨le_trans first.records second.records,le_trans first.texts second.texts⟩

theorem of_same (same : after.get table = before.get table) (texts : after.get strings = before.get strings) :
    Lengthens table strings before after :=
  ⟨le_of_eq (symbolCount_congr same).symm,by rw [texts]⟩

end Lengthens

/-- Adding a symbol writes what the notes say: a record behind the others, or the one of its name once more. -/
theorem addSymbol_written (added : arena.addSymbol arena.symtab entry name = .ok (i,after)) :
    ((entry.isLocal = false → arena.findSymbol arena.symtab name = 0) ∧
      (i,after) = arena.putSymbol arena.symtab entry name ∧ arena.addWrites entry name = [.put entry name]) ∨
    (entry.isLocal = false ∧ arena.findSymbol arena.symtab name ≠ 0 ∧ i = arena.findSymbol arena.symtab name ∧
      ((after = arena ∧ arena.addWrites entry name = []) ∨
        ∃ sym, sym.nameOffset = (arena.symbol arena.symtab i).nameOffset ∧
          (sym.isLocal = (arena.symbol arena.symtab i).isLocal ∨ sym.isLocal = entry.isLocal) ∧
          after = arena.setSymbol arena.symtab i sym ∧ arena.addWrites entry name = [.set i sym.entry])) := by
  by_cases new : entry.isLocal = true ∨ arena.findSymbol arena.symtab name = 0
  · have zero : (if entry.isLocal = true then 0 else arena.findSymbol arena.symtab name) = 0 := by
      rcases new with own | absent
      · rw [if_pos own]
      · rw [absent,ite_self]
    simp only [addSymbol,zero,BEq.rfl,if_true,Except.ok.injEq] at added
    refine .inl ⟨fun shared => new.resolve_left (by simp [shared]),added.symm,?_⟩
    simp only [addWrites,zero,BEq.rfl,if_true]
  · obtain ⟨shared,present⟩ := not_or.mp new
    rw [Bool.not_eq_true] at shared
    refine .inr ⟨shared,present,?_⟩
    simp only [addSymbol,addWrites,shared,Bool.false_eq_true,if_false,beq_eq_false_iff_ne.mpr present] at added ⊢
    cases merged : arena.merge arena.symtab (arena.symbol arena.symtab (arena.findSymbol arena.symtab name)) entry with
    | keep =>
      simp only [merged] at added
      obtain ⟨rfl,rfl⟩ := added
      exact ⟨rfl,.inl ⟨rfl,rfl⟩⟩
    | widen =>
      simp only [merged] at added
      obtain ⟨rfl,rfl⟩ := added
      refine ⟨rfl,.inr ⟨{ arena.symbol arena.symtab (arena.findSymbol arena.symtab name) with size := entry.size },rfl,
        .inl rfl,rfl,rfl⟩⟩
    | replace =>
      simp only [merged] at added
      obtain ⟨rfl,rfl⟩ := added
      refine ⟨rfl,.inr ⟨entry.withName (arena.symbol arena.symtab (arena.findSymbol arena.symtab name)).nameOffset,rfl,
        .inr ?_,rfl,rfl⟩⟩
      exact shared
    | clash =>
      simp only [merged] at added
      cases added

namespace Joined

theorem framed (joined : Joined arena table strings hash) (framed : Framed touched arena after) :
    Joined after table strings hash :=
  { joined with
    link := (framed.rewritten table).link.trans joined.link
    chains := (framed.rewritten table).hash.trans joined.chains
    bound := framed.size ▸ joined.bound
    symtab := framed.symtab.trans joined.symtab
    table_bound := framed.size ▸ joined.table_bound
    strings_bound := framed.size ▸ joined.strings_bound
    relocs id rela found := joined.relocs id rela ((framed.rewritten id).reloc ▸ found) }

variable (joined : Joined arena table strings hash)

include joined

theorem tables_bound (member : id ∈ [table,strings,hash]) : id < arena.sections.size := by
  simp only [mem_cons,not_mem_nil,or_false] at member
  rcases member with rfl | rfl | rfl
  · exact joined.table_bound
  · exact joined.strings_bound
  · exact joined.bound

theorem grows (grows : Grows arena after) : Joined after table strings hash :=
  { joined with
    link := (grows.kinds table joined.table_bound).link.trans joined.link
    chains := (grows.kinds table joined.table_bound).hash.trans joined.chains
    bound := lt_of_lt_of_le joined.bound grows.size
    symtab := grows.symtab.trans joined.symtab
    table_bound := lt_of_lt_of_le joined.table_bound grows.size
    strings_bound := lt_of_lt_of_le joined.strings_bound grows.size
    relocs id rela found := by
      rcases grows.relocs id rela found with old | new
      · exact joined.relocs id rela old
      · exact fun member => absurd (joined.tables_bound member) (not_lt.mpr new) }

theorem putRelocation (aside : sec ∉ [table,strings,hash])
    (rel : Relocation) : Joined (arena.putRelocation arena.symtab sec rel) table strings hash ∧
      ∀ id ∈ [table,strings,hash], (arena.putRelocation arena.symtab sec rel).get id = arena.get id := by
  have made := joined.grows (relocSection_grows arena arena.symtab sec)
  have apart {id : SectionId} member : id ≠ sec := fun eq => aside (eq ▸ member)
  have kept : (arena.relocSection arena.symtab sec).1 ∉ [table,strings,hash] ∧
      ∀ id ∈ [table,strings,hash], (arena.relocSection arena.symtab sec).2.get id = arena.get id := by
    cases found : (arena.get sec).reloc with
    | some rela =>
      have same : arena.relocSection arena.symtab sec = (rela,arena) := by simp only [relocSection,found]
      rw [same]
      exact ⟨joined.relocs sec rela found,fun _ _ => rfl⟩
    | none =>
      rw [relocSection_none found]
      refine ⟨fun member => lt_irrefl _ (joined.tables_bound member),fun id member => ?_⟩
      rw [get_update_other (apart member),(withTable_made arena arena.symtab sec).2.2 id (joined.tables_bound member)]
  have put : arena.putRelocation arena.symtab sec rel = (arena.relocSection arena.symtab sec).2.update
      (arena.relocSection arena.symtab sec).1 (·.append rel.encode) := rfl
  rw [put]
  refine ⟨made.framed (.update _ (mem_singleton_self _) (.append _ _)),fun id member => ?_⟩
  rw [get_update_other (ne_of_mem_of_not_mem member kept.1),kept.2 id member]

theorem putSymbol_index (entry : SymbolEntry) (name : String) :
    (arena.putSymbol table entry name).1 = arena.symbolCount table := by
  obtain ⟨nameOffset,middle,written,put⟩ := putSymbol_eq arena table entry name
  have same : middle.get table = arena.get table := by
    rcases written with rfl | ⟨found,bytes,link,rfl⟩
    · rfl
    · obtain rfl : strings = found := Option.some.inj (joined.link.symm.trans link)
      exact get_update_other (Ne.symm joined.strings_ne)
  rw [put]
  split <;> exact symbolCount_congr same

theorem setSymbol_lengthens (i : Nat) (sym : Symbol) : Lengthens table strings arena (arena.setSymbol table i sym) := by
  unfold setSymbol
  refine ⟨?_,by rw [get_update_other joined.strings_ne]⟩
  rw [symbolCount,symbolCount,get_update_congr size (size_patch _ _ _)]

theorem addSymbol_lengthens
    (added : arena.addSymbol table entry name = .ok (i,after)) : Lengthens table strings arena after := by
  rcases addSymbol_result added with rfl | rfl | ⟨sym,rfl⟩
  · have longer := joined.toBeside.putSymbol_longer entry name
    exact ⟨longer.symbolCount,longer.names⟩
  · exact .refl _
  · exact joined.setSymbol_lengthens i sym

end Joined

end Arena

namespace Ledger

open Arena

theorem Step.joined (step : Step [table,strings,hash] l l') (joined : Joined l.arena table strings hash) :
    Joined l'.arena table strings hash ∧ Lengthens table strings l.arena l'.arena := by
  cases step with
  | write framed aside =>
    have kept id member := framed.others id fun touched => aside id touched member
    exact ⟨joined.framed framed,.of_same (kept _ (by simp)) (kept _ (by simp))⟩
  | make name extra =>
    exact ⟨joined.grows (create_grows _ name _ _ (.inr rfl)).1,
      .of_same (get_create _ _ _ joined.table_bound) (get_create _ _ _ joined.strings_bound)⟩
  | relocate rel aside =>
    obtain ⟨joined,kept⟩ := joined.putRelocation aside rel
    exact ⟨joined,.of_same (kept _ (by simp)) (kept _ (by simp))⟩
  | add free added =>
    have framed := addSymbol_framed added
    rw [joined.symtab] at added
    exact ⟨joined.framed framed,joined.addSymbol_lengthens added⟩
  | @redefine symbol sym given named own =>
    rw [joined.symtab]
    have framed : Framed [table] l.arena (l.arena.setSymbol table symbol sym) :=
      .update _ (mem_singleton_self table) (.patch _ _ _)
    exact ⟨joined.framed framed,joined.setSymbol_lengthens _ _⟩

/-- The tables are a symbol table that is not empty, its strings and its hash table. -/
def Rooted (tables : List SectionId) (l : Ledger) : Prop :=
  ∃ table strings hash, tables = [table,strings,hash] ∧ Joined l.arena table strings hash ∧ 0 < l.arena.symbolCount table

theorem Step.rooted (step : Step tables l l') (rooted : Rooted tables l) : Rooted tables l' := by
  obtain ⟨table,strings,hash,rfl,joined,positive⟩ := rooted
  obtain ⟨joined',longer⟩ := step.joined joined
  exact ⟨table,strings,hash,rfl,joined',lt_of_lt_of_le positive longer.records⟩

theorem Rooted.added {symbol : Nat}
    (rooted : Rooted tables l) (added : l.arena.addSymbol l.arena.symtab entry name = .ok (symbol,after)) : symbol ≠ 0 := by
  obtain ⟨table,strings,hash,rfl,joined,positive⟩ := rooted
  rcases addSymbol_written added with ⟨_,put,_⟩ | ⟨_,present,rfl,_⟩
  · have index : symbol = (l.arena.putSymbol l.arena.symtab entry name).1 := congrArg Prod.fst put
    rw [joined.symtab,joined.putSymbol_index] at index
    exact index ▸ ne_of_gt positive
  · exact present

theorem Steps.joined (steps : Steps [table,strings,hash] l l') (joined : Joined l.arena table strings hash) :
    Joined l'.arena table strings hash ∧ Lengthens table strings l.arena l'.arena := by
  induction steps with
  | refl => exact ⟨joined,.refl _⟩
  | tail _ step ih =>
    obtain ⟨joined,longer⟩ := step.joined ih.1
    exact ⟨joined,ih.2.trans longer⟩

end Ledger

/-! ## The words of the hash table -/

namespace Arena

variable {arena : Arena} {count : Nat}

theorem chainRoom_counted (backed : sec.Backed) (inside : 8 ≤ sec.size) (small : sec.word 4 + 1 < 2 ^ 32) :
    (chainRoom sec).word 4 = sec.word 4 + 1 := by
  have room : sec.size + 4 ≤ (sec.resize (sec.size + 4)).store.size :=
    (resize_backed backed.kind (sec.size + 4)).stored
  rw [chainRoom,word_setWord_same (by omega) (by rwa [word_resized]),word_resized]

theorem rebuildHash_counted (beside : Beside arena table strings hash)
    (kind : (arena.get hash).isNobits = false) (small : arena.symbolCount table < 2 ^ 32) :
    ((arena.rebuildHash table buckets).get hash).word 4 = arena.symbolCount table := by
  simp only [rebuildHash,beside.chains]
  rw [get_update_same beside.bound]
  refine (word_flatMap kind _ _ 1 ?_).trans ?_
  · rw [foldl_hashWords_size]
    simp
    omega
  · rw [foldl_hashWords_counts (by omega),Array.getElem?_setIfInBounds_self_of_lt (by simp; omega),Option.getD_some,
      UInt32.toNat_ofNat',Nat.mod_eq_of_lt small]

theorem enterHash_counted (beside : Beside arena table strings hash)
    (hashed : Hashed arena table hash count) (counted : (arena.get hash).word 4 = count)
    (total : arena.symbolCount table = count + 1) (small : count + 1 < 2 ^ 32) :
    ((arena.enterHash table hash count name isLocal).get hash).word 4 = count + 1 := by
  have extent := hashed.extent
  have room := chainRoom_counted hashed.words (by omega) (by omega)
  cases isLocal with
  | true =>
    rw [enterHash_local,get_update_same beside.bound,word_setWord_other (by omega),room,
      counted]
  | false =>
    generalize which : (hashName (Bytes.ofString name)).toNat % (arena.get hash).word 0 = b
    have head : (chainHead (arena.get hash) b count).word 4 = count + 1 :=
      (chainHead_word (k := 1) (by omega) (by omega)).trans (room.trans (by rw [counted]))
    rw [enterHash_shared,which]
    split
    · have framed : Framed [hash] arena (arena.update hash fun _ => chainHead (arena.get hash) b count) :=
        .update arena (by simp) (chainHead_rewritten _ _ _)
      obtain ⟨_,_,same⟩ := beside.symbols framed
      have kind : ((arena.update hash fun _ => chainHead (arena.get hash) b count).get hash).isNobits = false := by
        rw [get_update_same beside.bound]
        exact (chainHead_backed hashed.words _ _).kind
      rw [rebuildHash_counted (beside.framed framed) kind (by omega),same,total]
    · rw [get_update_same beside.bound,head]

theorem Tabled.putSymbol_counted (tabled : Tabled arena table strings hash)
    (small : (arena.get strings).size < 2 ^ 32) (few : arena.symbolCount table + 1 < 2 ^ 32) (entry : SymbolEntry)
    (free : 0 ∉ Bytes.ofString name) (counted : (arena.get hash).word 4 = arena.symbolCount table) :
    ((arena.putSymbol table entry name).2.get hash).word 4 = arena.symbolCount table + 1 := by
  obtain ⟨_,extended,framed⟩ := record_extended tabled.named small entry free
  obtain ⟨beside,covers,_⟩ := tabled.recorded small entry free
  have same := framed.others hash (by simp [beside.hash_ne,beside.hash_apart])
  rw [tabled.putSymbol_record small entry free]
  exact enterHash_counted beside covers (by rw [same,counted]) extended.count few

/-! ## Records and names -/

/-- The table is in order: whole records, a chain word for each, and every name that others see leads to its symbol. -/
structure Orderly (arena : Arena) : Prop where
  whole : (arena.get arena.symtab).size % Symbol.recordSize = 0
  chains : ∃ hash, (arena.get arena.symtab).hash = some hash ∧
    (arena.get hash).word 4 = arena.symbolCount arena.symtab ∧
    (arena.get hash).size = (2 + (arena.get hash).word 0 + arena.symbolCount arena.symtab) * 4
  found : ∀ i < arena.symbolCount arena.symtab, (arena.symbol arena.symtab i).isLocal = false →
    arena.findSymbol arena.symtab (arena.symbolName arena.symtab i) = i

theorem Tabled.findSymbol_own (tabled : Tabled arena table strings hash) (distinct : Distinct arena table)
    (below : i < arena.symbolCount table) (shared : (arena.symbol table i).isLocal = false) :
    arena.findSymbol table (arena.symbolName table i) = i := by
  by_cases absent : arena.findSymbol table (arena.symbolName table i) = 0
  · exact absurd rfl (tabled.findSymbol_none absent below shared)
  · obtain ⟨inside,visible,same⟩ := tabled.findSymbol_some absent
    exact distinct _ inside i below visible shared same

section Records

theorem records_congr (symtab : after.symtab = arena.symtab)
    (count : after.symbolCount arena.symtab = arena.symbolCount arena.symtab)
    (symbols : ∀ i, after.symbol arena.symtab i = arena.symbol arena.symtab i)
    (names : ∀ i, after.symbolName arena.symtab i = arena.symbolName arena.symtab i) : after.records = arena.records := by
  simp only [records,symtab,count,symbols,names]

theorem records_put (symtab : after.symtab = arena.symtab)
    (extended : Extended arena.symtab entry name arena after) : after.records = arena.records ++ [(entry,name)] := by
  have new : (after.symbol arena.symtab (arena.symbolCount arena.symtab)).entry = entry := by
    obtain ⟨_,eq⟩ := extended.newSymbol
    rw [eq,SymbolEntry.withName_entry]
  simp only [records,symtab,extended.count,range_succ,map_append,map_cons,new,
    extended.newName]
  congr 1
  refine map_congr_left fun i member => ?_
  have below := mem_range.mp member
  rw [extended.symbol i below,extended.symbolName i below]

theorem records_set (symtab : after.symtab = arena.symtab)
    (count : after.symbolCount arena.symtab = arena.symbolCount arena.symtab)
    (symbols : ∀ j, after.symbol arena.symtab j = if j = i then sym else arena.symbol arena.symtab j)
    (names : ∀ j, after.symbolName arena.symtab j = arena.symbolName arena.symtab j) :
    after.records = RecordWrite.apply arena.records (.set i sym.entry) := by
  refine ext_getElem? fun j => ?_
  simp only [RecordWrite.apply,records,symtab,count,symbols,names,getElem?_modify]
  by_cases inside : j < arena.symbolCount arena.symtab
  · by_cases here : i = j
    · simp [getElem?_range inside,here]
    · simp [getElem?_range inside,here,Ne.symm here]
  · simp [getElem?_eq_none (l := range _) (by simpa using inside)]

end Records
end Arena

namespace Ledger

open Arena

/-- The table says what the notes say. -/
structure Agrees (start : List (SymbolEntry × String)) (table strings hash : SectionId) (l : Ledger) : Prop where
  joined : Joined l.arena table strings hash
  tabled : Tabled l.arena table strings hash
  counted : (l.arena.get hash).word 4 = l.arena.symbolCount table
  distinct : Distinct l.arena table
  given : ∀ i ∈ l.given, 0 < i ∧ i < l.arena.symbolCount table
  records : l.arena.records = l.writes.foldl RecordWrite.apply start

namespace Agrees

variable (agrees : Agrees start table strings hash l)

include agrees

theorem orderly : Orderly l.arena := by
  have symtab := agrees.joined.symtab
  refine ⟨?_,⟨hash,?_,?_,?_⟩,?_⟩ <;> rw [symtab]
  · rw [agrees.tabled.named.whole,Nat.mul_mod_left]
  · exact agrees.tabled.beside.chains
  · exact agrees.counted
  · exact agrees.tabled.hashed.extent
  · exact fun i below shared => agrees.tabled.findSymbol_own agrees.distinct below shared

theorem aside (joined : Joined after table strings hash) (size : l.arena.sections.size ≤ after.sections.size)
    (kept : ∀ id ∈ [table,strings,hash], after.get id = l.arena.get id) :
    Agrees start table strings hash { l with arena := after } := by
  have same := kept table (by simp)
  have texts := kept strings (by simp)
  have words := kept hash (by simp)
  have symbols := symbol_congr same
  have names := symbolName_congr same agrees.tabled.beside.link texts
  have count := symbolCount_congr same
  have symtab := agrees.joined.symtab
  refine ⟨joined,agrees.tabled.congr size same texts words,?_,?_,?_,?_⟩
  · rw [words,count,agrees.counted]
  · simp only [Distinct,count,symbols,names]
    exact agrees.distinct
  · simp only [count]
    exact agrees.given
  · rw [← agrees.records]
    subst symtab
    exact records_congr joined.symtab count symbols names

theorem put (small : (l.arena.get strings).size < 2 ^ 32) (few : l.arena.symbolCount table + 1 < 2 ^ 32)
    (free : 0 ∉ Bytes.ofString name) (fresh : entry.isLocal = false → l.arena.findSymbol table name = 0) :
    Agrees start table strings hash ⟨(l.arena.putSymbol table entry name).2,(l.arena.putSymbol table entry name).1 :: l.given,
      l.writes ++ [.put entry name]⟩ := by
  obtain ⟨index,tabled,extended,framed⟩ := agrees.tabled.putSymbol small few entry free
  have count := extended.count
  have symtab := agrees.joined.symtab
  refine ⟨agrees.joined.framed framed,tabled,?_,extended.distinct agrees.tabled agrees.distinct fresh,?_,?_⟩
  · rw [agrees.tabled.putSymbol_counted small few entry free agrees.counted,count]
  · intro i member
    show 0 < i ∧ i < (l.arena.putSymbol table entry name).2.symbolCount table
    rcases mem_cons.mp member with rfl | old
    · exact ⟨index ▸ agrees.tabled.positive,by omega⟩
    · have inside := agrees.given i old
      omega
  · rw [foldl_append,← agrees.records]
    subst symtab
    exact records_put framed.symtab extended

theorem set (positive : 0 < i) (below : i < l.arena.symbolCount table)
    (nameOffset : sym.nameOffset = (l.arena.symbol table i).nameOffset)
    (own : sym.isLocal = (l.arena.symbol table i).isLocal) :
    Agrees start table strings hash
      ⟨l.arena.setSymbol table i sym,l.given,l.writes ++ [.set i sym.entry]⟩ := by
  obtain ⟨tabled,names,count,framed⟩ := agrees.tabled.setSymbol positive below nameOffset own
  have symbols := agrees.tabled.symbol_setSymbol below sym
  have symtab := agrees.joined.symtab
  have locals j : ((l.arena.setSymbol table i sym).symbol table j).isLocal =
      (l.arena.symbol table j).isLocal := by
    rw [symbols]
    split
    · next here => rw [here,own]
    · rfl
  refine ⟨agrees.joined.framed framed,tabled,?_,?_,?_,?_⟩
  · rw [framed.others hash (by simpa using agrees.tabled.beside.hash_ne),count,agrees.counted]
  · simp only [Distinct,count,locals,names]
    exact agrees.distinct
  · simp only [count]
    exact agrees.given
  · rw [foldl_append,← agrees.records]
    subst symtab
    exact records_set framed.symtab count symbols names

theorem give (positive : 0 < i) (below : i < l.arena.symbolCount table) :
    Agrees start table strings hash { l with given := i :: l.given } :=
  { agrees with
    given j member := by
      rcases mem_cons.mp member with rfl | old
      · exact ⟨positive,below⟩
      · exact agrees.given j old }

end Agrees

/-- The table says what the notes say after every change that is noted, as long as offsets and indexes have 32 bits. -/
theorem Step.agrees (step : Step [table,strings,hash] l l') (agrees : Agrees start table strings hash l)
    (few : l'.arena.symbolCount table < 2 ^ 32) (small : (l'.arena.get strings).size < 2 ^ 32) :
    Agrees start table strings hash l' := by
  obtain ⟨joined,longer⟩ := step.joined agrees.joined
  cases step with
  | write framed aside =>
    exact agrees.aside joined (le_of_eq framed.size.symm) fun id member =>
      framed.others id fun touched => aside id touched member
  | make name extra =>
    exact agrees.aside joined (create_grows _ name _ _ (.inr rfl)).1.size fun id member =>
      get_create _ _ _ (agrees.joined.tables_bound member)
  | relocate rel aside =>
    refine agrees.aside joined ?_ (agrees.joined.putRelocation aside rel).2
    exact le_trans (relocSection_grows _ _ _).size (le_of_eq update_size.symm)
  | @add entry name symbol after free added =>
    obtain rfl : l.arena.symtab = table := agrees.joined.symtab
    have smaller : (l.arena.get strings).size < 2 ^ 32 := lt_of_le_of_lt longer.texts small
    rcases addSymbol_written added with ⟨fresh,put,writes⟩ | ⟨shared,present,rfl,unchanged | ⟨sym,named,own,rfl,writes⟩⟩
    · obtain ⟨rfl,rfl⟩ := Prod.mk.inj put
      rw [writes]
      exact agrees.put smaller (agrees.tabled.putSymbol_count smaller entry free ▸ few) free fresh
    · obtain ⟨rfl,writes⟩ := unchanged
      obtain ⟨below,_,_⟩ := agrees.tabled.findSymbol_some present
      rw [writes,append_nil]
      exact agrees.give (pos_of_ne_zero present) below
    · obtain ⟨below,visible,_⟩ := agrees.tabled.findSymbol_some present
      have same : sym.isLocal = (l.arena.symbol l.arena.symtab (l.arena.findSymbol l.arena.symtab name)).isLocal := by
        rcases own with same | shared'
        · exact same
        · rw [shared',shared,visible]
      rw [writes]
      exact (agrees.set (pos_of_ne_zero present) below named same).give (pos_of_ne_zero present)
        (lt_of_lt_of_le below longer.records)
  | redefine given named own =>
    obtain rfl : l.arena.symtab = table := agrees.joined.symtab
    obtain ⟨positive,below⟩ := agrees.given _ given
    exact agrees.set positive below named own

theorem Steps.agrees (steps : Steps [table,strings,hash] l l') (agrees : Agrees start table strings hash l)
    (few : l'.arena.symbolCount table < 2 ^ 32) (small : (l'.arena.get strings).size < 2 ^ 32) :
    Agrees start table strings hash l' := by
  induction steps with
  | refl => exact agrees
  | tail steps step ih =>
    -- The table was no longer before this step than it is now.
    obtain ⟨joined,_⟩ := Steps.joined steps agrees.joined
    obtain ⟨_,longer⟩ := step.joined joined
    exact step.agrees (ih (lt_of_le_of_lt longer.records few) (lt_of_le_of_lt longer.texts small)) few small

theorem agrees_initial : Agrees initial.records 4 5 6 { arena := initial } where
  joined := by
    have relocs : ∀ id < initial.sections.size, (initial.get id).reloc = none := by decide +kernel
    refine ⟨tabled_initial.beside,by decide +kernel,tabled_initial.named.table_bound,tabled_initial.named.strings_bound,
      tabled_initial.named.strings_ne,fun id rela found => ?_⟩
    by_cases inside : id < initial.sections.size
    · rw [relocs id inside] at found
      cases found
    · rw [get_outside (Nat.le_of_not_lt inside)] at found
      cases found
  tabled := tabled_initial
  counted := by decide +kernel
  distinct := by
    have one : initial.symbolCount 4 = 1 := by decide +kernel
    intro i below j below'
    rw [one] at below below'
    omega
  given := by simp
  records := rfl

end Ledger
end OnePass.Elf
