import OnePass.Proofs.SymbolMerging
import OnePass.Proofs.ArenaRefers

/-! # Looking up is scanning

Every table begins with the null symbol, and each symbol that is put or merged keeps the chains complete,
whether or not it makes the table grow. -/
namespace OnePass.Elf

open SectionType Bytes
open List hiding count

theorem Section.hashed_setWord (sec : Section) (offset value : Nat) : (sec.setWord offset value).hashed = sec.hashed := rfl

namespace Arena

variable {start arena after : Arena} {table strings hash : SectionId}

/-! ## Following a chain to its end -/

/-- Where the chain from a symbol leads, however long it is: to the first symbol of the name, or to 0. -/
inductive ChainEnds (arena : Arena) (table hash : SectionId) (name : String) : Nat → Nat → Prop where
  | nowhere : ChainEnds arena table hash name 0 0
  | here {i : Nat} (positive : 0 < i) (named : arena.symbolName table i = name) : ChainEnds arena table hash name i i
  | further {i found : Nat} (positive : 0 < i) (other : arena.symbolName table i ≠ name)
    (rest : ChainEnds arena table hash name
      ((arena.get hash).word ((2 + (arena.get hash).word 0 + i) * 4)) found) :
    ChainEnds arena table hash name i found

theorem chainEnds_latest (hashed : Hashed arena table hash count) (name : String) (b n : Nat) (below : n ≤ count) :
    ChainEnds arena table hash name (latest (arena.bucket table ((arena.get hash).word 0) · = some b) n)
      (latest (fun i => arena.bucket table ((arena.get hash).word 0) i = some b ∧ arena.symbolName table i = name) n) := by
  induction n with
  | zero => exact .nowhere
  | succ n ih =>
    rw [latest,latest]
    by_cases own : arena.bucket table ((arena.get hash).word 0) n = some b
    · rw [if_pos own]
      rcases eq_zero_or_pos n with rfl | positive
      · rw [latest,ite_self]
        exact .nowhere
      · by_cases named : arena.symbolName table n = name
        · rw [if_pos ⟨own,named⟩]
          exact .here positive named
        · rw [if_neg fun both => named both.2]
          refine .further positive named ?_
          rw [hashed.chained.links n (by omega) b own]
          exact ih (by omega)
    · rw [if_neg own,if_neg fun both => own both.1]
      exact ih (by omega)

theorem Tabled.findSymbol_ends (tabled : Tabled arena table strings hash) (name : String) :
    ChainEnds arena table hash name
      ((arena.get hash).word ((2 + (hashName (ofString name)).toNat % (arena.get hash).word 0) * 4))
      (arena.findSymbol table name) := by
  have inside := Nat.mod_lt (hashName (ofString name)).toNat tabled.hashed.buckets.1
  have ends := chainEnds_latest tabled.hashed name ((hashName (ofString name)).toNat % (arena.get hash).word 0) _
    (Nat.le_refl _)
  rw [← tabled.hashed.chained.heads _ inside] at ends
  rwa [tabled.findSymbol_eq,← latest_congr fun i _ => bucket_of_name name i]

/-! ## Counting what is entered -/

/-- The hash table knows how many symbols are not local. -/
def Counted (arena : Arena) (table hash : SectionId) : Prop :=
  (arena.get hash).hashed = (arena.globals table).length

theorem globals_length_congr (count : after.symbolCount table = arena.symbolCount table)
    (own : ∀ i < arena.symbolCount table, (after.symbol table i).isLocal = (arena.symbol table i).isLocal) :
    (after.globals table).length = (arena.globals table).length := by
  rw [globals,globals,length_map,length_map,count]
  refine congrArg length (filter_congr fun i member => ?_)
  rw [mem_range'_1] at member
  rw [own i (by omega)]

theorem Extended.globals_length (extended : Extended table entry name arena after)
    (positive : 0 < arena.symbolCount table) :
    (after.globals table).length = (arena.globals table).length + if entry.isLocal then 0 else 1 := by
  obtain ⟨n,count⟩ : ∃ n, arena.symbolCount table = n + 1 := ⟨_,(Nat.succ_pred_eq_of_pos positive).symm⟩
  obtain ⟨_,new⟩ := extended.newSymbol
  have own : (after.symbol table (1 + n)).isLocal = entry.isLocal := by
    rw [add_comm,← count,new]
    rfl
  have old : (range' 1 n).filter (fun i => !(after.symbol table i).isLocal) =
      (range' 1 n).filter (fun i => !(arena.symbol table i).isLocal) := by
    refine filter_congr fun i member => ?_
    rw [mem_range'_1] at member
    rw [extended.symbol i (by omega)]
  rw [globals,globals,length_map,length_map,extended.count,count,Nat.add_sub_cancel,
    range'_1_concat,filter_append,length_append,old,filter_singleton,own]
  cases entry.isLocal <;> rfl

theorem rebuildHash_entered (beside : Beside arena table strings hash) (buckets : Nat) :
    ((arena.rebuildHash table buckets).get hash).hashed = (arena.globals table).length := by
  simp only [rebuildHash,beside.chains,get_update_same beside.bound,globals,length_map]

theorem enterHash_entered (beside : Beside arena table strings hash) (count : Nat) (name : String) (isLocal : Bool)
    (whole : (arena.globals table).length = (arena.get hash).hashed + if isLocal then 0 else 1) :
    ((arena.enterHash table hash count name isLocal).get hash).hashed = (arena.globals table).length := by
  cases isLocal with
  | true =>
    rw [enterHash_local,get_update_same beside.bound,whole,if_pos rfl,add_zero,
      Section.hashed_setWord,chainRoom_hashed]
  | false =>
    rw [enterHash_shared]
    generalize head : chainHead (arena.get hash)
      ((hashName (ofString name)).toNat % (arena.get hash).word 0) count = sec
    have framed : Framed [hash] arena (arena.update hash fun _ => sec) :=
      .update arena (by simp) (head ▸ chainHead_rewritten _ _ _)
    obtain ⟨symbols,_,total⟩ := beside.symbols framed
    split
    · rw [rebuildHash_entered (beside.framed framed)]
      exact globals_length_congr total fun i _ => by rw [symbols]
    · rw [get_update_same beside.bound,whole,← head]
      rfl

theorem Tabled.putSymbol_entered (tabled : Tabled arena table strings hash) (counted : Counted arena table hash)
    (small : (arena.get strings).size < 2 ^ 32) (few : arena.symbolCount table + 1 < 2 ^ 32) (entry : SymbolEntry)
    (free : 0 ∉ ofString name) : Counted (arena.putSymbol table entry name).2 table hash := by
  obtain ⟨_,extended,framed⟩ := record_extended tabled.named small entry free
  obtain ⟨beside,_⟩ := tabled.recorded small entry free
  have same := framed.others hash (by simp [tabled.beside.hash_ne,tabled.beside.hash_apart])
  have entered := enterHash_entered beside (arena.symbolCount table) name entry.isLocal
    (by rw [extended.globals_length tabled.positive,same,counted])
  obtain ⟨_,_,put,_⟩ := tabled.putSymbol small few entry free
  rw [Counted,put.globals_length tabled.positive,← extended.globals_length tabled.positive,
    tabled.putSymbol_record small entry free]
  exact entered

/-! ## Telling a table of symbols -/

/-- A symbol that a table is told of: it is put behind the others, or merged with one of its name. -/
inductive Telling where
  | put (m : Mention)
  | add (m : Mention)
  deriving DecidableEq, Repr

def Telling.name : Telling → String
  | .put m => m.name
  | .add m => m.name

def tell (arena : Arena) (table : SectionId) : Telling → Arena
  | .put m => (arena.putSymbol table m.entry m.name).2
  | .add m => arena.mention table m

def tellAll (arena : Arena) (table : SectionId) (told : List Telling) : Arena := told.foldl (·.tell table ·) arena

/-- A symbol is put, or nothing happens, or the record that looking the name up finds changes in everything
but its name and its not being local. -/
theorem tell_cases (arena : Arena) (table : SectionId) (t : Telling) :
    (∃ entry, arena.tell table t = (arena.putSymbol table entry t.name).2) ∨ arena.tell table t = arena ∨
      arena.findSymbol table t.name ≠ 0 ∧ ∃ sym,
        ((arena.symbol table (arena.findSymbol table t.name)).isLocal = false → sym.isLocal = false) ∧
        sym.nameOffset = (arena.symbol table (arena.findSymbol table t.name)).nameOffset ∧
        arena.tell table t = arena.setSymbol table (arena.findSymbol table t.name) sym := by
  cases t with
  | put m => exact .inl ⟨m.entry,rfl⟩
  | add m =>
    rw [tell,mention,Telling.name]
    cases own : m.entry.isLocal with
    | true =>
      refine .inl ⟨m.entry,?_⟩
      simp [addSymbol,own]
    | false =>
      cases added : arena.addSymbol table m.entry m.name with
      | error clash => exact .inr (.inl rfl)
      | ok result =>
        obtain ⟨i,after⟩ := result
        rcases addSymbol_cases own added with ⟨_,put⟩ | ⟨found,rfl,merged⟩
        · exact .inl ⟨m.entry,congrArg Prod.snd put⟩
        · rcases merged with same | widened | replaced
          · exact .inr (.inl same)
          · refine .inr (.inr ⟨found,{ arena.symbol table (arena.findSymbol table m.name) with size := m.entry.size },
              ?_,rfl,widened⟩)
            exact id
          · refine .inr (.inr ⟨found,m.entry.withName
              (arena.symbol table (arena.findSymbol table m.name)).nameOffset,?_,rfl,replaced⟩)
            exact fun _ => own

/-! ## Tables only grow -/

section

variable (beside : Beside arena table strings hash)

include beside

theorem Beside.tell_longer (t : Telling) : Longer table strings hash arena (arena.tell table t) := by
  rcases tell_cases arena table t with ⟨entry,put⟩ | same | ⟨_,sym,_,_,changed⟩
  · rw [put]
    exact beside.putSymbol_longer entry t.name
  · rw [same]
    exact .refl _ _ _ _
  · rw [changed]
    refine .update arena (by simp) (.patch _ _ _) ?_
    rw [Section.size_patch]

theorem Beside.tellAll_longer (told : List Telling) : Longer table strings hash arena (arena.tellAll table told) := by
  induction told generalizing arena with
  | nil => exact .refl _ _ _ _
  | cons t rest ih =>
    have first := beside.tell_longer t
    exact first.trans (ih (first.beside beside))

end

/-! ## Complete after every telling -/

theorem Tabled.tell (tabled : Tabled arena table strings hash) (counted : Counted arena table hash)
    (free : 0 ∉ ofString t.name) (small : (arena.get strings).size < 2 ^ 32)
    (few : (arena.tell table t).symbolCount table < 2 ^ 32) :
    Tabled (arena.tell table t) table strings hash ∧ Counted (arena.tell table t) table hash := by
  rcases tell_cases arena table t with ⟨entry,put⟩ | same | ⟨found,sym,own,nameOffset,changed⟩
  · rw [put] at few ⊢
    rw [tabled.putSymbol_count small entry free] at few
    exact ⟨(tabled.putSymbol small few entry free).2.1,tabled.putSymbol_entered counted small few entry free⟩
  · rw [same]
    exact ⟨tabled,counted⟩
  · obtain ⟨below,shared,_⟩ := tabled.findSymbol_some found
    rw [changed]
    obtain ⟨tabled',_,count,framed⟩ := tabled.setSymbol (pos_of_ne_zero found) below nameOffset
      ((own shared).trans shared.symm)
    refine ⟨tabled',?_⟩
    rw [Counted,framed.others hash (by simpa using tabled.beside.hash_ne),counted]
    refine (globals_length_congr count fun i inside => ?_).symm
    rw [tabled.symbol_setSymbol below]
    split
    next here => rw [here,own shared,shared]
    next => rfl

theorem Tabled.tellAll (tabled : Tabled arena table strings hash) (counted : Counted arena table hash)
    (free : ∀ t ∈ told, 0 ∉ ofString t.name) (small : ((arena.tellAll table told).get strings).size < 2 ^ 32)
    (few : (arena.tellAll table told).symbolCount table < 2 ^ 32) :
    Tabled (arena.tellAll table told) table strings hash ∧ Counted (arena.tellAll table told) table hash := by
  induction told generalizing arena with
  | nil => exact ⟨tabled,counted⟩
  | cons t rest ih =>
    have first := tabled.beside.tell_longer t
    have later := (first.beside tabled.beside).tellAll_longer rest
    obtain ⟨tabled',counted'⟩ := tabled.tell counted (free t (by simp))
      (lt_of_le_of_lt (first.trans later).names small) (lt_of_le_of_lt later.symbolCount few)
    exact ih tabled' counted' (fun t member => free t (by simp [member])) small few

/-! ## A new table -/

structure Section.Fresh (sec : Section) (type : UInt32) : Prop where
  kind : sec.type = type
  store : sec.store = #[]
  size : sec.size = 0
  hashed : sec.hashed = 0

structure Section.Unchained (sec : Section) : Prop where
  backed : sec.Backed
  size : sec.size = 12
  hashed : sec.hashed = 0
  buckets : sec.word 0 = 1
  head : sec.word 8 = 0

theorem Section.Unchained.linked (unchained : Section.Unchained sec) (entrySize : UInt64)
    (link : Option SectionId) : Section.Unchained { sec with entrySize, link } :=
  ⟨⟨unchained.backed.kind,unchained.backed.stored⟩,unchained.size,unchained.hashed,unchained.buckets,unchained.head⟩

theorem enterHash_null (beside : Beside arena table strings hash) (unchained : Section.Unchained (arena.get hash))
    (own : (arena.symbol table 0).isLocal = true) :
    Hashed (arena.enterHash table hash 0 "" true) table hash 1 ∧
      ((arena.enterHash table hash 0 "" true).get hash).hashed = 0 := by
  obtain ⟨backed,size,hashed,buckets,head⟩ := unchained
  have chained : Chained (fun k => (arena.get hash).word (k * 4)) (arena.bucket table ((arena.get hash).word 0))
      ((arena.get hash).word 0) 0 := by
    refine ⟨fun b below => ?_,fun i below => absurd below (Nat.not_lt_zero i)⟩
    obtain rfl : b = 0 := by omega
    exact head
  refine ⟨(enterHash_hashed_local beside backed (le_of_eq hashed) (by omega) (by omega) chained own "").1,?_⟩
  rw [enterHash_local,get_update_same beside.bound,Section.hashed_setWord,chainRoom_hashed,hashed]

/-- A table, its strings and its hash table before the null symbol is put. -/
structure Blank (arena : Arena) (table strings hash : SectionId) : Prop where
  beside : Beside arena table strings hash
  table_bound : table < arena.sections.size
  strings_bound : strings < arena.sections.size
  strings_ne : strings ≠ table
  backed : (arena.get table).Backed
  empty : (arena.get table).size = 0
  texts : (arena.get strings).Backed
  zero : (arena.get strings).contents = #[0]
  unchained : Section.Unchained (arena.get hash)

namespace Blank

theorem symbolCount (blank : Blank arena table strings hash) : arena.symbolCount table = 0 := by
  rw [Arena.symbolCount,blank.empty,Nat.zero_div]

theorem named (blank : Blank arena table strings hash) : Named arena table strings := by
  have count := blank.symbolCount
  refine ⟨blank.table_bound,blank.strings_bound,blank.strings_ne,blank.beside.link,blank.backed,blank.texts,?_,?_,?_,?_⟩
  · rw [count,blank.empty,zero_mul]
  · rw [count]
    exact fun i below => absurd below (Nat.not_lt_zero i)
  · rw [blank.zero]
    unfold StringAt BytesAt
    decide
  · rw [count,← blank.texts.size_contents,blank.zero]
    rfl

theorem tabled (blank : Blank arena table strings hash) :
    Tabled (arena.putSymbol table { info := 0, index := 0 } "").2 table strings hash ∧
      Counted (arena.putSymbol table { info := 0, index := 0 } "").2 table hash := by
  have free : 0 ∉ ofString "" := by simp [isEmpty_iff_ofString.mp (by decide : "".isEmpty = true)]
  have small : (arena.get strings).size < 2 ^ 32 := by
    rw [← blank.texts.size_contents,blank.zero]
    decide
  obtain ⟨named,extended,framed⟩ := record_extended blank.named small { info := 0, index := 0 } free
  have total := extended.count
  have null : (arena.record table strings { info := 0, index := 0 } "").symbol table 0 = {} := by
    have whole : (arena.get table).size = arena.symbolCount table * Symbol.recordSize := blank.named.whole
    have new := (symbol_append blank.backed blank.table_bound whole
      (({ info := 0, index := 0 } : SymbolEntry).withName 0)).2.1
    rwa [blank.symbolCount] at new
  rw [blank.symbolCount] at total
  have beside : Beside (arena.record table strings { info := 0, index := 0 } "") table strings hash :=
    ⟨named.link,by rw [(framed.rewritten table).hash]; exact blank.beside.chains,
      by rw [framed.size]; exact blank.beside.bound,blank.beside.hash_ne,blank.beside.hash_apart⟩
  have put : arena.putSymbol table { info := 0, index := 0 } "" =
      (0,(arena.record table strings { info := 0, index := 0 } "").enterHash table hash 0 "" true) := by
    have chains := beside.chains
    simp only [record,if_pos (by decide : "".isEmpty = true)] at chains ⊢
    simp only [Arena.putSymbol,blank.beside.link,if_pos (by decide : "".isEmpty = true),chains,blank.symbolCount]
    rfl
  rw [put]
  generalize arena.record table strings { info := 0, index := 0 } "" = middle at *
  have same : middle.get hash = arena.get hash :=
    framed.others _ (by simp [blank.beside.hash_ne,blank.beside.hash_apart])
  obtain ⟨hashed,none⟩ := enterHash_null beside (by rw [same]; exact blank.unchained) (by rw [null]; decide)
  have entered := beside.enterHash_framed 0 "" true
  obtain ⟨symbols,_,count⟩ := beside.symbols entered
  have one : (middle.enterHash table hash 0 "" true).symbolCount table = 1 := count.trans total
  have kept := entered.others table (by simpa using Ne.symm beside.hash_ne)
  have texts := entered.others strings (by simpa using Ne.symm beside.hash_apart)
  have size := le_of_eq entered.size.symm
  refine ⟨⟨named.congr kept size texts,beside.congr size kept,by rwa [one],by rw [symbols,null]⟩,?_⟩
  rw [Counted,none,globals,one]
  rfl

end Blank

namespace Section.Fresh

theorem backed (fresh : Fresh sec type) (stored : type ≠ nobits) : sec.Backed := by
  refine ⟨?_,by rw [fresh.size]; exact Nat.zero_le _⟩
  rw [Section.isNobits,fresh.kind]
  simpa using stored

theorem contents_append (fresh : Fresh sec type) (stored : type ≠ nobits) (bytes : Bytes) :
    (sec.append bytes).contents = bytes.toArray := by
  rw [Section.contents_append (fresh.backed stored),Section.contents,fresh.store]
  simp

theorem unchained (fresh : Fresh sec SectionType.hash) : Unchained ((sec.resize 12).setWord 0 1) := by
  have backed := fresh.backed (by decide)
  have wide := Section.resize_backed backed.kind 12
  have room : 12 ≤ (sec.resize 12).store.size := wide.stored
  refine ⟨Section.patch_backed wide _ _,rfl,?_,Section.word_setWord_same (by omega) (by decide),?_⟩
  · rw [Section.hashed_setWord,Section.resize_eq_of_kind backed.kind]
    exact fresh.hashed
  · rw [Section.word_setWord_other (by decide)]
    simp only [Section.word,Section.resize_eq_of_kind backed.kind,fresh.store]
    decide +kernel

end Section.Fresh

/-- Three new sections become a table, its strings and its hash table once they refer to each other. -/
theorem blank_of_fresh (bound : n + 2 < arena.sections.size)
    (stored : type ≠ nobits) (records : Section.Fresh (arena.get n) type)
    (text : Section.Fresh texts strtab) (terminated : arena.get (n + 1) = texts.append [0])
    (words : Section.Fresh (arena.get (n + 2)) SectionType.hash) :
    Blank ((arena.update n fun sec => { sec with entrySize := 24, link := some (n + 1), hash := some (n + 2) }).update
      (n + 2) fun sec => { (sec.resize 12).setWord 0 1 with entrySize := 4, link := some n }) n (n + 1) (n + 2) := by
  have ne1 : n ≠ n + 1 := by omega
  have ne2 : n ≠ n + 2 := by omega
  have ne3 : n + 1 ≠ n + 2 := by omega
  have first : n < arena.sections.size := by omega
  have second : n + 1 < arena.sections.size := by omega
  have backed := records.backed stored
  generalize made : (arena.update n fun sec => { sec with
      entrySize := 24, link := some (n + 1), hash := some (n + 2) }).update
    (n + 2) (fun sec => { (sec.resize 12).setWord 0 1 with entrySize := 4, link := some n }) = after
  have size : after.sections.size = arena.sections.size := by rw [← made,update_size,update_size]
  have table : after.get n = { arena.get n with entrySize := 24, link := some (n + 1), hash := some (n + 2) } := by
    rw [← made,get_update_other ne2,get_update_same first]
  have strings : after.get (n + 1) = texts.append [0] := by
    rw [← made,get_update_other ne3,get_update_other ne1.symm,terminated]
  have hash : after.get (n + 2) =
      { ((arena.get (n + 2)).resize 12).setWord 0 1 with entrySize := 4, link := some n } := by
    rw [← made,get_update_same (by rwa [update_size]),get_update_other ne2.symm]
  refine ⟨⟨by rw [table],by rw [table],size ▸ bound,ne2.symm,ne3.symm⟩,size ▸ first,size ▸ second,ne1.symm,?_,?_,?_,?_,?_⟩
  · rw [table]
    exact ⟨backed.kind,backed.stored⟩
  · rw [table]
    exact records.size
  · rw [strings]
    exact Section.append_backed (text.backed (by decide)) _
  · rw [strings,text.contents_append (by decide)]
  · rw [hash]
    exact words.unchained.linked _ _

theorem createSymbolTable_tabled (start : Arena) (name : String) (stored : type ≠ nobits)
    (flags : UInt32) (stringName hashName : String) (hashFlags : UInt32) :
    let made := start.createSymbolTable name type flags stringName hashName hashFlags
    made.1 = start.sections.size ∧
      Tabled made.2 start.sections.size (start.sections.size + 1) (start.sections.size + 2) ∧
      Counted made.2 start.sections.size (start.sections.size + 2) := by
  simp only [createSymbolTable]
  obtain ⟨_,arena1,eq1,size1,get1,_⟩ := create_spec start name type flags
  obtain ⟨number,arena2,eq2,size2,get2,_⟩ := create_spec arena1 stringName strtab flags
  obtain ⟨_,arena3,eq3,size3,get3,_⟩ := create_spec
    (arena2.update (start.sections.size + 1) fun sec => sec.append [0]) hashName hash
    (hashFlags ||| SectionFlag.unlisted)
  rw [size1] at eq2 size2 get2
  rw [update_size,size2] at eq3 size3 get3
  simp only [eq1,eq2,eq3]
  refine ⟨trivial,Blank.tabled ?_⟩
  generalize start.sections.size = n at *
  have ne1 : n ≠ n + 1 := by omega
  have ne2 : n ≠ n + 2 := by omega
  have ne3 : n + 1 ≠ n + 2 := by omega
  have fresh {name : String} {type flags : UInt32} {number : Nat} :
      Section.Fresh { Section.create name type flags with number } type := ⟨rfl,rfl,rfl,rfl⟩
  refine blank_of_fresh (by omega) stored ?_ (@fresh stringName _ flags number) ?_ ?_
  · rw [get3,if_neg ne2,get_update_other ne1,get2,if_neg ne1,get1,if_pos rfl]
    exact fresh
  · rw [get3,if_neg ne3,get_update_same (by rw [size2]; exact Nat.lt_succ_self _),get2,if_pos rfl]
  · rw [get3,if_pos rfl]
    exact fresh

/-! ## The table as a whole -/

/-- Whatever a new table is told, looking a name up follows a chain that ends and gives what a scan of all the
records gives: the last symbol of the name that is not local, or 0. The hash table holds two counts, its buckets
and one word for each symbol, and it knows how many symbols are not local. Offsets into the strings and the
number of symbols have to fit in 32 bits. -/
theorem findSymbol_eq_scan (start : Arena) (name : String) (type flags : UInt32) (stringName hashedName : String)
    (hashFlags : UInt32) (stored : type ≠ nobits) (told : List Telling)
    (free : ∀ t ∈ told, 0 ∉ Bytes.ofString t.name) :
    let made := start.createSymbolTable name type flags stringName hashedName hashFlags
    let table := made.1
    let arena := made.2.tellAll table told
    ∃ strings hash, (arena.get table).link = some strings ∧ (arena.get table).hash = some hash ∧
      ((arena.get strings).size < 2 ^ 32 → arena.symbolCount table < 2 ^ 32 →
        (∀ wanted : String,
          arena.findSymbol table wanted =
            latest (fun i => (arena.symbol table i).isLocal = false ∧ arena.symbolName table i = wanted)
              (arena.symbolCount table) ∧
          ChainEnds arena table hash wanted
            ((arena.get hash).word ((2 + (hashName (Bytes.ofString wanted)).toNat % (arena.get hash).word 0) * 4))
            (arena.findSymbol table wanted)) ∧
        0 < (arena.get hash).word 0 ∧
        (arena.get hash).size = (2 + (arena.get hash).word 0 + arena.symbolCount table) * 4 ∧
        (arena.get hash).hashed = (arena.globals table).length) := by
  intro made table arena
  obtain ⟨index,tabled,counted⟩ := createSymbolTable_tabled start name stored flags stringName hashedName hashFlags
  rw [← index] at tabled counted
  have beside := (tabled.beside.tellAll_longer told).beside tabled.beside
  refine ⟨_,_,beside.link,beside.chains,fun small few => ?_⟩
  obtain ⟨whole,entered⟩ := tabled.tellAll counted free small few
  exact ⟨fun wanted => ⟨whole.findSymbol_eq wanted,whole.findSymbol_ends wanted⟩,whole.hashed.buckets.1,
    whole.hashed.extent,entered⟩

/-- Symbols that make a table grow: a local one, one without a name and two of one name. -/
def crowd : List Telling :=
  [.put ⟨"a",{ info := 0, index := 1 }⟩,.add ⟨"b",{ info := 0x10, index := 0 }⟩,.put ⟨"",{ info := 0x10, index := 1 }⟩,
    .put ⟨"b",{ info := 0x12, index := 1 }⟩]

theorem findSymbol_eq_scan_crowd :
    let arena := (createSymbolTable {} "t" SectionType.symtab 0 "s" "h" 0).2.tellAll 0 crowd
    (∀ t ∈ crowd, 0 ∉ Bytes.ofString t.name) ∧ arena.findSymbol 0 "b" = 4 ∧ arena.findSymbol 0 "a" = 0 ∧
      (arena.get 2).hashed = 3 := by
  have free : ∀ t ∈ crowd, 0 ∉ Bytes.ofString t.name := by decide +kernel
  obtain ⟨strings,hash,link,chains,facts⟩ := findSymbol_eq_scan {} "t" SectionType.symtab 0 "s" "h" 0 (by decide) crowd free
  have first : (createSymbolTable {} "t" SectionType.symtab 0 "s" "h" 0).1 = 0 := rfl
  rw [first] at link chains facts
  have evaluated : let arena := (createSymbolTable {} "t" SectionType.symtab 0 "s" "h" 0).2.tellAll 0 crowd
      (arena.get 0).link = some 1 ∧ (arena.get 0).hash = some 2 ∧ (arena.get 1).size < 2 ^ 32 ∧
      arena.symbolCount 0 < 2 ^ 32 ∧ (arena.globals 0).length = 3 ∧ ∀ wanted ∈ [("b",4),("a",0)],
        latest (fun i => (arena.symbol 0 i).isLocal = false ∧ arena.symbolName 0 i = wanted.1) (arena.symbolCount 0) =
          wanted.2 := by decide +kernel
  obtain ⟨link',chains',small,few,three,scanned⟩ := evaluated
  obtain rfl : strings = 1 := Option.some.inj (link.symm.trans link')
  obtain rfl : hash = 2 := Option.some.inj (chains.symm.trans chains')
  obtain ⟨found,_,_,counted⟩ := facts small few
  exact ⟨free,(found "b").1.trans (scanned ("b",4) (by simp)),(found "a").1.trans (scanned ("a",0) (by simp)),
    counted.trans three⟩

end Arena
end OnePass.Elf
