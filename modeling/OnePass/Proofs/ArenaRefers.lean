import OnePass.Proofs.ArenaSteps

/-! # What references leave in an arena

Referring to a symbol changes the sections of the symbol table and no other. Symbols that are defined keep
their records, undefined ones stay undefined, and those that are added are undefined. Unless one of them is
undefined in the end, nothing has changed. -/
namespace OnePass.Elf

open SectionIndex Section

variable {before after : Arena} {entry : SymbolEntry}
  {name : String}

namespace Section.Rewritten

variable {before after : Section}

theorem hash (rewritten : Rewritten before after) : after.hash = before.hash := by
  obtain ⟨_,_,_,rfl⟩ := rewritten
  rfl

theorem align (rewritten : Rewritten before after) : after.align = before.align := by
  obtain ⟨_,_,_,rfl⟩ := rewritten
  rfl

theorem setWord (sec : Section) (offset value : Nat) : Rewritten sec (sec.setWord offset value) := .patch sec _ _

theorem clear (sec : Section) : Rewritten sec sec.clear := ⟨_,_,_,rfl⟩

theorem withHashed (rewritten : Rewritten before after) (hashed : Nat) : Rewritten before { after with hashed } := by
  obtain ⟨store,size,_,rfl⟩ := rewritten
  exact ⟨store,size,hashed,rfl⟩

end Section.Rewritten

namespace Arena

/-! ## Sections -/

def tables (arena : Arena) : List SectionId :=
  arena.symtab :: (arena.get arena.symtab).link.toList ++ (arena.get arena.symtab).hash.toList

section Frames

variable {table hash : SectionId}

theorem rebuildHash_framed (chains : ∀ id ∈ (arena.get table).hash, id ∈ touched) (buckets : Nat) :
    Framed touched arena (arena.rebuildHash table buckets) := by
  unfold rebuildHash
  split
  · exact .refl _ _
  · next found =>
    exact .update arena (chains _ found) (.withHashed ((Section.Rewritten.clear _).trans (.append _ _)) _)

theorem enterHash_framed (member : hash ∈ touched) (chains : ∀ id ∈ (arena.get table).hash, id ∈ touched) (i : Nat)
    (name : String) (isLocal : Bool) : Framed touched arena (arena.enterHash table hash i name isLocal) := by
  have room : Section.Rewritten (arena.get hash) (((arena.get hash).resize ((arena.get hash).size + 4)).setWord 4
      (((arena.get hash).resize ((arena.get hash).size + 4)).word 4 + 1)) :=
    (Section.Rewritten.resize _ _).trans (.setWord _ _ _)
  unfold enterHash
  extract_lets sec buckets chain sec' bucket linked counted entered
  split
  · exact .update arena member (room.trans (.setWord _ _ _))
  · have framed : Framed touched arena entered :=
      .update arena member (.withHashed ((room.trans (.setWord _ _ _)).trans (.setWord _ _ _)) _)
    split
    · refine framed.trans (rebuildHash_framed (fun id found => ?_) _)
      rw [(framed.rewritten table).hash] at found
      exact chains id found
    · exact framed

theorem putSymbol_eq (arena : Arena) (table : SectionId) (entry : SymbolEntry) (name : String) :
    ∃ nameOffset middle,
      (middle = arena ∨ ∃ strings bytes, (arena.get table).link = some strings ∧
        middle = arena.update strings (·.append bytes)) ∧
      arena.putSymbol table entry name =
        match ((middle.update table (·.append (entry.withName nameOffset).encode)).get table).hash with
        | none => (middle.symbolCount table,middle.update table (·.append (entry.withName nameOffset).encode))
        | some hash => (middle.symbolCount table,
          (middle.update table (·.append (entry.withName nameOffset).encode)).enterHash table hash
            (middle.symbolCount table) name entry.isLocal) := by
  cases link : (arena.get table).link with
  | none => exact ⟨0,arena,.inl rfl,by rewrite [putSymbol,link]; rfl⟩
  | some strings =>
    by_cases empty : name.isEmpty = true
    · exact ⟨0,arena,.inl rfl,by rewrite [putSymbol,link]; dsimp only; rewrite [if_pos empty]; rfl⟩
    · exact ⟨(arena.putString strings name).1,(arena.putString strings name).2,.inr ⟨strings,_,rfl,rfl⟩,
        by rewrite [putSymbol,link]; dsimp only; rewrite [if_neg empty]; rfl⟩

theorem putSymbol_steps (arena : Arena) (table : SectionId) (entry : SymbolEntry) (name : String) :
    ∃ nameOffset middle,
      (middle = arena ∨ ∃ strings bytes, (arena.get table).link = some strings ∧
        middle = arena.update strings (·.append bytes)) ∧
      ((arena.putSymbol table entry name).2 = middle.update table (·.append (entry.withName nameOffset).encode) ∨
        ∃ hash i, ((middle.update table (·.append (entry.withName nameOffset).encode)).get table).hash = some hash ∧
          (arena.putSymbol table entry name).2 =
            (middle.update table (·.append (entry.withName nameOffset).encode)).enterHash table hash i name
              entry.isLocal) := by
  obtain ⟨nameOffset,middle,named,put⟩ := putSymbol_eq arena table entry name
  refine ⟨nameOffset,middle,named,?_⟩
  rw [put]
  split
  · exact .inl rfl
  · next found => exact .inr ⟨_,_,found,rfl⟩

theorem putSymbol_framed (arena : Arena) (entry : SymbolEntry) (name : String) :
    Framed arena.tables arena (arena.putSymbol arena.symtab entry name).2 := by
  have chains : ∀ id ∈ (arena.get arena.symtab).hash, id ∈ arena.tables := fun id found => by
    simp [tables,Option.mem_def.mp found]
  obtain ⟨nameOffset,middle,written,put⟩ := putSymbol_steps arena arena.symtab entry name
  have named : Framed arena.tables arena middle := by
    rcases written with rfl | ⟨strings,bytes,link,rfl⟩
    · exact .refl _ _
    · exact .update arena (by simp [tables,link]) (.append _ _)
  have recorded : Framed arena.tables arena
      (middle.update arena.symtab (·.append (entry.withName nameOffset).encode)) :=
    named.trans (.update middle (by simp [tables]) (.append _ _))
  rcases put with put | ⟨hash,i,found,put⟩
  · rwa [put]
  · rw [put]
    rw [(recorded.rewritten arena.symtab).hash] at found
    refine recorded.trans (enterHash_framed (chains hash found) (fun id there => ?_) i name _)
    rw [(recorded.rewritten arena.symtab).hash] at there
    exact chains id there

theorem addSymbol_result (added : arena.addSymbol table entry name = .ok (i,after)) :
    after = (arena.putSymbol table entry name).2 ∨ after = arena ∨ ∃ sym, after = arena.setSymbol table i sym := by
  cases own : entry.isLocal with
  | true =>
    simp only [addSymbol,own] at added
    exact .inl (congrArg Prod.snd (Except.ok.inj added)).symm
  | false =>
    rcases addSymbol_cases own added with ⟨_,put⟩ | ⟨_,_,rfl | rfl | rfl⟩
    · exact .inl (congrArg Prod.snd put)
    · exact .inr (.inl rfl)
    · exact .inr (.inr ⟨_,rfl⟩)
    · exact .inr (.inr ⟨_,rfl⟩)

theorem addSymbol_framed
    (added : arena.addSymbol arena.symtab entry name = .ok (i,after)) : Framed arena.tables arena after := by
  rcases addSymbol_result added with rfl | rfl | ⟨sym,rfl⟩
  · exact putSymbol_framed arena entry name
  · exact .refl _ _
  · exact .update arena (by simp [tables]) (.patch _ _ _)

end Frames

/-! ## Tables only grow -/

section

variable {table strings hash : SectionId}

/-- An arena in which a table and its strings have not become shorter, and no section apart from these and the
hash table has changed. -/
structure Longer (table strings hash : SectionId) (before after : Arena) : Prop where
  framed : Framed [table,strings,hash] before after
  records : (before.get table).size ≤ (after.get table).size
  names : (before.get strings).size ≤ (after.get strings).size

namespace Longer

theorem refl (table strings hash : SectionId) (arena : Arena) : Longer table strings hash arena arena :=
  ⟨.refl _ _,le_refl _,le_refl _⟩

theorem trans (first : Longer table strings hash arena middle)
    (second : Longer table strings hash middle after) : Longer table strings hash arena after :=
  ⟨first.framed.trans second.framed,first.records.trans second.records,first.names.trans second.names⟩

theorem update (arena : Arena) {id : SectionId} {f : Section → Section} (member : id ∈ [table,strings,hash])
    (rewrites : (arena.get id).Rewritten (f (arena.get id))) (longer : (arena.get id).size ≤ (f (arena.get id)).size) :
    Longer table strings hash arena (arena.update id f) :=
  ⟨.update arena member rewrites,size_le_update longer table,size_le_update longer strings⟩

theorem symbolCount (longer : Longer table strings hash arena after) :
    arena.symbolCount table ≤ after.symbolCount table := Nat.div_le_div_right longer.records

theorem beside (longer : Longer table strings hash arena after) (beside : Beside arena table strings hash) :
    Beside after table strings hash := by
  have rewritten := longer.framed.rewritten table
  refine ⟨?_,by rw [rewritten.hash]; exact beside.chains,by rw [longer.framed.size]; exact beside.bound,
    beside.hash_ne,beside.hash_apart⟩
  obtain ⟨_,_,_,eq⟩ := rewritten
  rw [eq]
  exact beside.link

end Longer

section Beside

variable (beside : Beside arena table strings hash)

include beside

theorem Beside.enterHash_framed (i : Nat) (name : String) (isLocal : Bool) :
    Framed [hash] arena (arena.enterHash table hash i name isLocal) := by
  refine Arena.enterHash_framed (List.mem_singleton.mpr rfl) (fun id found => ?_) i name isLocal
  rw [beside.chains] at found
  exact List.mem_singleton.mpr (Option.some.inj found).symm

theorem Beside.putSymbol_longer (entry : SymbolEntry) (name : String) :
    Longer table strings hash arena (arena.putSymbol table entry name).2 := by
  obtain ⟨nameOffset,middle,written,put⟩ := putSymbol_steps arena table entry name
  have named : Longer table strings hash arena middle := by
    rcases written with rfl | ⟨strings',bytes,link,rfl⟩
    · exact .refl _ _ _ _
    · obtain rfl : strings' = strings := Option.some.inj (link.symm.trans beside.link)
      exact .update arena (by simp) (.append _ _) (Nat.le_add_right _ _)
  have recorded : Longer table strings hash arena (middle.update table (·.append (entry.withName nameOffset).encode)) :=
    named.trans (.update middle (by simp) (.append _ _) (Nat.le_add_right _ _))
  have beside' := recorded.beside beside
  rcases put with put | ⟨hash',i,found,put⟩
  · rwa [put]
  · obtain rfl : hash' = hash := Option.some.inj (found.symm.trans beside'.chains)
    have entered := beside'.enterHash_framed i name entry.isLocal
    rw [put]
    refine recorded.trans ⟨entered.mono (by simp),le_of_eq ?_,le_of_eq ?_⟩
    · rw [entered.others table (by simpa using Ne.symm beside.hash_ne)]
    · rw [entered.others strings (by simpa using Ne.symm beside.hash_apart)]

end Beside

theorem Tabled.putSymbol_count (tabled : Tabled arena table strings hash) (small : (arena.get strings).size < 2 ^ 32)
    (entry : SymbolEntry) (free : 0 ∉ Bytes.ofString name) :
    (arena.putSymbol table entry name).2.symbolCount table = arena.symbolCount table + 1 := by
  obtain ⟨_,extended,_⟩ := record_extended tabled.named small entry free
  obtain ⟨beside,_,_⟩ := tabled.recorded small entry free
  have entered := beside.enterHash_framed (arena.symbolCount table) name entry.isLocal
  rw [tabled.putSymbol_record small entry free,(beside.symbols entered).2.2,extended.count]

end

theorem Framed.tables (framed : Framed touched before after) : after.tables = before.tables := by
  simp only [Arena.tables,framed.symtab,(framed.rewritten before.symtab).link,(framed.rewritten before.symtab).hash]

theorem Refers.framed (refers : Refers before after) : Framed before.tables before after := by
  induction refers with
  | refl => exact .refl _ _
  | refer _ added ih => exact ih.trans (ih.tables ▸ addSymbol_framed added)

/-! ## Records -/

/-- The records of a symbol table are in a section of their own. -/
structure Plain (arena : Arena) : Prop where
  bound : arena.symtab < arena.sections.size
  records : (arena.get arena.symtab).Backed
  whole : (arena.get arena.symtab).size = arena.symbolCount arena.symtab * Symbol.recordSize
  strings : (arena.get arena.symtab).link ≠ some arena.symtab
  chains : (arena.get arena.symtab).hash ≠ some arena.symtab

theorem Tabled.plain {hash : SectionId} (tabled : Tabled arena arena.symtab strings hash) :
    Plain arena where
  bound := tabled.named.table_bound
  records := tabled.named.records
  whole := tabled.named.whole
  strings := by simpa [tabled.named.link] using tabled.named.strings_ne
  chains := by simpa [tabled.beside.chains] using tabled.beside.hash_ne

/-- What references leave of the records. -/
structure Noted (before after : Arena) : Prop where
  symtab : after.symtab = before.symtab
  count : before.symbolCount before.symtab ≤ after.symbolCount before.symtab
  defined : ∀ i < before.symbolCount before.symtab, (before.symbol before.symtab i).index ≠ undef →
    after.symbol before.symtab i = before.symbol before.symtab i
  undefined : ∀ i < before.symbolCount before.symtab, (before.symbol before.symtab i).index = undef →
    (after.symbol before.symtab i).index = undef ∧
      (after.symbol before.symtab i).nameOffset = (before.symbol before.symtab i).nameOffset
  added : ∀ i < after.symbolCount before.symtab, before.symbolCount before.symtab ≤ i →
    (after.symbol before.symtab i).index = undef

namespace Noted

theorem refl (arena : Arena) : Noted arena arena :=
  ⟨rfl,Nat.le_refl _,fun _ _ _ => rfl,fun _ _ undefined => ⟨undefined,rfl⟩,fun i below above => by omega⟩

theorem trans (first : Noted before middle) (second : Noted middle after) : Noted before after := by
  have count := second.count
  have defined := second.defined
  have undefined := second.undefined
  have added := second.added
  rw [first.symtab] at count defined undefined added
  refine ⟨second.symtab.trans first.symtab,first.count.trans count,fun i below there => ?_,fun i below absent => ?_,
    fun i below above => ?_⟩
  · have kept := first.defined i below there
    rw [← kept] at there ⊢
    exact defined i (below.trans_le first.count) there
  · obtain ⟨still,name⟩ := first.undefined i below absent
    obtain ⟨still,name'⟩ := undefined i (below.trans_le first.count) still
    exact ⟨still,name'.trans name⟩
  · by_cases early : i < middle.symbolCount before.symtab
    · exact (undefined i early (first.added i early above)).1
    · exact added i below (by omega)

end Noted

section Step

theorem putSymbol_records (plain : Plain arena) (entry : SymbolEntry) (name : String) : ∃ nameOffset,
    (arena.putSymbol arena.symtab entry name).2.get arena.symtab =
      (arena.update arena.symtab (·.append (entry.withName nameOffset).encode)).get arena.symtab := by
  obtain ⟨nameOffset,middle,written,put⟩ := putSymbol_steps arena arena.symtab entry name
  refine ⟨nameOffset,?_⟩
  have recorded : (middle.update arena.symtab (·.append (entry.withName nameOffset).encode)).get arena.symtab =
      (arena.update arena.symtab (·.append (entry.withName nameOffset).encode)).get arena.symtab := by
    rcases written with rfl | ⟨strings,bytes,link,rfl⟩
    · rfl
    · have apart : arena.symtab ≠ strings := fun eq => plain.strings (by rw [link,eq])
      rw [get_update_same (by rw [update_size]; exact plain.bound),get_update_same plain.bound,get_update_other apart]
  rcases put with put | ⟨hash,i,found,put⟩
  · rw [put,recorded]
  · have apart : arena.symtab ∉ [hash] := by
      have chains := plain.chains
      rw [recorded,get_update_same plain.bound,(Section.Rewritten.append _ _).hash] at found
      rw [found] at chains
      simpa using Ne.symm fun eq => chains (congrArg some eq)
    rw [put,← recorded]
    exact (enterHash_framed (List.mem_singleton_self hash) (by simp [found]) i name _).others _ apart

theorem Framed.plain (framed : Framed touched arena after) (plain : Plain arena)
    (records : (after.get arena.symtab).Backed)
    (whole : (after.get arena.symtab).size = after.symbolCount arena.symtab * Symbol.recordSize) : Plain after := by
  refine ⟨?_,?_,?_,?_,?_⟩
  · rw [framed.symtab,framed.size]
    exact plain.bound
  · rwa [framed.symtab]
  · rwa [framed.symtab]
  · rw [framed.symtab,(framed.rewritten _).link]
    exact plain.strings
  · rw [framed.symtab,(framed.rewritten _).hash]
    exact plain.chains

section

variable (undefined : entry.index = SectionIndex.undef)

include undefined

theorem putSymbol_noted (plain : Plain arena) (name : String) :
    Plain (arena.putSymbol arena.symtab entry name).2 ∧ Noted arena (arena.putSymbol arena.symtab entry name).2 ∧
      (arena.putSymbol arena.symtab entry name).2.symbolCount arena.symtab = arena.symbolCount arena.symtab + 1 := by
  have framed := putSymbol_framed arena entry name
  obtain ⟨nameOffset,records⟩ := putSymbol_records plain entry name
  obtain ⟨old,new,count⟩ := symbol_append plain.records plain.bound plain.whole (entry.withName nameOffset)
  have symbols := symbol_congr records
  have counted := (symbolCount_congr records).trans count
  refine ⟨framed.plain plain ?_ ?_,⟨framed.symtab,by omega,fun i below _ => ?_,fun i below absent => ?_,
    fun i below above => ?_⟩,counted⟩
  · rw [records,get_update_same plain.bound]
    exact append_backed plain.records _
  · rw [counted,records,get_update_same plain.bound,size_append,plain.whole,Symbol.length_encode,Nat.succ_mul]
  · rw [symbols,old i below]
  · rw [symbols,old i below]
    exact ⟨absent,rfl⟩
  · obtain rfl : i = arena.symbolCount arena.symtab := by omega
    rwa [symbols,new]

theorem setSymbol_noted (plain : Plain arena) (absent : (arena.symbol arena.symtab i).index = undef) :
    Plain (arena.setSymbol arena.symtab i (entry.withName (arena.symbol arena.symtab i).nameOffset)) ∧
      Noted arena (arena.setSymbol arena.symtab i (entry.withName (arena.symbol arena.symtab i).nameOffset)) := by
  generalize sym : entry.withName (arena.symbol arena.symtab i).nameOffset = new
  have framed : Framed [arena.symtab] arena (arena.setSymbol arena.symtab i new) := .update arena (by simp) (.patch _ _ _)
  have same : (arena.setSymbol arena.symtab i new).get arena.symtab =
      (arena.get arena.symtab).patch (i * Symbol.recordSize) new.encode := get_update_same plain.bound
  have count : (arena.setSymbol arena.symtab i new).symbolCount arena.symtab = _ := symbolCount_setSymbol i new
  refine ⟨framed.plain plain ?_ ?_,framed.symtab,Nat.le_of_eq count.symm,fun j below there => ?_,fun j below was => ?_,
    fun j below above => by omega⟩
  · rw [same]
    exact patch_backed plain.records _ _
  · rw [count,same,size_patch,plain.whole]
  · exact symbol_setSymbol_other fun eq => there (eq ▸ absent)
  · by_cases eq : j = i
    · subst eq
      rw [symbol_setSymbol_same plain.bound plain.records.stored below,← sym]
      exact ⟨undefined,rfl⟩
    · rw [symbol_setSymbol_other eq]
      exact ⟨was,rfl⟩

/-- What adding an undefined symbol comes to: it is new, or it meets one of its name and changes it only if that
is undefined as well. -/
theorem addSymbol_reference (added : arena.addSymbol arena.symtab entry name = .ok (i,after)) :
    after = (arena.putSymbol arena.symtab entry name).2 ∨ after = arena ∨
      arena.findSymbol arena.symtab name ≠ 0 ∧ i = arena.findSymbol arena.symtab name ∧
        (arena.symbol arena.symtab i).index = undef ∧
        after = arena.setSymbol arena.symtab i (entry.withName (arena.symbol arena.symtab i).nameOffset) := by
  cases own : entry.isLocal with
  | true =>
    simp only [addSymbol,own] at added
    exact .inl (congrArg Prod.snd (Except.ok.inj added)).symm
  | false =>
    by_cases fresh : arena.findSymbol arena.symtab name = 0
    · simp only [addSymbol,own,fresh] at added
      exact .inl (congrArg Prod.snd (Except.ok.inj added)).symm
    · by_cases absent : (arena.symbol arena.symtab (arena.findSymbol arena.symtab name)).index = undef
      · simp only [addSymbol,own,Bool.false_eq_true,if_false,beq_eq_false_iff_ne.mpr fresh,merge,
          absent] at added
        cases added
        exact .inr (.inr ⟨fresh,rfl,absent,rfl⟩)
      · simp only [addSymbol,own,Bool.false_eq_true,if_false,beq_eq_false_iff_ne.mpr fresh,merge,
          beq_eq_false_iff_ne.mpr absent,undefined] at added
        cases added
        exact .inr (.inl rfl)

theorem addSymbol_noted (plain : Plain arena) (added : arena.addSymbol arena.symtab entry name = .ok (i,after)) :
    Plain after ∧ Noted arena after := by
  rcases addSymbol_reference undefined added with rfl | rfl | ⟨_,_,absent,rfl⟩
  · obtain ⟨plain,noted,_⟩ := putSymbol_noted undefined plain name
    exact ⟨plain,noted⟩
  · exact ⟨plain,.refl _⟩
  · exact setSymbol_noted undefined plain absent

end

end Step

theorem Refers.noted (refers : Refers before after) (plain : Plain before) : Plain after ∧ Noted before after := by
  induction refers with
  | refl => exact ⟨plain,.refl _⟩
  | refer _ added ih =>
    obtain ⟨plain,noted⟩ := ih
    obtain ⟨plain',noted'⟩ := addSymbol_noted rfl plain added
    exact ⟨plain',noted.trans noted'⟩

/-- References that change anything leave an undefined symbol. -/
theorem Refers.unchanged_or {hash : SectionId} (refers : Refers before after)
    (tabled : Tabled before before.symtab strings hash) :
    after = before ∨ ∃ i, 0 < i ∧ i < after.symbolCount before.symtab ∧
      (after.symbol before.symtab i).index = undef := by
  induction refers with
  | refl => exact .inl rfl
  | @refer middle after info name _ earlier added ih =>
    have undefined : ({ info, index := undef } : SymbolEntry).index = undef := rfl
    rcases ih with rfl | ⟨i,positive,below,absent⟩
    · have plain := tabled.plain
      rcases addSymbol_reference undefined added with rfl | rfl | ⟨found,index,absent,rfl⟩
      · obtain ⟨_,noted,count⟩ := putSymbol_noted undefined plain name
        refine .inr ⟨middle.symbolCount middle.symtab,tabled.positive,by omega,?_⟩
        exact noted.added _ (by omega) (Nat.le_refl _)
      · exact .inl rfl
      · obtain ⟨below,_,_⟩ := tabled.findSymbol_some found
        rw [← index] at found below
        obtain ⟨_,noted⟩ := setSymbol_noted undefined plain absent
        exact .inr ⟨_,Nat.pos_of_ne_zero found,below.trans_le noted.count,(noted.undefined _ below absent).1⟩
    · obtain ⟨plain,noted⟩ := earlier.noted tabled.plain
      obtain ⟨_,later⟩ := addSymbol_noted rfl plain added
      have count := later.count
      have still := later.undefined i
      rw [noted.symtab] at count still
      exact .inr ⟨i,positive,below.trans_le count,(still below absent).1⟩

end Arena
end OnePass.Elf
