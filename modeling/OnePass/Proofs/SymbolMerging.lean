import Mathlib.Algebra.BigOperators.Group.Finset.Basic
import Mathlib.Algebra.Order.BigOperators.Group.Finset
import Mathlib.Data.List.MinMax
import OnePass.Proofs.ArenaGrow
import OnePass.Proofs.LinkUnresolved

/-! # What a name comes to stand for

Symbols of one name that are not local share an entry of the symbol table, and ranks decide what the entry
says. References have no rank among themselves: the last one prevails while there is no definition. -/
namespace OnePass

open List

variable {name : String} {sym : Elf.Symbol}

namespace Elf

open Arena
open SectionIndex

structure Mention where
  name : String
  entry : SymbolEntry
  deriving DecidableEq, Repr

def Mention.entriesOf (name : String) (mentions : List Mention) : List SymbolEntry :=
  (mentions.filter fun m => m.name = name).map Mention.entry

theorem Mention.entriesOf_append (name : String) (mentions : List Mention) (m : Mention) :
    entriesOf name (mentions ++ [m]) =
      if m.name = name then entriesOf name mentions ++ [m.entry] else entriesOf name mentions := by
  by_cases same : m.name = name <;> simp [entriesOf,same]

theorem Mention.mem_entriesOf {entry : SymbolEntry} :
    entry ∈ entriesOf name mentions ↔ ∃ m ∈ mentions, m.name = name ∧ m.entry = entry := by
  simp [entriesOf,and_assoc]

/-- A record says what an entry says, its size apart. -/
structure Symbol.Holds (sym : Symbol) (entry : SymbolEntry) : Prop where
  info : sym.info = entry.info
  other : sym.other = entry.other
  index : sym.index = entry.index
  value : sym.value = entry.value

namespace Arena

open Mention

/-! ## Ranks -/

/-- How firmly a record fixes its symbol: a reference not at all, then come weak, tentative and all other
definitions. -/
def rank (arena : Arena) (info : UInt8) (index : UInt16) : Nat :=
  if index = undef then 0
  else if Symbol.bindingOf info = Binding.weak then 1
  else if arena.isTentative index then 2 else 3

def rankOf (arena : Arena) (entry : SymbolEntry) : Nat := arena.rank entry.info entry.index

theorem rank_le (arena : Arena) (info : UInt8) (index : UInt16) : arena.rank info index ≤ 3 := by
  rw [rank]
  split_ifs <;> omega

theorem rank_eq_zero {arena : Arena} :
    arena.rank info index = 0 ↔ index = undef := by
  rw [rank]
  split_ifs <;> simp_all

variable {start arena after : Arena} {table strings hash : SectionId}

/-- Merging goes by rank alone. -/
theorem merge_cases (static : table ≠ arena.dynsymtab) (old : Symbol) (new : SymbolEntry) :
    (arena.merge table old new = .clash ∧ arena.rank old.info old.index = 3 ∧ arena.rankOf new = 3) ∨
    (arena.merge table old new = .replace ∧
      (arena.rank old.info old.index = 0 ∨ arena.rank old.info old.index < arena.rankOf new)) ∨
    ((arena.merge table old new = .keep ∨ arena.merge table old new = .widen) ∧
      0 < arena.rank old.info old.index ∧ arena.rankOf new ≤ arena.rank old.info old.index ∧
      ¬(arena.rank old.info old.index = 3 ∧ arena.rankOf new = 3)) := by
  simp only [merge,rankOf,rank,beq_iff_eq,SymbolEntry.binding,Symbol.binding]
  split_ifs <;> simp_all

theorem Framed.isTentative (framed : Framed touched start arena) (index : UInt16) :
    arena.isTentative index = start.isTentative index := by
  rw [Arena.isTentative,Arena.isTentative,framed.bss,(framed.rewritten start.bss).number]

theorem Framed.rank (framed : Framed touched start arena) (info : UInt8)
    (index : UInt16) : arena.rank info index = start.rank info index := by
  rw [Arena.rank,Arena.rank,framed.isTentative]

/-- The entry that decides what a name stands for. -/
def prevailing (arena : Arena) (entries : List SymbolEntry) : Option SymbolEntry :=
  match entries.argmax arena.rankOf with
  | none => none
  | some best => if arena.rankOf best = 0 then entries.getLast? else some best

theorem prevailing_mem (found : arena.prevailing entries = some e) : e ∈ entries := by
  rw [prevailing] at found
  split at found
  · cases found
  next best argmax =>
    split at found
    · exact mem_of_getLast? found
    · cases found
      exact argmax_mem argmax

theorem rank_le_prevailing (found : arena.prevailing entries = some e) (member : other ∈ entries) :
    arena.rankOf other ≤ arena.rankOf e := by
  rw [prevailing] at found
  split at found
  · cases found
  next best argmax =>
    have below := le_of_mem_argmax member argmax
    split at found
    next zero => omega
    next =>
      cases found
      exact below

theorem prevailing_append (found : arena.prevailing entries = some e)
    (new : SymbolEntry) : arena.prevailing (entries ++ [new]) =
      some (if arena.rankOf e = 0 ∨ arena.rankOf e < arena.rankOf new then new else e) := by
  have member := prevailing_mem found
  rw [prevailing] at found
  split at found
  · cases found
  next best argmax =>
    have below := le_of_mem_argmax member argmax
    have joined : (entries ++ [new]).argmax arena.rankOf =
        if arena.rankOf best < arena.rankOf new then some new else some best := by
      rw [argmax_concat,argmax]
    rw [prevailing,joined]
    split at found
    next zero =>
      rw [if_pos (Or.inl (by omega))]
      split_ifs with higher
      · simp only
        rw [if_neg (by omega)]
      · simp [zero]
    next positive =>
      cases found
      split_ifs with higher won won
      · simp only
        rw [if_neg (by omega)]
      · exact absurd (Or.inr higher) won
      · exact absurd won (by omega)
      · simp [positive]

theorem prevailing_singleton (entry : SymbolEntry) : arena.prevailing [entry] = some entry := by
  simp [prevailing]

theorem prevailing_undefined (undefined : ∀ e ∈ entries, e.index = undef) :
    arena.prevailing entries = entries.getLast? := by
  rw [prevailing]
  split
  next none => rw [argmax_eq_none.mp none,getLast?_nil]
  next best argmax =>
    have zero : arena.rankOf best = 0 := rank_eq_zero.mpr (undefined best (argmax_mem argmax))
    rw [if_pos zero]

/-! ## Telling a table about names -/

/-- The table once it is told about a name; a clash leaves it as it was. -/
def mention (arena : Arena) (table : SectionId) (m : Mention) : Arena :=
  match arena.addSymbol table m.entry m.name with
  | .ok (_,after) => after
  | .error _ => arena

def mentionAll (arena : Arena) (table : SectionId) (mentions : List Mention) : Arena :=
  mentions.foldl (fun arena m => arena.mention table m) arena

theorem mentionAll_append (mentions : List Mention) (m : Mention) :
    arena.mentionAll table (mentions ++ [m]) = (arena.mentionAll table mentions).mention table m := by
  simp [mentionAll]

def placeOf : Except DefinedTwice (Nat × Arena) → Nat
  | .ok (i,_) => i
  | .error clash => clash.index

def stringRoom (mentions : List Mention) : Nat :=
  1 + ∑ name ∈ (mentions.map Mention.name).toFinset, nameRoom name

theorem stringRoom_append_le (mentions : List Mention) (m : Mention) :
    stringRoom mentions ≤ stringRoom (mentions ++ [m]) := by
  refine Nat.add_le_add_left (Finset.sum_le_sum_of_subset ?_) 1
  simp only [map_append,toFinset_append]
  exact Finset.subset_union_left

/-- A table that began with the null symbol alone after it was told about names. -/
structure Merged (start : Arena) (table strings hash : SectionId) (mentions : List Mention) (arena : Arena) : Prop where
  tabled : Tabled arena table strings hash
  framed : Framed [table,strings,hash] start arena
  static : table ≠ arena.dynsymtab
  shared : ∀ i, 0 < i → i < arena.symbolCount table → (arena.symbol table i).isLocal = false
  single : ∀ i j, 0 < i → i < arena.symbolCount table → 0 < j → j < arena.symbolCount table →
    arena.symbolName table i = arena.symbolName table j → i = j
  present : ∀ m ∈ mentions, arena.findSymbol table m.name ≠ 0
  prevails : ∀ i, 0 < i → i < arena.symbolCount table →
    ∃ e, start.prevailing (entriesOf (arena.symbolName table i) mentions) = some e ∧
      (arena.symbol table i).Holds e

namespace Merged

variable {m : Mention}

def entered (arena : Arena) (table : SectionId) : List String :=
  (range' 1 (arena.symbolCount table - 1)).map (arena.symbolName table)

theorem two_le_nameRoom (named : name ≠ "") : 2 ≤ nameRoom name := by
  have filled : ¬name.isEmpty = true := fun empty => named (String.isEmpty_iff.mp empty)
  have bytes : Bytes.ofString name ≠ [] := fun none => filled (isEmpty_iff_ofString.mpr none)
  have := length_pos_iff.mpr bytes
  rw [nameRoom,if_neg filled]
  omega

variable (merged : Merged start table strings hash mentions arena)

include merged

theorem found (positive : 0 < i)
    (below : i < arena.symbolCount table) : arena.findSymbol table (arena.symbolName table i) = i := by
  have present : arena.findSymbol table (arena.symbolName table i) ≠ 0 := fun none =>
    merged.tabled.findSymbol_none none below (merged.shared i positive below) rfl
  obtain ⟨below',_,name⟩ := merged.tabled.findSymbol_some present
  exact merged.single _ _ (pos_of_ne_zero present) below' positive below name

theorem mentioned (positive : 0 < i)
    (below : i < arena.symbolCount table) : arena.symbolName table i ∈ mentions.map Mention.name := by
  obtain ⟨e,prevails,_⟩ := merged.prevails i positive below
  obtain ⟨m,member,name,_⟩ := Mention.mem_entriesOf.mp (prevailing_mem prevails)
  exact mem_map.mpr ⟨m,member,name⟩

theorem findSymbol_eq_zero (absent : arena.findSymbol table name = 0) : entriesOf name mentions = [] := by
  refine eq_nil_iff_forall_not_mem.mpr fun e member => ?_
  obtain ⟨m,told,rfl,_⟩ := mem_entriesOf.mp member
  exact merged.present m told absent

/-! ### Room -/

theorem entered_nodup : (entered arena table).Nodup := by
  refine List.Nodup.map_on (fun i inside j inside' same => ?_) nodup_range'
  rw [mem_range'_1] at inside inside'
  exact merged.single i j (by omega) (by omega) (by omega) (by omega) same

theorem entered_subset : (entered arena table).toFinset ⊆ (mentions.map Mention.name).toFinset := by
  intro name member
  obtain ⟨i,inside,rfl⟩ := mem_map.mp (mem_toFinset.mp member)
  rw [mem_range'_1] at inside
  exact mem_toFinset.mpr (merged.mentioned (by omega) (by omega))

theorem strings_size : (arena.get strings).size = 1 + ∑ name ∈ (entered arena table).toFinset, nameRoom name := by
  have null : nameRoom (arena.symbolName table 0) = 0 := by
    rw [merged.tabled.null_name]
    rfl
  obtain ⟨count,eq⟩ := Nat.exists_eq_add_of_lt merged.tabled.positive
  rw [merged.tabled.named.room,sum_toFinset _ merged.entered_nodup,entered,eq]
  simp [range_eq_range',range'_succ,null,Function.comp_def]

theorem strings_le : (arena.get strings).size ≤ stringRoom mentions := by
  rw [merged.strings_size]
  exact Nat.add_le_add_left (Finset.sum_le_sum_of_subset merged.entered_subset) 1

theorem count_le : 2 * arena.symbolCount table ≤ (arena.get strings).size + 3 := by
  have card : (entered arena table).toFinset.card = arena.symbolCount table - 1 := by
    rw [toFinset_card_of_nodup merged.entered_nodup]
    simp [entered]
  have named : 2 * ((entered arena table).toFinset.erase "").card ≤
      ∑ name ∈ (entered arena table).toFinset.erase "", nameRoom name := by
    rw [Nat.mul_comm,← Nat.nsmul_eq_mul]
    exact Finset.card_nsmul_le_sum _ _ _ fun name member => two_le_nameRoom (Finset.ne_of_mem_erase member)
  have part := Finset.sum_le_sum_of_subset (f := nameRoom) (Finset.erase_subset "" (entered arena table).toFinset)
  have fewer := Finset.pred_card_le_card_erase (s := (entered arena table).toFinset) (a := "")
  rw [merged.strings_size]
  omega

/-! ### One more name -/

theorem rank_found (holds : sym.Holds e) : arena.rank sym.info sym.index = start.rankOf e := by
  rw [merged.framed.rank,holds.info,holds.index,rankOf]

theorem extend (own : m.entry.isLocal = false)
    (absent : arena.findSymbol table m.name = 0) (tabled : Tabled after table strings hash)
    (extended : Extended table m.entry m.name arena after) (framed : Framed [table,strings,hash] arena after) :
    Merged start table strings hash (mentions ++ [m]) after := by
  have others i positive below : arena.symbolName table i ≠ m.name :=
    merged.tabled.findSymbol_none absent below (merged.shared i positive below)
  obtain ⟨nameOffset,newSymbol⟩ := extended.newSymbol
  have count := extended.count
  have shared i (positive : 0 < i) (below : i < after.symbolCount table) :
      (after.symbol table i).isLocal = false := by
    rcases Nat.lt_succ_iff_lt_or_eq.mp (count ▸ below) with older | rfl
    · rw [extended.symbol i older,merged.shared i positive older]
    · rwa [newSymbol]
  refine ⟨tabled,merged.framed.trans framed,by rw [framed.shell]; exact merged.static,shared,?_,?_,?_⟩
  · intro i j positive below positive' below' same
    rcases Nat.lt_succ_iff_lt_or_eq.mp (count ▸ below) with older | rfl <;>
      rcases Nat.lt_succ_iff_lt_or_eq.mp (count ▸ below') with older' | rfl
    · rw [extended.symbolName i older,extended.symbolName j older'] at same
      exact merged.single i j positive older positive' older' same
    · rw [extended.symbolName i older,extended.newName] at same
      exact absurd same (others i positive older)
    · rw [extended.symbolName j older',extended.newName] at same
      exact absurd same.symm (others j positive' older')
    · rfl
  · intro m' member none
    rcases mem_append.mp member with older | newest
    · have present := merged.present m' older
      obtain ⟨below,_,name⟩ := merged.tabled.findSymbol_some present
      refine tabled.findSymbol_none none (count ▸ Nat.lt_succ_of_lt below)
        (shared _ (Nat.pos_of_ne_zero present) (count ▸ Nat.lt_succ_of_lt below)) ?_
      rw [extended.symbolName _ below,name]
    · obtain rfl := mem_singleton.mp newest
      have below : arena.symbolCount table < after.symbolCount table := by omega
      exact tabled.findSymbol_none none below (shared _ merged.tabled.positive below) extended.newName
  · intro i positive below
    rcases Nat.lt_succ_iff_lt_or_eq.mp (count ▸ below) with older | rfl
    · rw [extended.symbolName i older,extended.symbol i older,entriesOf_append,
        if_neg (others i positive older).symm]
      exact merged.prevails i positive older
    · rw [extended.newName,newSymbol,entriesOf_append,if_pos rfl,merged.findSymbol_eq_zero absent]
      exact ⟨m.entry,prevailing_singleton m.entry,rfl,rfl,rfl,rfl⟩

theorem settle (positive : 0 < i) (below : i < arena.symbolCount table) (name : arena.symbolName table i = m.name)
    (tabled : Tabled after table strings hash) (framed : Framed [table,strings,hash] arena after)
    (names : ∀ j, after.symbolName table j = arena.symbolName table j)
    (count : after.symbolCount table = arena.symbolCount table)
    (others : ∀ j, j ≠ i → after.symbol table j = arena.symbol table j) (own : (after.symbol table i).isLocal = false)
    (prevails : start.prevailing (entriesOf m.name (mentions ++ [m])) = some e)
    (holds : (after.symbol table i).Holds e) : Merged start table strings hash (mentions ++ [m]) after := by
  have shared j (positive' : 0 < j) (below' : j < after.symbolCount table) :
      (after.symbol table j).isLocal = false := by
    by_cases here : j = i
    · rw [here,own]
    · rw [others j here,merged.shared j positive' (count ▸ below')]
  have found (m' : Mention) (present : arena.findSymbol table m'.name ≠ 0) : after.findSymbol table m'.name ≠ 0 := by
    obtain ⟨inside,_,name'⟩ := merged.tabled.findSymbol_some present
    refine fun none => tabled.findSymbol_none none (count ▸ inside) ?_ ((names _).trans name')
    exact shared _ (pos_of_ne_zero present) (count ▸ inside)
  refine ⟨tabled,merged.framed.trans framed,by rw [framed.shell]; exact merged.static,shared,?_,?_,?_⟩
  · intro j k
    rw [count,names,names]
    exact merged.single j k
  · intro m' member
    rcases mem_append.mp member with older | newest
    · exact found m' (merged.present m' older)
    · obtain rfl := mem_singleton.mp newest
      refine found m' ?_
      rw [← name,merged.found positive below]
      exact ne_of_gt positive
  · intro j positive' below'
    rw [count] at below'
    rw [names]
    by_cases here : j = i
    · rw [here,name]
      exact ⟨e,prevails,holds⟩
    · have different : m.name ≠ arena.symbolName table j := fun same =>
        here (merged.single j i positive' below' positive below (same.symm.trans name.symm))
      rw [others j here,entriesOf_append,if_neg different]
      exact merged.prevails j positive' below'

theorem rewrite (positive : 0 < i) (below : i < arena.symbolCount table) (name : arena.symbolName table i = m.name)
    (nameOffset : sym.nameOffset = (arena.symbol table i).nameOffset) (own : sym.isLocal = false)
    (prevails : start.prevailing (entriesOf m.name (mentions ++ [m])) = some e) (holds : sym.Holds e) :
    Merged start table strings hash (mentions ++ [m]) (arena.setSymbol table i sym) := by
  obtain ⟨tabled,names,count,framed⟩ :=
    merged.tabled.setSymbol positive below nameOffset (by rw [own,merged.shared i positive below])
  have symbols := merged.tabled.symbol_setSymbol below sym
  refine merged.settle positive below name tabled (framed.mono (by simp)) names count
    (fun j other => by rw [symbols,if_neg other]) ?_ prevails ?_
  · rw [symbols,if_pos rfl,own]
  · rwa [symbols,if_pos rfl]

/-- What one more entry for a name comes to: the name is new; or the entry clashes with the one that prevails, or
takes its place, or leaves it. -/
theorem addSymbol_cases (own : m.entry.isLocal = false) : (arena.findSymbol table m.name = 0 ∧
      arena.addSymbol table m.entry m.name = .ok (arena.putSymbol table m.entry m.name)) ∨
    ∃ i e, arena.findSymbol table m.name = i ∧ 0 < i ∧ i < arena.symbolCount table ∧
      arena.symbolName table i = m.name ∧ start.prevailing (entriesOf m.name mentions) = some e ∧
      (arena.symbol table i).Holds e ∧
      ((arena.addSymbol table m.entry m.name = .error ⟨i,m.name⟩ ∧ start.rankOf e = 3 ∧ start.rankOf m.entry = 3) ∨
        (arena.addSymbol table m.entry m.name =
            .ok (i,arena.setSymbol table i (m.entry.withName (arena.symbol table i).nameOffset)) ∧
          (start.rankOf e = 0 ∨ start.rankOf e < start.rankOf m.entry)) ∨
        ((arena.addSymbol table m.entry m.name = .ok (i,arena) ∨
            arena.addSymbol table m.entry m.name =
              .ok (i,arena.setSymbol table i { arena.symbol table i with size := m.entry.size })) ∧
          0 < start.rankOf e ∧ start.rankOf m.entry ≤ start.rankOf e ∧
          ¬(start.rankOf e = 3 ∧ start.rankOf m.entry = 3))) := by
  by_cases absent : arena.findSymbol table m.name = 0
  · exact Or.inl ⟨absent,by simp [addSymbol,absent]⟩
  obtain ⟨below,_,name⟩ := merged.tabled.findSymbol_some absent
  have positive := pos_of_ne_zero absent
  obtain ⟨e,prevails,holds⟩ := merged.prevails _ positive below
  rw [name] at prevails
  refine Or.inr ⟨_,e,rfl,positive,below,name,prevails,holds,?_⟩
  have old := merged.rank_found holds
  have new : arena.rankOf m.entry = start.rankOf m.entry := merged.framed.rank _ _
  have merging := merge_cases merged.static (arena.symbol table (arena.findSymbol table m.name)) m.entry
  rw [old,new] at merging
  rcases merging with ⟨clash,ranks⟩ | ⟨replace,ranks⟩ | ⟨keep | widen,ranks⟩
  · exact Or.inl ⟨by simp [addSymbol,own,absent,clash],ranks⟩
  · exact Or.inr (Or.inl ⟨by simp [addSymbol,own,absent,replace],ranks⟩)
  · exact Or.inr (Or.inr ⟨Or.inl (by simp [addSymbol,own,absent,keep]),ranks⟩)
  · exact Or.inr (Or.inr ⟨Or.inr (by simp [addSymbol,own,absent,widen]),ranks⟩)

theorem mention (own : m.entry.isLocal = false)
    (plain : 0 ∉ Bytes.ofString m.name) (fits : stringRoom mentions < 2 ^ 32) :
    Merged start table strings hash (mentions ++ [m]) (arena.mention table m) ∧
      ∀ i < arena.symbolCount table, i < (arena.mention table m).symbolCount table ∧
        (arena.mention table m).symbolName table i = arena.symbolName table i := by
  rcases merged.addSymbol_cases own with ⟨absent,added⟩ | ⟨i,e,-,positive,below,name,prevails,holds,outcome⟩
  · have small := merged.strings_le
    have few := merged.count_le
    obtain ⟨place,tabled,extended,framed⟩ := merged.tabled.putSymbol (by omega) (by omega) m.entry plain
    rw [Arena.mention,added]
    refine ⟨merged.extend own absent tabled extended framed,fun i below => ⟨?_,extended.symbolName i below⟩⟩
    rw [extended.count]
    exact Nat.lt_succ_of_lt below
  · have now := prevailing_append prevails m.entry
    have entries : entriesOf m.name (mentions ++ [m]) = entriesOf m.name mentions ++ [m.entry] := by
      rw [entriesOf_append,if_pos rfl]
    rw [← entries] at now
    have shared := merged.shared i positive below
    have stay (kept : 0 < start.rankOf e ∧ start.rankOf m.entry ≤ start.rankOf e) :
        start.prevailing (entriesOf m.name (mentions ++ [m])) = some e := by
      rw [now,if_neg (by omega)]
    have unchanged kept :
        Merged start table strings hash (mentions ++ [m]) arena :=
      merged.settle positive below name merged.tabled (.refl _ _) (fun _ => rfl) rfl (fun _ _ => rfl) shared
        (stay kept) holds
    have set sym (nameOffset : sym.nameOffset = (arena.symbol table i).nameOffset)
        (same : sym.isLocal = false) j (inside : j < arena.symbolCount table) :
        j < (arena.setSymbol table i sym).symbolCount table ∧
          (arena.setSymbol table i sym).symbolName table j = arena.symbolName table j := by
      obtain ⟨_,names,count,_⟩ := merged.tabled.setSymbol positive below nameOffset (by rw [same,shared])
      exact ⟨count ▸ inside,names j⟩
    rcases outcome with ⟨clash,ranks⟩ | ⟨replaced,ranks⟩ | ⟨kept | widened,low,high,-⟩
    · rw [Arena.mention,clash]
      exact ⟨unchanged (by omega),fun j inside => ⟨inside,rfl⟩⟩
    · rw [Arena.mention,replaced]
      rw [if_pos ranks] at now
      exact ⟨merged.rewrite positive below name rfl own now ⟨rfl,rfl,rfl,rfl⟩,set _ rfl own⟩
    · rw [Arena.mention,kept]
      exact ⟨unchanged ⟨low,high⟩,fun j inside => ⟨inside,rfl⟩⟩
    · rw [Arena.mention,widened]
      exact ⟨merged.rewrite positive below name rfl shared (stay ⟨low,high⟩) ⟨holds.info,holds.other,holds.index,holds.value⟩,
        set _ rfl shared⟩

theorem findSymbol_kept (merged' : Merged start table strings hash later after)
    (names : ∀ i < arena.symbolCount table, i < after.symbolCount table ∧
      after.symbolName table i = arena.symbolName table i)
    (present : arena.findSymbol table name ≠ 0) : after.findSymbol table name = arena.findSymbol table name := by
  obtain ⟨below,_,name'⟩ := merged.tabled.findSymbol_some present
  obtain ⟨below',same⟩ := names _ below
  rw [name'] at same
  have found := merged'.found (pos_of_ne_zero present) below'
  rwa [same] at found

theorem placeOf_addSymbol (own : m.entry.isLocal = false)
    (plain : 0 ∉ Bytes.ofString m.name) (fits : stringRoom mentions < 2 ^ 32) :
    placeOf (arena.addSymbol table m.entry m.name) = (arena.mention table m).findSymbol table m.name := by
  obtain ⟨merged',names⟩ := merged.mention own plain fits
  rcases merged.addSymbol_cases own with ⟨absent,added⟩ | ⟨i,_,place,positive,_,_,_,_,outcome⟩
  · have small := merged.strings_le
    have few := merged.count_le
    obtain ⟨place,_,extended,_⟩ := merged.tabled.putSymbol (by omega) (by omega) m.entry plain
    rw [Arena.mention,added] at merged' ⊢
    have found := merged'.found merged.tabled.positive (by rw [extended.count]; exact Nat.lt_succ_self _)
    rw [extended.newName] at found
    rwa [found]
  · rw [merged.findSymbol_kept merged' names (by omega),place]
    rcases outcome with ⟨added,-⟩ | ⟨added,-⟩ | ⟨added | added,-⟩ <;> rw [added,placeOf]

theorem clashes_iff (own : m.entry.isLocal = false) : (∃ clash, arena.addSymbol table m.entry m.name = .error clash) ↔
      start.rankOf m.entry = 3 ∧ ∃ old ∈ mentions, old.name = m.name ∧ start.rankOf old.entry = 3 := by
  have firm {e : SymbolEntry} (prevails : start.prevailing (entriesOf m.name mentions) = some e) :
      start.rankOf e = 3 ↔ ∃ old ∈ mentions, old.name = m.name ∧ start.rankOf old.entry = 3 := by
    constructor
    · intro three
      obtain ⟨old,member,name,rfl⟩ := mem_entriesOf.mp (prevailing_mem prevails)
      exact ⟨old,member,name,three⟩
    · rintro ⟨old,member,name,three⟩
      have high := rank_le_prevailing prevails (mem_entriesOf.mpr ⟨old,member,name,rfl⟩)
      have := start.rank_le e.info e.index
      simp only [rankOf] at three high ⊢
      omega
  rcases merged.addSymbol_cases own with ⟨absent,added⟩ | ⟨i,e,_,_,_,_,prevails,_,outcome⟩
  · rw [added]
    simp only [reduceCtorEq,exists_false,false_iff]
    rintro ⟨_,old,member,name,_⟩
    exact merged.present old member (name ▸ absent)
  · rw [← firm prevails]
    rcases outcome with ⟨clash,three,three'⟩ | ⟨added,ranks⟩ | ⟨added | added,_,_,apart⟩
    · exact ⟨fun _ => ⟨three',three⟩,fun _ => ⟨_,clash⟩⟩
    all_goals
      rw [added]
      simp only [reduceCtorEq,exists_false,false_iff]
      omega

end Merged

/-! ## All names -/

/-- Names for a symbol table: none is local or holds a zero byte, and their strings have offsets of 32 bits. -/
structure Proper (mentions : List Mention) : Prop where
  shared : ∀ m ∈ mentions, m.entry.isLocal = false
  plain : ∀ m ∈ mentions, 0 ∉ Bytes.ofString m.name
  fits : stringRoom mentions < 2 ^ 32

section Runs

theorem Proper.init (proper : Proper (mentions ++ [m])) : Proper mentions :=
  ⟨fun m member => proper.shared m (by simp [member]),fun m member => proper.plain m (by simp [member]),
    lt_of_le_of_lt (stringRoom_append_le mentions m) proper.fits⟩

theorem Proper.of_append (proper : Proper (before ++ rest)) : Proper before := by
  induction rest using reverseRecOn with
  | nil => rwa [append_nil] at proper
  | append_singleton rest m ih => exact ih (by rw [← append_assoc] at proper; exact proper.init)

theorem Merged.mentionAll (fresh : Merged start table strings hash [] start) (proper : Proper mentions) :
    Merged start table strings hash mentions (start.mentionAll table mentions) := by
  induction mentions using reverseRecOn with
  | nil => exact fresh
  | append_singleton mentions m ih =>
    rw [mentionAll_append]
    exact ((ih proper.init).mention (proper.shared m (by simp)) (proper.plain m (by simp)) proper.init.fits).1

theorem findSymbol_mentionAll (fresh : Merged start table strings hash [] start) (proper : Proper (before ++ rest))
    (present : (start.mentionAll table before).findSymbol table name ≠ 0) :
    (start.mentionAll table (before ++ rest)).findSymbol table name =
      (start.mentionAll table before).findSymbol table name := by
  induction rest using reverseRecOn with
  | nil => rw [append_nil]
  | append_singleton rest m ih =>
    rw [← append_assoc] at proper ⊢
    have now := ih proper.init
    obtain ⟨later,names⟩ := (fresh.mentionAll proper.init).mention (proper.shared m (by simp))
      (proper.plain m (by simp)) proper.init.fits
    rw [mentionAll_append,(fresh.mentionAll proper.init).findSymbol_kept later names (now ▸ present),now]

end Runs

theorem merged_initial : Merged initial initial.symtab 5 6 [] initial := by
  have one : initial.symbolCount initial.symtab = 1 := by decide +kernel
  refine ⟨tabled_initial,.refl _ _,by decide +kernel,?_,?_,by simp,?_⟩
  all_goals
    omega

/-- A new table told about names one by one goes by their ranks. A name clashes when it is defined firmly for the
second time, and then nothing changes; it keeps its place, it has no second entry, and the entry says what the first
definition of the highest rank said. -/
theorem names_go_by_rank (mentions : List Mention) (proper : Proper mentions) :
    (∀ before m rest, mentions = before ++ m :: rest →
      let now := initial.mentionAll initial.symtab before
      let result := now.addSymbol initial.symtab m.entry m.name
      ((∃ clash, result = .error clash) ↔ initial.rankOf m.entry = 3 ∧
        ∃ old ∈ before, old.name = m.name ∧ initial.rankOf old.entry = 3) ∧
      (∀ clash, result = .error clash → initial.mentionAll initial.symtab (before ++ [m]) = now) ∧
      placeOf result = (initial.mentionAll initial.symtab mentions).findSymbol initial.symtab m.name) ∧
    let final := initial.mentionAll initial.symtab mentions
    (∀ i j, i < final.symbolCount initial.symtab → j < final.symbolCount initial.symtab →
      (final.symbol initial.symtab i).isLocal = false → (final.symbol initial.symtab j).isLocal = false →
      final.symbolName initial.symtab i = final.symbolName initial.symtab j → i = j) ∧
    ∀ name best, (entriesOf name mentions).argmax initial.rankOf = some best →
      0 < initial.rankOf best →
      let i := final.findSymbol initial.symtab name
      let sym := final.symbol initial.symtab i
      0 < i ∧ i < final.symbolCount initial.symtab ∧ final.symbolName initial.symtab i = name ∧
      sym.binding = best.binding ∧ sym.type = best.info &&& 0xf ∧ sym.index = best.index ∧ sym.value = best.value := by
  have run {told : List Mention} (proper : Proper told) := merged_initial.mentionAll proper
  have merged := run proper
  refine ⟨?_,?_,?_⟩
  · rintro before m rest rfl
    rw [show before ++ m :: rest = before ++ [m] ++ rest by simp] at proper ⊢
    have told := proper.of_append
    have own := told.shared m (by simp)
    have plain := told.plain m (by simp)
    have place := (run told.init).placeOf_addSymbol own plain told.init.fits
    refine ⟨(run told.init).clashes_iff own,fun clash failed => ?_,?_⟩
    · rw [mentionAll_append,mention,failed]
    · rw [← mentionAll_append] at place
      rw [place,findSymbol_mentionAll merged_initial proper]
      exact (run told).present m (by simp)
  · intro i j below below' shared shared' same
    exact merged.single i j (merged.tabled.shared_pos shared) below (merged.tabled.shared_pos shared') below' same
  · intro name best argmax positive
    obtain ⟨m,member,rfl,_⟩ := mem_entriesOf.mp (List.argmax_mem argmax)
    have present := merged.present m member
    obtain ⟨below,_,named⟩ := merged.tabled.findSymbol_some present
    obtain ⟨e,prevails,holds⟩ := merged.prevails _ (Nat.pos_of_ne_zero present) below
    have first : initial.prevailing (entriesOf m.name mentions) = some best := by
      rw [prevailing,argmax]
      exact if_neg (Nat.ne_of_gt positive)
    rw [named,first,Option.some.injEq] at prevails
    subst prevails
    refine ⟨Nat.pos_of_ne_zero present,below,named,?_,?_,holds.index,holds.value⟩
    · rw [Symbol.binding,SymbolEntry.binding]
      exact congrArg Symbol.bindingOf holds.info
    · rw [Symbol.type]
      exact congrArg (· &&& 0xf) holds.info

def retold : List Mention :=
  [⟨"x",{ info := 0x11, index := common, value := 4, size := 4 }⟩,
    ⟨"x",{ info := 0x21, index := 2, value := 16, size := 4 }⟩,⟨"x",{ info := 0x11, index := 2, value := 8, size := 4 }⟩,
    ⟨"x",{ info := 0x11, index := 1, value := 24, size := 4 }⟩,⟨"x",{ info := 0x10, index := undef }⟩]

theorem names_go_by_rank_retold : Proper retold ∧
    initial.rankOf { info := 0x11, index := 2, value := 8, size := 4 } = 3 ∧
    let final := initial.mentionAll initial.symtab retold
    (final.symbol initial.symtab (final.findSymbol initial.symtab "x")).value = 8 := by
  have proper : Proper retold := ⟨by decide +kernel,by decide +kernel,by decide +kernel⟩
  exact ⟨proper,by decide +kernel,((names_go_by_rank retold proper).2.2 "x"
    { info := 0x11, index := 2, value := 8, size := 4 } (by decide +kernel) (by decide +kernel)).2.2.2.2.2.2⟩

/-- A name with a zero byte is cut short in the table and never found again: it may be defined twice. -/
theorem zero_byte_defined_twice : let first : SymbolEntry := { info := 0x10, index := 1 }
    let second : SymbolEntry := { info := 0x10, index := 1, value := 4 }
    let once := initial.mention initial.symtab ⟨"a\x00b",first⟩
    initial.rankOf first = 3 ∧ initial.rankOf second = 3 ∧
    (match once.addSymbol once.symtab second "a\x00b" with
      | .ok (i,after) => some (i,after.symbolCount after.symtab)
      | .error _ => none) = some (2,3) := by
  decide +kernel

end Arena
end Elf

/-! ## What a link reports -/

theorem filterMapM_run {ε σ β γ : Type} {step : γ → EStateM ε σ (Option β)} (pick : γ → Option β)
    (keeps : σ → List γ → Prop) (each : ∀ s c rest, keeps s (c :: rest) → ∃ t, step c s = .ok (pick c) t ∧ keeps t rest)
    {items : List γ} {s : σ} (start : keeps s items) :
    ∃ t, items.filterMapM step s = .ok (items.filterMap pick) t ∧ keeps t [] := by
  suffices ∀ items found s, keeps s items →
      ∃ t, filterMapM.loop step items found s = .ok (found.reverse ++ items.filterMap pick) t ∧ keeps t [] by
    exact this items [] s start
  intro items
  induction items with
  | nil =>
    intro found s holds
    exact ⟨s,by simp [filterMapM.loop],holds⟩
  | cons c rest ih =>
    intro found s holds
    obtain ⟨t,run,later⟩ := each s c rest holds
    rw [filterMapM.loop,bind_run,run]
    cases picked : pick c with
    | none => simpa [picked] using ih found t later
    | some b => simpa [picked] using ih (b :: found) t later

namespace Link

open Elf Elf.Arena
open Binding

def reported (lookup : String → Option UInt64) (arena : Arena) (i : Nat) : Option String :=
  let sym := arena.symbol arena.symtab i
  let name := arena.symbolName arena.symtab i
  if sym.index = SectionIndex.undef ∧ sym.isLocal = false ∧ sym.binding ≠ weak ∧ lookup name = none
  then some name else none

variable {lookup : String → Option UInt64} {strings hash : SectionId}

def bindSymbol (lookup : String → Option UInt64) (arena : Arena) (i : Nat) : Arena :=
  let sym := arena.symbol arena.symtab i
  if sym.index = SectionIndex.undef ∧ sym.isLocal = false then
    match lookup (arena.symbolName arena.symtab i) with
    | some address => arena.setSymbol arena.symtab i { sym with index := SectionIndex.abs, value := address }
    | none => arena
  else arena

def bindAll (lookup : String → Option UInt64) (arena : Arena) : Arena :=
  (symbolIndexes arena).foldl (bindSymbol lookup) arena

def missingNames (lookup : String → Option UInt64) (arena : Arena) : List String :=
  (symbolIndexes arena).filterMap (reported lookup arena)

theorem resolveSymbol_run (lookup : String → Option UInt64) (arena : Arena) (i : Nat) :
    resolveSymbol lookup i arena = .ok (reported lookup arena i) (bindSymbol lookup arena i) := by
  by_cases searched : (arena.symbol arena.symtab i).index = SectionIndex.undef ∧
      (arena.symbol arena.symtab i).isLocal = false
  · obtain ⟨undefined,shared⟩ := searched
    cases known : lookup (arena.symbolName arena.symtab i) with
    | some address =>
      have found : reported lookup arena i = none := by simp [reported,known]
      simp only [resolveSymbol,bind_run,get_run,undefined,shared,known,bne_self_eq_false,Bool.or_self,
        Bool.false_eq_true,if_false,set_run,pure_run,found,bindSymbol,and_self,if_true]
    | none =>
      by_cases weak : (arena.symbol arena.symtab i).binding = weak
      · simp [resolveSymbol,bind_run,reported,bindSymbol,undefined,shared,known]
      · simp [resolveSymbol,bind_run,reported,bindSymbol,undefined,shared,known]
  · have passed : ((arena.symbol arena.symtab i).index != SectionIndex.undef ||
        (arena.symbol arena.symtab i).isLocal) = true := by
      simpa [imp_iff_not_or] using searched
    simp only [resolveSymbol,bind_run,get_run,passed,if_true,pure_run,reported,bindSymbol]
    rw [if_neg searched,if_neg fun all => searched ⟨all.1,all.2.1⟩]

theorem bindSymbol_kept (lookup : String → Option UInt64)
    (tabled : Tabled arena arena.symtab strings hash) (positive : 0 < i) (below : i < arena.symbolCount arena.symtab) :
    let after := bindSymbol lookup arena i
    after.symtab = arena.symtab ∧ Tabled after arena.symtab strings hash ∧
      after.symbolCount arena.symtab = arena.symbolCount arena.symtab ∧
      (∀ j, after.symbolName arena.symtab j = arena.symbolName arena.symtab j) ∧
      ∀ j, j ≠ i → after.symbol arena.symtab j = arena.symbol arena.symtab j := by
  simp only [bindSymbol]
  split
  · split
    next address _ =>
      let sym : Symbol := { arena.symbol arena.symtab i with index := SectionIndex.abs, value := address }
      obtain ⟨tabled',names,count,framed⟩ := tabled.setSymbol positive below (rfl : sym.nameOffset = _) rfl
      exact ⟨framed.symtab,tabled',count,names,fun j other => by rw [tabled.symbol_setSymbol below,if_neg other]⟩
    next => exact ⟨rfl,tabled,rfl,fun _ => rfl,fun _ _ => rfl⟩
  · exact ⟨rfl,tabled,rfl,fun _ => rfl,fun _ _ => rfl⟩

/-- Resolving binds every symbol that is found and fails when a name is missing. -/
theorem resolve_run (lookup : String → Option UInt64) (tabled : Tabled arena arena.symtab strings hash) :
    resolve lookup arena = if missingNames lookup arena = [] then .ok ⟨⟩ (bindAll lookup arena)
      else .error (.undefined (missingNames lookup arena)) (bindAll lookup arena) := by
  -- what is still to be looked at is as it was
  let keeps now (rest : List Nat) : Prop := now.symtab = arena.symtab ∧ rest.Nodup ∧
    Tabled now arena.symtab strings hash ∧ now.symbolCount arena.symtab = arena.symbolCount arena.symtab ∧
    rest.foldl (bindSymbol lookup) now = bindAll lookup arena ∧
    ∀ i ∈ rest, 0 < i ∧ i < arena.symbolCount arena.symtab ∧ reported lookup now i = reported lookup arena i
  have each : ∀ now i rest, keeps now (i :: rest) →
      ∃ next, resolveSymbol lookup i now = .ok (reported lookup arena i) next ∧ keeps next rest := by
    rintro now i rest ⟨symtab,distinct,tabled,count,left,waiting⟩
    obtain ⟨positive,below,same⟩ := waiting i (by simp)
    rw [← symtab] at tabled
    obtain ⟨symtab',tabled',count',names,others⟩ :=
      bindSymbol_kept lookup tabled positive (by rwa [symtab,count])
    rw [symtab] at symtab' tabled' count' names others
    rw [nodup_cons] at distinct
    refine ⟨_,by rw [resolveSymbol_run,same],symtab',distinct.2,tabled',count'.trans count,left,fun j member => ?_⟩
    obtain ⟨positive',below',same'⟩ := waiting j (by simp [member])
    refine ⟨positive',below',Eq.trans ?_ same'⟩
    rw [reported,reported,symtab',symtab,names,others j fun here => distinct.1 (here ▸ member)]
  have start : keeps arena (symbolIndexes arena) := by
    refine ⟨rfl,nodup_range',tabled,rfl,rfl,fun i member => ?_⟩
    rw [symbolIndexes,mem_range'_1] at member
    exact ⟨by omega,by omega,rfl⟩
  obtain ⟨last,run,_,_,_,_,bound,_⟩ := filterMapM_run _ keeps each start
  simp only [resolve,bind_run,get_run,run,missingNames]
  split <;> simp_all

theorem resolve_reports (tabled : Tabled arena arena.symtab strings hash) (name : String) :
    (∃ missing after, resolve lookup arena = .error (.undefined missing) after ∧ name ∈ missing) ↔
      ∃ i ∈ symbolIndexes arena, reported lookup arena i = some name := by
  rw [← mem_filterMap,resolve_run lookup tabled,missingNames]
  split
  next none => simp [none]
  next => simp

theorem resolve_reports_name (merged : Merged start arena.symtab strings hash mentions arena)
    (present : arena.findSymbol arena.symtab name ≠ 0) (absent : lookup name = none) :
    (∃ missing after, resolve lookup arena = .error (.undefined missing) after ∧ name ∈ missing) ↔
      (arena.symbol arena.symtab (arena.findSymbol arena.symtab name)).index = SectionIndex.undef ∧
      (arena.symbol arena.symtab (arena.findSymbol arena.symtab name)).binding ≠ weak := by
  rw [resolve_reports merged.tabled]
  constructor
  · rintro ⟨i,member,reports⟩
    rw [symbolIndexes,mem_range'_1] at member
    simp only [reported] at reports
    split at reports
    next missing =>
      have here := merged.found (i := i) (by omega) (by omega)
      rw [Option.some.inj reports] at here
      rw [here]
      exact ⟨missing.1,missing.2.2.1⟩
    next => cases reports
  · rintro ⟨undefined,strong⟩
    obtain ⟨below,shared,named⟩ := merged.tabled.findSymbol_some present
    refine ⟨_,mem_range'_1.mpr ⟨pos_of_ne_zero present,by omega⟩,?_⟩
    rw [reported,if_pos ⟨undefined,shared,strong,by rw [named,absent]⟩,named]

/-- While a name has references only, its entry is the last of them, and a link reports the name when that one is not
weak. So the entry is weak exactly when all references are, unless a weak one comes last and another does not agree. -/
theorem last_reference_prevails (mentions : List Mention) (proper : Proper mentions) (name : String)
    (undefined : ∀ e ∈ Mention.entriesOf name mentions, e.index = SectionIndex.undef) (last : SymbolEntry)
    (lastly : (Mention.entriesOf name mentions).getLast? = some last) :
    let final := Arena.initial.mentionAll Arena.initial.symtab mentions
    let sym := final.symbol final.symtab (final.findSymbol final.symtab name)
    sym.index = SectionIndex.undef ∧ sym.binding = last.binding ∧
    (((sym.binding = weak ↔ ∀ e ∈ Mention.entriesOf name mentions, e.binding = weak)) ↔
      (last.binding = weak → ∀ e ∈ Mention.entriesOf name mentions, e.binding = weak)) ∧
    ∀ lookup, lookup name = none →
      ((∃ missing after, resolve lookup final = .error (.undefined missing) after ∧ name ∈ missing) ↔
        last.binding ≠ weak) := by
  have merged := merged_initial.mentionAll proper
  intro final
  have symtab : final.symtab = Arena.initial.symtab := merged.framed.symtab
  change Merged _ _ _ _ _ final at merged
  rw [← symtab] at merged
  have member : last ∈ Mention.entriesOf name mentions := List.mem_of_getLast? lastly
  obtain ⟨m,told,rfl,-⟩ := Mention.mem_entriesOf.mp member
  have present := merged.present m told
  obtain ⟨below,-,named⟩ := merged.tabled.findSymbol_some present
  obtain ⟨e,prevails,holds⟩ := merged.prevails _ (Nat.pos_of_ne_zero present) below
  rw [named,prevailing_undefined undefined,lastly,Option.some.injEq] at prevails
  subst prevails
  have index := holds.index.trans (undefined last member)
  have binding : (final.symbol final.symtab (final.findSymbol final.symtab m.name)).binding = last.binding :=
    congrArg Symbol.bindingOf holds.info
  refine ⟨index,binding,?_,fun lookup absent => ?_⟩
  · rw [binding]
    exact ⟨Iff.mp,fun agrees => ⟨agrees,fun all => all last member⟩⟩
  · rw [resolve_reports_name merged present absent,index,binding]
    exact ⟨And.right,fun strong => ⟨rfl,strong⟩⟩

def strongLast : List Mention :=
  [⟨"w",{ info := 0x20, index := SectionIndex.undef }⟩,⟨"v",{ info := 0x20, index := SectionIndex.undef }⟩,
    ⟨"w",{ info := 0x10, index := SectionIndex.undef }⟩]

theorem last_reference_prevails_strongLast : Proper strongLast ∧
    (Mention.entriesOf "w" strongLast).getLast? = some { info := 0x10, index := SectionIndex.undef } ∧
    ∃ missing after, resolve (fun _ => none) (Arena.initial.mentionAll Arena.initial.symtab strongLast) =
      .error (.undefined missing) after ∧ "w" ∈ missing := by
  have proper : Proper strongLast := ⟨by decide +kernel,by decide +kernel,by decide +kernel⟩
  refine ⟨proper,by decide +kernel,?_⟩
  exact ((last_reference_prevails strongLast proper "w" (by decide +kernel)
    { info := 0x10, index := SectionIndex.undef } (by decide +kernel)).2.2.2 (fun _ => none) rfl).mpr (by decide +kernel)

/-- A weak reference takes the place of one that is not weak, and then a link does not miss the name. -/
theorem weak_reference_hides_strong : let needed : Mention := ⟨"w",{ info := 0x10, index := SectionIndex.undef }⟩
    let wanted : Mention := ⟨"w",{ info := 0x20, index := SectionIndex.undef }⟩
    let final := Arena.initial.mentionAll Arena.initial.symtab [needed,wanted]
    final.findSymbol final.symtab "w" = 1 ∧ (final.symbol final.symtab 1).binding = weak ∧
    (match resolve (fun _ => none) final with
      | .ok _ after => (after.symbol after.symtab 1).index == SectionIndex.undef
      | .error _ _ => false) = true := by
  decide +kernel

end Link
end OnePass
