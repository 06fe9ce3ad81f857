import OnePass.Proofs.ObjectSections

/-! # Loading the symbols of an object file

No two symbols of a written file that are not local have one name, so that none meets another one when they are
added: each is put behind the others and gets the index at which it was written. -/
namespace OnePass.Elf.Object

open ObjectFile (fileOf viewOf order writtenSymbol)
open List ObjectFile SectionIndex Arena

variable {before loaded after : Arena} {strings hash strings' hash' id : SectionId}

/-- The index of a symbol after the sections got new numbers. -/
def SamePlace (before after : Arena) (old new : UInt16) : Prop :=
  if old = undef ∨ reserved ≤ old then new = old
  else ∃ id image, Image before after id image ∧ old.toNat = (before.get id).number ∧
    new.toNat = (after.get image).number

/-- Symbols that say the same of one name. -/
structure SameSymbol (before after : Arena) (old new : Nat) : Prop where
  name : after.symbolName after.symtab new = before.symbolName before.symtab old
  info : (after.symbol after.symtab new).info = (before.symbol before.symtab old).info
  other : (after.symbol after.symtab new).other = (before.symbol before.symtab old).other
  value : (after.symbol after.symtab new).value = (before.symbol before.symtab old).value
  size : (after.symbol after.symtab new).size = (before.symbol before.symtab old).size
  place : SamePlace before after (before.symbol before.symtab old).index (after.symbol after.symtab new).index

theorem SamePlace.steady {old new : UInt16} (same : SamePlace before loaded old new)
    (steady : Steady loaded after) : SamePlace before after old new := by
  unfold SamePlace at same ⊢
  split at same
  next special =>
    rwa [if_pos special]
  next ordinary =>
    rw [if_neg ordinary]
    obtain ⟨id,image,⟨j,source,target⟩,number,number'⟩ := same
    obtain ⟨_,eq⟩ := steady.same image (mem_of_getElem? target)
    refine ⟨id,image,⟨j,source,by rwa [steady.allocated]⟩,number,?_⟩
    rw [eq]
    exact number'

theorem SamePlace.placeable {old new : UInt16} (same : SamePlace before after old new) : after.Placeable new := by
  unfold SamePlace at same
  split at same
  next special =>
    rw [same]
    exact special.elim Or.inl fun reserved => Or.inr (Or.inl reserved)
  next =>
    obtain ⟨_,image,⟨_,_,target⟩,_,number⟩ := same
    exact Or.inr (Or.inr ⟨image,mem_of_getElem? target,number⟩)

structure Located (before after : Arena) (placed : List (Option Placed)) : Prop where
  at_ : ∀ id ∈ before.allocated, ∃ image, placedAt? placed (before.get id).number = some ⟨image,0,(before.get id).size⟩ ∧
    Image before after id image
  numbers : ∀ id ∈ after.allocated, (after.get id).number < 2 ^ 16

theorem Located.steady (located : Located before loaded placed)
    (steady : Steady loaded after) : Located before after placed := by
  refine ⟨fun id member => ?_,fun id member => ?_⟩
  · obtain ⟨image,at_,j,source,target⟩ := located.at_ id member
    exact ⟨image,at_,j,source,by rwa [steady.allocated]⟩
  · rw [steady.allocated] at member
    obtain ⟨_,eq⟩ := steady.same id member
    rw [eq]
    exact located.numbers id member

theorem moved_run (located : Located before after placed) (placeable : before.Placeable sym.index) (name : String) :
    ∃ index, moved placed name sym after = .ok (some { sym with index }) after ∧
      SamePlace before after sym.index index := by
  by_cases special : sym.index = undef ∨ reserved ≤ sym.index
  · refine ⟨sym.index,?_,?_⟩
    · rw [moved,if_pos (by simpa using special)]
      rfl
    · rw [SamePlace,if_pos special]
  · rcases placeable with undef | reserved | ⟨id,member,number⟩
    · exact absurd (Or.inl undef) special
    · exact absurd (Or.inr reserved) special
    · obtain ⟨image,at_,pair⟩ := located.at_ id member
      refine ⟨UInt16.ofNat (after.get image).number,?_,?_⟩
      · rw [moved,if_neg (by simpa using special),number,at_]
        simp [bind_run]
      · have ⟨_,_,target⟩ := pair
        have small := located.numbers image (mem_of_getElem? target)
        rw [SamePlace,if_neg special]
        refine ⟨id,image,pair,number,?_⟩
        rw [UInt16.toNat_ofNat',Nat.mod_eq_of_lt small]

/-- The symbols written first are loaded. -/
structure Merging (before loaded after : Arena) (strings hash : SectionId) (done : List Nat) : Prop where
  formed : after.Formed strings hash
  steady : Steady loaded after
  bare : ∀ id ∈ after.allocated, after.relocations id = []
  count : after.symbolCount after.symtab = done.length
  symbols : ∀ (k : Nat) old, done[k]? = some old → SameSymbol before after old k

section

variable (formed : before.Formed strings hash)

include formed

theorem Merging.room (merging : Merging before loaded after strings' hash' done) (split : order before = done ++ rest) :
    (after.get strings').size ≤ (before.get strings).size := by
  have names : (range (after.symbolCount after.symtab)).map (fun i => nameRoom (after.symbolName after.symtab i)) =
      done.map fun old => nameRoom (before.symbolName before.symtab old) := by
    apply ext_getElem?
    intro k
    rw [merging.count,getElem?_map,getElem?_map]
    by_cases below : k < done.length
    · rw [getElem?_range below,getElem?_eq_getElem below,Option.map_some,Option.map_some,
        (merging.symbols k _ (getElem?_eq_getElem below)).name]
    · rw [getElem?_eq_none (by simpa using below),getElem?_eq_none (by simpa using below)]
      rfl
  have all := ((order_perm before).map fun old => nameRoom (before.symbolName before.symtab old)).sum_nat
  rw [split,map_append,sum_append] at all
  rw [merging.formed.tabled.named.room,formed.tabled.named.room,names]
  omega

theorem Merging.step (merging : Merging before loaded after strings' hash' done) (fits : before.Fits)
    (located : Located before loaded placed) (split : order before = done ++ old :: rest) (positive : 0 < old) :
    ∃ next, mergeSymbol (fileOf before) (viewOf before) placed (writtenSymbol before old) after = .ok done.length next ∧
      Merging before loaded next strings' hash' (done ++ [old]) := by
  have below : old < before.symbolCount before.symtab := mem_order.mp (by rw [split]; simp)
  have distinct : (order before).Nodup := (order_perm before).nodup_iff.mpr nodup_range
  obtain ⟨type,placeable⟩ := formed.symbols.valid old positive below
  have free := (formed.tabled.named.names old below).2
  have written : ∃ nameOffset, writtenSymbol before old = { before.symbol before.symtab old with nameOffset } := by
    rw [writtenSymbol,if_neg (by simp; omega)]
    exact ⟨_,rfl⟩
  have name := written_name formed fits positive below
  obtain ⟨nameOffset,eq⟩ := written
  rw [eq] at name ⊢
  generalize symEq : ({ before.symbol before.symtab old with nameOffset }) = sym at name
  obtain ⟨index,run,place⟩ := moved_run (located.steady merging.steady) (show before.Placeable sym.index by
    rw [← symEq]; exact placeable) (before.symbolName before.symtab old)
  have isLocal : sym.isLocal = (before.symbol before.symtab old).isLocal := by rw [← symEq]; rfl
  -- A symbol of the name that is not local would have been written twice.
  have fresh : (entryOf { sym with index }).isLocal = false →
      after.findSymbol after.symtab (before.symbolName before.symtab old) = 0 := by
    intro shared
    apply Classical.byContradiction
    intro found
    obtain ⟨inside,shared',named⟩ := merging.formed.tabled.findSymbol_some found
    rw [merging.count] at inside
    have earlier := getElem?_eq_getElem inside
    have same := merging.symbols _ _ earlier
    have member : done[after.findSymbol after.symtab (before.symbolName before.symtab old)] ∈ done :=
      mem_of_getElem? earlier
    generalize done[after.findSymbol after.symtab (before.symbolName before.symtab old)] = first at same member
    have known : first < before.symbolCount before.symtab :=
      mem_order.mp (by rw [split]; exact mem_append_left _ member)
    have equal := formed.symbols.unique first known old below
      (by rw [← shared',Symbol.isLocal,Symbol.isLocal,Symbol.binding,Symbol.binding,same.info])
      (by rwa [← isLocal]) (by rw [← same.name,named])
    rw [split,nodup_append] at distinct
    exact distinct.2.2 first member old mem_cons_self equal
  have small : (after.get strings').size < 2 ^ 32 :=
    Nat.lt_of_le_of_lt (merging.room formed split) (fits.sizes _ formed.tables.2)
  have few : after.symbolCount after.symtab + 1 < 2 ^ 32 := by
    have size := fits.sizes _ formed.tables.1
    have total := (order_perm before).length_eq
    rw [split,length_append,length_range] at total
    rw [formed.tabled.named.whole,Symbol.recordSize] at size
    rw [merging.count]
    omega
  obtain ⟨position,formed',extended,symtab,steady,relocs⟩ := merging.formed.putSymbol small few free
    (show (entryOf { sym with index }).info &&& 0xf ≠ SymbolType.section_ by rwa [← symEq])
    place.placeable fresh
  have merged : mergeSymbol (fileOf before) (viewOf before) placed sym after =
      .ok (after.putSymbol after.symtab (entryOf { sym with index }) (before.symbolName before.symtab old)).1
        (after.putSymbol after.symtab (entryOf { sym with index }) (before.symbolName before.symtab old)).2 := by
    have ordinary : ¬(sym.type == SymbolType.section_) = true := by
      rwa [beq_iff_eq,← symEq]
    rw [mergeSymbol,if_neg ordinary]
    simp only [fileOf,name,bind_run,run]
    cases own : ({ sym with index }).isLocal with
    | true => simp only [if_true,LoadM.change,bind_run,get_run,set_run,pure_run]
    | false =>
      have entry : (entryOf { sym with index }).isLocal = false := own
      simp only [Bool.false_eq_true,if_false,bind_run,get_run,addSymbol,entry,fresh entry,beq_self_eq_true,
        if_true,set_run,pure_run]
  rw [position,merging.count] at merged
  refine ⟨_,merged,formed',merging.steady.trans steady,?_,?_,?_⟩
  · intro id member
    rw [steady.allocated] at member
    rw [relocs id member]
    exact merging.bare id member
  · rw [symtab,extended.count,merging.count,length_append]
    rfl
  · intro k other found
    obtain ⟨offset,newSymbol⟩ := extended.newSymbol
    by_cases last : k < done.length
    · rw [getElem?_append_left last] at found
      have same := merging.symbols k other found
      have symbol := extended.symbol k (by rwa [merging.count])
      have names := extended.symbolName k (by rwa [merging.count])
      refine ⟨?_,?_,?_,?_,?_,?_⟩ <;> rw [symtab]
      · rw [names,same.name]
      · rw [symbol,same.info]
      · rw [symbol,same.other]
      · rw [symbol,same.value]
      · rw [symbol,same.size]
      · rw [symbol]
        exact same.place.steady steady
    · have bound := (List.getElem?_eq_some_iff.mp found).1
      obtain rfl : k = done.length := by
        rw [length_append,length_singleton] at bound
        omega
      rw [getElem?_append_right (Nat.le_refl _),Nat.sub_self] at found
      obtain rfl := Option.some.inj found
      rw [merging.count] at newSymbol
      have newName := extended.newName
      rw [merging.count] at newName
      refine ⟨?_,?_,?_,?_,?_,?_⟩ <;> rw [symtab]
      · exact newName
      · rw [newSymbol,← symEq]
        rfl
      · rw [newSymbol,← symEq]
        rfl
      · rw [newSymbol,← symEq]
        rfl
      · rw [newSymbol,← symEq]
        rfl
      · rw [newSymbol]
        have placed := place.steady steady
        rw [← symEq] at placed
        rwa [← symEq]

theorem Merging.all (fits : before.Fits) (located : Located before loaded placed) (rest done : List Nat)
    (split : order before = done ++ rest) (started : 0 ∈ done) (after : Arena)
    (merging : Merging before loaded after strings' hash' done) :
    ∃ next, (rest.map (writtenSymbol before)).mapM (mergeSymbol (fileOf before) (viewOf before) placed) after =
        .ok (range' done.length rest.length) next ∧
      Merging before loaded next strings' hash' (order before) := by
  induction rest generalizing done after with
  | nil =>
    rw [append_nil] at split
    exact ⟨after,by rw [map_nil]; rfl,by rwa [split]⟩
  | cons old rest ih =>
    have positive : 0 < old := by
      have distinct : (order before).Nodup := (order_perm before).nodup_iff.mpr nodup_range
      rw [split,nodup_append] at distinct
      exact Nat.pos_of_ne_zero fun zero => distinct.2.2 0 started old mem_cons_self zero.symm
    obtain ⟨middle,run,merging'⟩ := merging.step formed fits located split positive
    obtain ⟨next,runs,result⟩ := ih (done ++ [old]) (by rw [split]; simp) (mem_append_left _ started) middle merging'
    rw [length_append,length_singleton] at runs
    refine ⟨next,?_,result⟩
    rw [length_cons,range'_succ]
    simp only [map_cons,mapM_cons,bind_run,run,runs,pure_run]

theorem order_cons : ∃ rest, order before = 0 :: rest := by
  have positive := formed.tabled.positive
  obtain ⟨n,count⟩ : ∃ n, before.symbolCount before.symtab = n + 1 := ⟨before.symbolCount before.symtab - 1,by omega⟩
  rw [order,symbolOrder,count,range_succ_eq_map]
  simp only [partition_eq_filter_filter]
  exact ⟨_,rfl⟩

/-- The symbols of a written file are loaded behind the null symbol, at the indexes at which they were written. -/
theorem mergeSymbols_bytes (fits : before.Fits) (located : Located before loaded placed)
    (merging : Merging before loaded after strings' hash' [0]) :
    ∃ next, mergeSymbols (fileOf before) placed after =
        .ok (range (before.symbolCount before.symtab)).toArray next ∧
      Merging before loaded next strings' hash' (order before) := by
  obtain ⟨rest,split⟩ := order_cons formed
  obtain ⟨next,runs,result⟩ := Merging.all formed fits located rest [0] split (by simp) after merging
  refine ⟨next,?_,result⟩
  have length := (order_perm before).length_eq
  rw [split,length_cons,length_range] at length
  have symbols : (viewOf before).symbols = writtenSymbol before 0 :: rest.map (writtenSymbol before) := by
    rw [viewOf,split,map_cons]
  have indexes : 0 :: range' 1 rest.length = range (before.symbolCount before.symtab) := by
    rw [← length,range_eq_range',range'_succ]
  rw [mergeSymbols,symbols_eq formed fits]
  simp only [LoadM.format,bind_run,pure_run,symbols]
  rw [length_singleton] at runs
  simp only [runs,indexes]

end

end OnePass.Elf.Object
