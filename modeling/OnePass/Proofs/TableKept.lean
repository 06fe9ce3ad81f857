import OnePass.Proofs.Alignment
import OnePass.Proofs.SymbolMerging

/-! # The symbol table before a link

Tentative definitions get their room and undefined symbols their addresses, but a symbol keeps its name and stays
local or shared. So the tables stay complete, and a name is found where it was found before. -/
namespace OnePass

open Elf

variable {strings hash : SectionId}

namespace Elf.Arena

theorem Tabled.findSymbol_congr (tabled : Tabled arena table strings hash)
    (tabled' : Tabled after table strings hash) (count : after.symbolCount table = arena.symbolCount table)
    (names : ∀ i < arena.symbolCount table, after.symbolName table i = arena.symbolName table i)
    (own : ∀ i < arena.symbolCount table, (after.symbol table i).isLocal = (arena.symbol table i).isLocal) (name : String) :
    after.findSymbol table name = arena.findSymbol table name := by
  rw [tabled.findSymbol_eq,tabled'.findSymbol_eq,count]
  exact latest_congr fun i below => by rw [names i below,own i below]

theorem Sound.framed (sound : Sound start) (framed : Framed touched start arena)
    (stored : (arena.get start.symtab).size ≤ (arena.get start.symtab).store.size) : Sound arena := by
  have symtab := framed.symtab
  have bss := framed.bss
  refine ⟨by rw [framed.listed]; exact sound.distinct,by rw [symtab,framed.size]; exact sound.present,
    by rw [bss,framed.size]; exact sound.zeroed,?_,by rwa [symtab],by rw [symtab,bss]; exact sound.apart,
    fun id found => ?_,fun id rela found => ?_⟩
  · rw [bss,(framed.rewritten start.bss).number]
    exact sound.number
  · rw [symtab,(framed.rewritten start.symtab).link] at found
    rw [bss,symtab]
    exact sound.strings id found
  · rw [(framed.rewritten id).reloc] at found
    rw [bss,symtab]
    exact sound.relocs id rela found

end Elf.Arena

namespace Link

open Elf.Arena

/-- What has become of the symbol table: it is complete, and every symbol has its name and is as local as it was. -/
structure TableKept (strings hash : SectionId) (before after : Arena) : Prop where
  symtab : after.symtab = before.symtab
  dynsymtab : after.dynsymtab = before.dynsymtab
  bss : after.bss = before.bss
  tabled : Tabled after before.symtab strings hash
  count : after.symbolCount before.symtab = before.symbolCount before.symtab
  names : ∀ i, after.symbolName before.symtab i = before.symbolName before.symtab i
  own : ∀ i, (after.symbol before.symtab i).isLocal = (before.symbol before.symtab i).isLocal
  offsets : ∀ i, (after.symbol before.symtab i).nameOffset = (before.symbol before.symtab i).nameOffset

namespace TableKept

theorem refl (tabled : Tabled before before.symtab strings hash) : TableKept strings hash before before :=
  ⟨rfl,rfl,rfl,tabled,rfl,fun _ => rfl,fun _ => rfl,fun _ => rfl⟩

theorem trans (first : TableKept strings hash before arena) (second : TableKept strings hash arena after) :
    TableKept strings hash before after := by
  obtain ⟨symtab,dynsymtab,bss,_,count,names,own,offsets⟩ := first
  obtain ⟨symtab',dynsymtab',bss',tabled',count',names',own',offsets'⟩ := second
  rw [symtab] at symtab' tabled' count' names' own' offsets'
  exact ⟨symtab',dynsymtab'.trans dynsymtab,bss'.trans bss,tabled',count'.trans count,fun i => (names' i).trans (names i),
    fun i => (own' i).trans (own i),fun i => (offsets' i).trans (offsets i)⟩

/-- Two arenas that are told the same go on together. -/
theorem square (first : TableKept strings hash before before')
    (kept : TableKept strings hash before after) (second : TableKept strings hash after after') :
    TableKept strings hash before' after' := by
  obtain ⟨symtab,dynsymtab,bss,tabled,count,names,own,offsets⟩ := kept.trans second
  refine ⟨symtab.trans first.symtab.symm,dynsymtab.trans first.dynsymtab.symm,bss.trans first.bss.symm,?_,?_,?_,?_,?_⟩
  · rwa [first.symtab]
  · rw [first.symtab,count,first.count]
  · intro i
    rw [first.symtab,names,first.names]
  · intro i
    rw [first.symtab,own,first.own]
  · intro i
    rw [first.symtab,offsets,first.offsets]

section

variable (kept : TableKept strings hash before after)

include kept

theorem now : Tabled after after.symtab strings hash := by
  rw [kept.symtab]
  exact kept.tabled

theorem symbolIndexes : Link.symbolIndexes after = Link.symbolIndexes before := by
  rw [Link.symbolIndexes,Link.symbolIndexes,kept.symtab,kept.count]

theorem aside (aside : before.bss ∉ [before.symtab,strings,hash]) : after.bss ∉ [after.symtab,strings,hash] := by
  rwa [kept.symtab,kept.bss]

end

section

variable (tabled : Tabled before before.symtab strings hash)

include tabled

theorem findSymbol (kept : TableKept strings hash before after) (name : String) :
    after.findSymbol after.symtab name = before.findSymbol before.symtab name := by
  rw [kept.symtab]
  exact tabled.findSymbol_congr kept.tabled kept.count (fun i _ => kept.names i) (fun i _ => kept.own i) name

theorem setSymbol (positive : 0 < i) (below : i < before.symbolCount before.symtab)
    (nameOffset : sym.nameOffset = (before.symbol before.symtab i).nameOffset)
    (own : sym.isLocal = (before.symbol before.symtab i).isLocal) :
    TableKept strings hash before (before.setSymbol before.symtab i sym) := by
  obtain ⟨tabled',names,count,_⟩ := tabled.setSymbol positive below nameOffset own
  have symbols := tabled.symbol_setSymbol below sym
  refine ⟨rfl,rfl,rfl,tabled',count,names,fun j => ?_,fun j => ?_⟩
  · rw [symbols]
    split
    next here => rw [here,own]
    next => rfl
  · rw [symbols]
    split
    next here => rw [here,nameOffset]
    next => rfl

theorem updateBss (aside : before.bss ∉ [before.symtab,strings,hash]) (f : Section → Section) :
    TableKept strings hash before (before.update before.bss f) := by
  have same id member :
      (before.update before.bss f).get id = before.get id := get_update_other (ne_of_mem_of_not_mem member aside)
  have table := same before.symtab (by simp)
  have texts := same strings (by simp)
  exact ⟨rfl,rfl,rfl,tabled.congr (Nat.le_of_eq update_size.symm) table texts (same hash (by simp)),symbolCount_congr table,
    symbolName_congr table tabled.beside.link texts,fun i => by rw [symbol_congr table],
    fun i => by rw [symbol_congr table]⟩

end

end TableKept

theorem placeCommon_tableKept (tabled : Tabled before before.symtab strings hash)
    (aside : before.bss ∉ [before.symtab,strings,hash]) (member : i ∈ symbolIndexes before)
    (run : placeCommon i before = .ok ⟨⟩ after) : TableKept strings hash before after := by
  obtain ⟨positive,below⟩ := mem_symbolIndexes.mp member
  by_cases tentative : (before.symbol before.symtab i).index = SectionIndex.common
  · obtain ⟨offset,sec,_,rfl⟩ := (placeCommon_ok_iff tentative).mp run
    have room := TableKept.updateBss tabled aside fun _ => sec
    have same : (before.update before.bss fun _ => sec).symbol before.symtab i = before.symbol before.symtab i :=
      symbol_congr (get_update_other fun eq => aside (by simp [eq])) i
    have offsets := congrArg Symbol.nameOffset same.symm
    have own := congrArg Symbol.isLocal same.symm
    exact room.trans (.setSymbol room.tabled positive (Nat.lt_of_lt_of_eq below room.count.symm) offsets own)
  · rw [placeCommon_other tentative] at run
    cases run
    exact .refl tabled

theorem placeCommons_tableKept (tabled : Tabled before before.symtab strings hash)
    (aside : before.bss ∉ [before.symtab,strings,hash]) (run : placeCommons before = .ok ⟨⟩ after) :
    TableKept strings hash before after := by
  refine forM_keeps (fun now _ => TableKept strings hash before now) ?_ (.refl tabled)
    (show (symbolIndexes before).forM placeCommon before = _ from run)
  intro arena later done i rest parts kept step
  have member : i ∈ symbolIndexes before := by simp [parts]
  rw [← kept.symbolIndexes] at member
  exact kept.trans (placeCommon_tableKept kept.now (kept.aside aside) member step)

end Link
end OnePass
