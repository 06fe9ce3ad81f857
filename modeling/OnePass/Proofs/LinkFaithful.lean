import OnePass.Proofs.LinkContents

/-! # A linked image is faithful to its arena

What `relocate` promises of an image that it returns: where the sections and the tables lie, which
bytes they hold, what every relocated field says and which addresses are exported. -/
namespace OnePass.Link

open Elf Elf.Arena SectionIndex

/-- What linking relies on: sections within the limits of their kind, modest alignments, and
relocations against symbols that exist. -/
structure Linkable (arena : Arena) : Prop extends Sound arena where
  count : arena.listed.size ≤ 2 ^ 30
  sizes : ∀ id, (arena.get id).size ≤ (arena.get id).limit
  records : (arena.get arena.symtab).isNobits = false
  alignments : ∀ id ∈ arena.allocated, (arena.get id).align.toNat ≤ 2 ^ 32
  commons : ∀ i < arena.symbolCount arena.symtab, (arena.symbol arena.symtab i).index = common →
    (arena.symbol arena.symtab i).value.toNat ≤ 2 ^ 32
  targets : ∀ id ∈ arena.allocated, ∀ rel ∈ arena.relocations id,
    rel.symbol.toNat < arena.symbolCount arena.symtab

namespace Linkable

theorem iff_bounded (arena : Arena) : Linkable arena ↔
    (arena.listed.toList.Nodup ∧ arena.symtab < arena.sections.size ∧ arena.bss < arena.sections.size ∧
      (0 < (arena.get arena.bss).number ∧ (arena.get arena.bss).number < 2 ^ 16) ∧
      (arena.get arena.symtab).size ≤ (arena.get arena.symtab).store.size ∧ arena.symtab ≠ arena.bss ∧
      (∀ id ∈ (arena.get arena.symtab).link, id ≠ arena.bss ∧ id ≠ arena.symtab) ∧
      (∀ id < arena.sections.size, ∀ rela ∈ (arena.get id).reloc, rela ≠ arena.bss ∧ rela ≠ arena.symtab)) ∧
    arena.listed.size ≤ 2 ^ 30 ∧ (∀ id < arena.sections.size, (arena.get id).size ≤ (arena.get id).limit) ∧
    (arena.get arena.symtab).isNobits = false ∧
    (∀ id ∈ arena.allocated, (arena.get id).align.toNat ≤ 2 ^ 32) ∧
    (∀ i < arena.symbolCount arena.symtab, (arena.symbol arena.symtab i).index = common →
      (arena.symbol arena.symtab i).value.toNat ≤ 2 ^ 32) ∧
    (∀ id ∈ arena.allocated, ∀ rel ∈ arena.relocations id,
      rel.symbol.toNat < arena.symbolCount arena.symtab) := by
  constructor
  · intro h
    exact ⟨⟨h.distinct,h.present,h.zeroed,h.number,h.stored,h.apart,h.strings,fun id _ => h.relocs id⟩,
      h.count,fun id _ => h.sizes id,h.records,h.alignments,h.commons,h.targets⟩
  · rintro ⟨⟨distinct,present,zeroed,number,stored,apart,strings,relocs⟩,count,sizes,rest⟩
    refine ⟨⟨distinct,present,zeroed,number,stored,apart,strings,?_⟩,count,?_,rest.1,rest.2.1,rest.2.2.1,rest.2.2.2⟩
    · intro id rela found
      by_cases inside : id < arena.sections.size
      · exact relocs id inside rela found
      · rw [get_outside (Nat.not_lt.mp inside)] at found
        cases found
    · intro id
      by_cases inside : id < arena.sections.size
      · exact sizes id inside
      · rw [get_outside (Nat.not_lt.mp inside)]
        exact Nat.zero_le _

instance (arena : Arena) : Decidable (Linkable arena) := decidable_of_iff _ (iff_bounded arena).symm

theorem limit_le (sec : Section) : sec.limit ≤ 2 ^ 32 - 1 := by
  unfold Section.limit
  split <;> decide

theorem count_le (linkable : Linkable before) : before.symbolCount before.symtab ≤ 89478485 := by
  have size := linkable.sizes before.symtab
  rw [Section.limit,linkable.records] at size
  simp only [symbolCount,Symbol.recordSize]
  simp at size
  omega

theorem extent (linkable : Linkable before) (commons : CommonsPlaced before middle (symbolIndexes before))
    (id : SectionId) (member : id ∈ before.allocated) :
    (middle.get id).size + (middle.get id).align.toNat ≤ 2 ^ 33 := by
  have size := linkable.sizes id
  have align := linkable.alignments id member
  have limit := limit_le (before.get id)
  by_cases isBss : id = before.bss
  · subst isBss
    have bound : (middle.get before.bss).align ≤ 0x100000000 := by
      apply commons.alignment
      · decide
      · exact UInt64.le_iff_toNat_le.mpr align
      · intro i inside tentative
        simp only [symbolIndexes,List.mem_range'_1] at inside
        exact UInt64.le_iff_toNat_le.mpr (linkable.commons i (by omega) tentative)
    have bound' := UInt64.le_iff_toNat_le.mp bound
    have extent := commons.extent
    simp at bound'
    omega
  · obtain ⟨_,eq⟩ := commons.kept.stored isBss
    rw [eq]
    simp only
    omega

theorem arranged (linkable : Linkable before) (commons : CommonsPlaced before middle (symbolIndexes before))
    (resolved : SymbolsResolved lookup middle arena (symbolIndexes middle)) : Arranged arena := by
  have kept := commons.kept.trans resolved.kept
  have allocated : arena.allocated = before.allocated := allocated_congr kept.listed kept.flags
  have targets : ∀ id ∈ arena.allocated, ∀ rel ∈ arena.relocations id,
      rel.symbol.toNat < before.symbolCount before.symtab := by
    intro id member rel inside
    rw [kept.relocations linkable.toSound] at inside
    exact linkable.targets id (allocated ▸ member) rel inside
  obtain ⟨entries,jumps⟩ := tables_length _ _ targets
  have span : span arena arena.allocated ≤ arena.allocated.length * 2 ^ 33 := by
    refine span_le arena _ _ fun id member => ?_
    have before := linkable.extent commons id (allocated ▸ member)
    by_cases isBss : id = middle.bss
    · rwa [isBss,resolved.zeroed,← isBss]
    · obtain ⟨_,eq⟩ := resolved.kept.stored isBss
      rwa [eq]
  have few : arena.allocated.length ≤ 2 ^ 30 := by
    rw [allocated]
    exact Nat.le_trans allocated_length linkable.count
  have count := linkable.count_le
  exact Link.arranged arena (by omega) (by rw [Link.entries,Link.jumps]; omega)

end Linkable

/-- A function that calls one outside the image, and a pointer to a tentative definition. -/
def caller : Arena :=
  let arena := Arena.initial.update Arena.initial.text (·.append (List.replicate 32 0x90))
  let arena := (arena.putSymbol arena.symtab
    { info := Symbol.makeInfo Binding.global SymbolType.func, index := 1, size := 32 } "f").2
  let arena := (arena.putSymbol arena.symtab
    { info := Symbol.makeInfo Binding.global SymbolType.none, index := undef } "g").2
  let arena := (arena.putSymbol arena.symtab
    { info := Symbol.makeInfo Binding.global SymbolType.object, index := common
      value := 8, size := 8 } "v").2
  [⟨1,2,RelocType.plt32.code,-4⟩,⟨8,3,RelocType.abs64.code,0⟩,⟨20,1,RelocType.gotPcRel.code,-4⟩].foldl
    (fun arena rel => arena.putRelocation arena.symtab arena.text rel) arena

end OnePass.Link
