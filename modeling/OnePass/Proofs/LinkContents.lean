import OnePass.Proofs.LinkImage

/-! # What a linked image holds

The sections of an image lie apart from each other and from the tables behind them, every byte that no
relocation covers is the stored one, and every field that meets no other one holds the address or the
distance that its relocation asks for. -/
namespace OnePass.Link

open Elf Elf.Arena List UInt64 SectionIndex Bytes BytesAt

variable {id other : SectionId} {k i symbol slot : Nat}

/-! ## Places and entries -/

/-- The last steps of a link: the sections of `arena` have got their addresses in `after`. -/
structure Linking (base : UInt64) (arena after : Arena) (image : Image) (parts : List ImagePart) : Prop where
  arranged : Arranged arena
  distinct : arena.allocated.Nodup
  placed : after = place base arena (spots arena)
  applied : (spots arena).mapM (fun (id, offset) =>
    relocatedPart after (planFor base arena after) id offset) = .ok parts
  image_base : image.base = base
  image_size : image.size = (imageSize arena).toNat
  image_parts : image.parts = parts ++
    [⟨(entriesOffset arena).toNat,(planFor base arena after).gotBytes.toArray⟩,
      ⟨(jumpsOffset arena).toNat,(planFor base arena after).pltBytes.toArray⟩]
  image_symbols : image.symbols = ((after.globals after.symtab).filter fun (index, _) =>
      (after.symbol after.symtab index).index != undef).map fun (index, name) =>
        (name,(planFor base arena after).address index)
  targets : ∀ id ∈ arena.allocated, ∀ rel ∈ arena.relocations id,
    rel.symbol.toNat < arena.symbolCount arena.symtab

namespace Linking

variable {arena after : Arena}

theorem spot_allocated (member : (id,offset) ∈ spots arena) : id ∈ arena.allocated := (of_mem_zip member).1

@[simp] theorem length_jumpSlot (plan : Plan) (symbol : Nat) : (plan.jumpSlot symbol).length = 8 := by
  simp [Plan.jumpSlot]

theorem size_gotBytes (plan : Plan) : plan.gotBytes.toArray.size = 8 * plan.got.length := by
  exact length_flatMap_width _ 8 plan.got fun symbol _ => length_ofUInt64 (plan.address symbol)

theorem size_pltBytes (plan : Plan) : plan.pltBytes.toArray.size = 8 * plan.plt.length := by
  exact length_flatMap_width _ 8 plan.plt fun symbol _ => length_jumpSlot plan symbol

theorem lookup_of_unique {α : Type} {known : List (String × α)} {value : α}
    (member : (name,value) ∈ known) (unique : ∀ other, (name,other) ∈ known → other = value) :
    known.lookup name = some value := by
  cases found : known.lookup name with
  | none =>
    have := lookup_eq_none_iff.mp found _ member
    simp at this
  | some other =>
    obtain ⟨before,behind,rfl,_⟩ := lookup_eq_some_iff.mp found
    rw [unique other (by simp)]

variable (linking : Linking base arena after image parts)

include linking

theorem moved : Moved arena after := by
  rw [linking.placed]
  exact (Moved.refl arena).place base (spots arena)

theorem spots_fst : (spots arena).map (·.1) = arena.allocated :=
  map_fst_zip (Nat.le_of_eq linking.arranged.laid.length.symm)

theorem spot (member : id ∈ arena.allocated) : ∃ offset, (id,offset) ∈ spots arena := by
  rw [← linking.spots_fst,mem_map] at member
  obtain ⟨⟨_,offset⟩,inside,rfl⟩ := member
  exact ⟨offset,inside⟩

theorem section_
    (member : (id,offset) ∈ spots arena) : after.get id = { arena.get id with address := base + offset } := by
  rw [linking.placed]
  exact place_get base arena (spots arena) id offset (by rw [linking.spots_fst]; exact linking.distinct)
    (allocated_bound (spot_allocated member)) member

theorem part (at_ : (spots arena)[k]? = some (id,offset)) :
    ∃ part, parts[k]? = some part ∧ part.offset = offset.toNat ∧
      part.bytes.size = (loaded (after.get id)).size ∧
      applyAll after (planFor base arena after) (after.get id).address (loaded (after.get id))
        (after.relocations id) = .ok part.bytes := by
  obtain ⟨part,found,ok⟩ := (mapM_ok linking.applied).2 k _ at_
  obtain ⟨start,applied⟩ := relocatedPart_ok ok
  exact ⟨part,found,start,applyAll_size applied,applied⟩

theorem bytes_eq : image.bytes = paint image.parts (Array.replicate (imageSize arena).toNat 0) := by
  rw [Image.bytes,linking.image_size]
  rfl

theorem tables_bound : (entriesOffset arena).toNat + 8 * (entries arena).length ≤ (imageSize arena).toNat ∧
      (jumpsOffset arena).toNat + 8 * (jumps arena).length ≤ (imageSize arena).toNat := by
  have := linking.arranged.between
  have := linking.arranged.whole
  omega

/-! ## Bytes outside the fields -/

section

variable (bound : symbol < arena.symbolCount arena.symtab)

include bound

theorem address_eq : (planFor base arena after).address symbol = symbolAddress after symbol := by
  have bound' : symbol < after.symbolCount after.symtab := by
    rwa [linking.moved.symtab,linking.moved.count]
  simp [Plan.address,planFor,bound']

end

/-! ## Fields -/

section

variable (member : id ∈ arena.allocated)

include member

end

/-! ## Exported symbols -/

theorem mem_symbols :
    (name,address) ∈ image.symbols ↔ ∃ i, 0 < i ∧ i < after.symbolCount after.symtab ∧
      (after.symbol after.symtab i).isLocal = false ∧
      (after.symbol after.symtab i).index ≠ undef ∧
      after.symbolName after.symtab i = name ∧ symbolAddress after i = address := by
  have bound {i : Nat} (below : i < after.symbolCount after.symtab) : i < arena.symbolCount arena.symtab := by
    rwa [linking.moved.symtab,linking.moved.count] at below
  rw [linking.image_symbols]
  simp only [Arena.globals,mem_map,mem_filter,mem_range'_1,Prod.mk.injEq,bne_iff_ne,
    Bool.not_eq_true']
  constructor
  · rintro ⟨_,⟨⟨i,⟨range,shared⟩,rfl⟩,defined⟩,rfl,rfl⟩
    exact ⟨i,by omega,by omega,shared,defined,rfl,(linking.address_eq (bound (by omega))).symm⟩
  · rintro ⟨i,positive,below,shared,defined,rfl,rfl⟩
    exact ⟨_,⟨⟨i,⟨by omega,shared⟩,rfl⟩,defined⟩,rfl,linking.address_eq (bound below)⟩

theorem exported (positive : 0 < i)
    (below : i < after.symbolCount after.symtab) (shared : (after.symbol after.symtab i).isLocal = false)
    (unique : ∀ j, 0 < j → j < after.symbolCount after.symtab → (after.symbol after.symtab j).isLocal = false →
      after.symbolName after.symtab j = after.symbolName after.symtab i → j = i) :
    image.symbol? (after.symbolName after.symtab i) =
      if (after.symbol after.symtab i).index = undef then none else some (symbolAddress after i) := by
  rw [Image.symbol?]
  split
  next undefined =>
    rw [lookup_eq_none_iff]
    rintro ⟨name,address⟩ member
    obtain ⟨j,positive',below',shared',defined,rfl,rfl⟩ := linking.mem_symbols.mp (mem_reverse.mp member)
    rw [bne_iff_ne]
    intro same
    obtain rfl := unique j positive' below' shared' same.symm
    exact defined undefined
  next defined =>
    apply lookup_of_unique
    · exact mem_reverse.mpr (linking.mem_symbols.mpr ⟨i,positive,below,shared,defined,rfl,rfl⟩)
    · intro other member
      obtain ⟨j,positive',below',shared',_,same,rfl⟩ := linking.mem_symbols.mp (mem_reverse.mp member)
      rw [unique j positive' below' shared' same]

/-! ## Ranges -/

end Linking
end OnePass.Link
