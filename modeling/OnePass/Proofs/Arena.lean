import OnePass.Elf.SymbolTable
import OnePass.Proofs.Bytes

/-! # Laws of the section arena

Reading a section after an update, and reading a record after it was written. An update touches one
section and none of the lists that number the sections. -/

variable {offset : Nat}
namespace OnePass.Elf

open List Elf.Symbol Section

namespace Arena

variable {arena : Arena} {id other : SectionId}

@[simp] theorem update_listed : (arena.update id f).listed = arena.listed := rfl
@[simp] theorem update_unlisted : (arena.update id f).unlisted = arena.unlisted := rfl
@[simp] theorem update_text : (arena.update id f).text = arena.text := rfl
@[simp] theorem update_data : (arena.update id f).data = arena.data := rfl
@[simp] theorem update_bss : (arena.update id f).bss = arena.bss := rfl
@[simp] theorem update_symtab : (arena.update id f).symtab = arena.symtab := rfl
@[simp] theorem update_dynsymtab : (arena.update id f).dynsymtab = arena.dynsymtab := rfl

@[simp] theorem update_size : (arena.update id f).sections.size = arena.sections.size := by
  simp [update]

theorem get_update_same (bound : id < arena.sections.size) : (arena.update id f).get id = f (arena.get id) := by
  simp [get,update,Array.getElem?_modify,Array.getElem?_eq_getElem bound]

@[simp] theorem get_update_other (apart : other ≠ id) : (arena.update id f).get other = arena.get other := by
  simp [get,update,Array.getElem?_modify,Ne.symm apart]

theorem get_outside (outside : arena.sections.size ≤ id) : arena.get id = {} := by
  simp [get,outside]

theorem get_update (f : Section → Section) (id other : SectionId) : (arena.update id f).get other =
      if other = id ∧ id < arena.sections.size then f (arena.get id) else arena.get other := by
  by_cases same : other = id
  · subst same
    by_cases bound : other < arena.sections.size
    · rw [get_update_same bound,if_pos ⟨rfl,bound⟩]
    · rw [get_outside (by simpa using bound),get_outside (by simpa using bound),if_neg (fun h => bound h.2)]
  · rw [get_update_other same,if_neg (fun h => same h.1)]

theorem get_update_congr {α : Type} (view : Section → α) (keep : view (f (arena.get id)) = view (arena.get id)) :
    view ((arena.update id f).get other) = view (arena.get other) := by
  rw [get_update]
  split
  next h => rw [keep,h.1]
  next => rfl

theorem get_update_rel {r : Section → Section → Prop} (refl : ∀ sec, r sec sec)
    (step : r (arena.get id) (f (arena.get id))) (other : SectionId) :
    r (arena.get other) ((arena.update id f).get other) := by
  rw [get_update]
  split
  next same => exact same.1 ▸ step
  next => exact refl _

theorem size_le_update (longer : (arena.get id).size ≤ (f (arena.get id)).size) (other : SectionId) :
    (arena.get other).size ≤ ((arena.update id f).get other).size :=
  get_update_rel (r := (·.size ≤ ·.size)) (fun _ => Nat.le_refl _) longer other

theorem update_update (arena : Arena) (id : SectionId) (f g : Section → Section) :
    (arena.update id f).update id g = arena.update id (g ∘ f) := by
  simp only [update]
  congr 1
  apply Array.ext_getElem?
  intro i
  simp only [Array.getElem?_modify]
  split <;> simp

theorem update_const (arena : Arena) (id : SectionId) (f : Section → Section) :
    (arena.update id fun _ => f (arena.get id)) = arena.update id f := by
  simp only [update]
  congr 1
  apply Array.ext_getElem?
  intro i
  simp only [Array.getElem?_modify]
  split
  next same =>
    subst same
    cases found : arena.sections[id]? <;> simp [get,found]
  next => rfl

theorem update_self (arena : Arena) (same : f (arena.get id) = arena.get id) : arena.update id f = arena := by
  have sections : arena.sections.modify id f = arena.sections := by
    apply Array.ext_getElem?
    intro i
    rw [Array.getElem?_modify]
    split
    next here =>
      subst here
      cases found : arena.sections[id]? with
      | none => rfl
      | some sec =>
        simp only [get,found,Option.getD_some] at same
        rw [Option.map_some,same]
    next => rfl
  rw [update,sections]

theorem allocated_bound (member : id ∈ arena.allocated) : id < arena.sections.size := by
  simp only [allocated,mem_filter] at member
  apply Classical.byContradiction
  intro outside
  have flags := member.2
  rw [get_outside (Nat.not_lt.mp outside)] at flags
  simp [isAllocated] at flags

theorem allocated_listed (member : id ∈ arena.allocated) : id ∈ arena.listed.toList :=
  mem_of_mem_drop (mem_filter.mp member).1

theorem allocated_nodup (distinct : arena.listed.toList.Nodup) : arena.allocated.Nodup :=
  (distinct.sublist (drop_sublist 1 _)).filter _

theorem allocated_length : arena.allocated.length ≤ arena.listed.size := by
  have kept := length_filter_le (fun id => (arena.get id).isAllocated) arena.numbered
  have dropped : arena.numbered.length ≤ arena.listed.size := by simp [numbered]
  exact Nat.le_trans kept dropped

theorem allocated_congr {after : Arena} (listed : after.listed = arena.listed)
    (flags : ∀ id, (after.get id).flags = (arena.get id).flags) : after.allocated = arena.allocated := by
  simp only [allocated,numbered,isAllocated,listed,flags]

end Arena

/-! ## Symbol records -/

namespace Symbol

@[simp] theorem length_encode (sym : Symbol) : sym.encode.length = recordSize := by
  simp [encode,recordSize]

theorem decode_eq (at_ : BytesAt data offset sym.encode) : decode data offset = sym := by
  simp (disch := omega) only [decode,at_.readLE_slice (show sym.encode.length = 24 from sym.length_encode)]
  simp [encode,drop_append,drop_of_length_le,take_of_length_le,Bytes.toNatLE]

theorem decode_congr {other : Array UInt8}
    (same : ∀ i < recordSize, data[offset + i]? = other[offset + i]?) : decode data offset = decode other offset := by
  simp (disch := omega) only [decode,readLE_within (show ∀ i < 24, data[offset + i]? = _ from same)]

theorem decode_frame (data : Array UInt8) (offset at_ : Nat) (bytes : Bytes)
    (apart : at_ + recordSize ≤ offset ∨ offset + bytes.length ≤ at_) :
    decode (overwrite data offset bytes) at_ = decode data at_ :=
  decode_congr fun i below => overwrite_frame _ _ _ _ (by omega)

end Symbol

/-! ## Relocation records -/

namespace Relocation

@[simp] theorem length_encode (rel : Relocation) : rel.encode.length = recordSize := by
  simp [encode,recordSize]

theorem decode_eq (at_ : BytesAt data offset rel.encode) : decode data offset = rel := by
  simp (disch := omega) only [decode,at_.readLE_slice (show rel.encode.length = 24 from rel.length_encode)]
  simp [encode,drop_append,drop_of_length_le,take_of_length_le]

theorem decode_append (more : Array UInt8)
    (inside : offset + recordSize ≤ data.size) : decode (data ++ more) offset = decode data offset := by
  have same i (below : i < 24) : (data ++ more)[offset + i]? = data[offset + i]? :=
    Array.getElem?_append_left (by simp only [recordSize] at inside; omega)
  simp (disch := omega) only [decode,readLE_within same]

theorem decodeAll_append (full : data.size % recordSize = 0) (rel : Relocation) :
    decodeAll (data ++ rel.encode.toArray) = decodeAll data ++ [rel] := by
  have size : (data ++ rel.encode.toArray).size = data.size + recordSize := by simp
  have whole := Nat.div_mul_cancel (Nat.dvd_of_mod_eq_zero full)
  have old : (range (data.size / recordSize)).map (fun i => decode (data ++ rel.encode.toArray) (i * recordSize)) =
      decodeAll data := by
    refine map_congr_left fun i member => decode_append _ ?_
    have below := Nat.mul_le_mul_right recordSize (Nat.succ_le_of_lt (mem_range.mp member))
    rw [Nat.succ_mul] at below
    omega
  have last : decode (data ++ rel.encode.toArray) (data.size / recordSize * recordSize) = rel := by
    have parts := BytesAt.of_parts data #[] rel.encode
    rw [Array.append_empty] at parts
    rw [whole]
    exact decode_eq parts
  rw [decodeAll,size,Nat.add_div_right _ (by decide),range_succ,map_append,old,map_singleton,last]

theorem decodeAll_flatMap (rels : List Relocation) : decodeAll (rels.flatMap encode).toArray = rels := by
  have read := (BytesAt.toArray (rels.flatMap encode)).records (fun rel _ => rel.length_encode) fun _ _ => decode_eq
  rw [decodeAll,size_toArray,length_flatMap_width encode recordSize rels fun rel _ => rel.length_encode,
    Nat.mul_div_cancel_left _ (by decide)]
  simpa using read

end Relocation

/-! ## Writing a record -/

namespace Arena

variable {arena : Arena}

@[simp] theorem setSymbol_listed : (arena.setSymbol table i sym).listed = arena.listed := rfl
@[simp] theorem setSymbol_symtab : (arena.setSymbol table i sym).symtab = arena.symtab := rfl
@[simp] theorem setSymbol_bss : (arena.setSymbol table i sym).bss = arena.bss := rfl

theorem record_room (stored : (arena.get table).size ≤ (arena.get table).store.size)
    (bound : i < arena.symbolCount table) :
    i * recordSize + recordSize ≤ (arena.get table).store.size := by
  have whole := Nat.div_mul_le_self (arena.get table).size recordSize
  have below : (i + 1) * recordSize ≤ arena.symbolCount table * recordSize :=
    Nat.mul_le_mul_right _ bound
  rw [Nat.succ_mul] at below
  unfold symbolCount at below
  omega

theorem symbol_setSymbol_same (present : table < arena.sections.size)
    (stored : (arena.get table).size ≤ (arena.get table).store.size) (bound : i < arena.symbolCount table) :
    (arena.setSymbol table i sym).symbol table i = sym := by
  rw [setSymbol,symbol,get_update_same present]
  simp only [patch]
  exact decode_eq (BytesAt.overwrite_same (by simpa using record_room stored bound))

theorem symbol_setSymbol_other (different : j ≠ i) :
    (arena.setSymbol table i sym).symbol table j = arena.symbol table j := by
  rw [setSymbol,symbol,get_update]
  split
  next =>
    simp only [patch]
    refine decode_frame _ _ _ _ ?_
    rw [length_encode,recordSize]
    omega
  next => rfl

theorem symbolCount_setSymbol (i : Nat) (sym : Symbol) :
    (arena.setSymbol table i sym).symbolCount table = arena.symbolCount table := by
  unfold setSymbol
  generalize sym.encode = bytes
  rw [symbolCount,symbolCount,get_update_congr size rfl]

end Arena

end OnePass.Elf
