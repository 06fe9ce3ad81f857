import OnePass.Proofs.ObjectBytes

/-! # Reading an object file back

The headers, names, contents and tables that are read from a written file are those that were written. -/
namespace OnePass.Elf.ObjectFile

open List Bytes Elf.Symbol UInt32
open SectionType (extendedIndex nobits rel strtab symtab)
open Option (getD_some map_some some)

variable {arena : Arena} {strings hash id : SectionId}

def fileOf (arena : Arena) : File where
  data := bytes arena
  type := File.typeRelocatable
  sections := ((headers arena).map Header.read).toArray
  names := some ((nameStage arena).1,(nameStage arena).1 + (namePool arena).bytes.size)

section FileHeader

theorem fileHeader_fields (at_ : BytesAt data 0 (fileHeader a b c)) (wide : a < 2 ^ 64) :
    readLE data 4 1 = 2 ∧ readLE data 5 1 = 1 ∧ readLE data 6 1 = 1 ∧ readLE data 16 2 = 1 ∧ readLE data 18 2 = 62 ∧
      readLE data 40 8 = a ∧ readLE data 58 2 = 64 ∧ readLE data 60 2 = (if b < 0xff00 then b else 0) ∧
      readLE data 62 2 = (if c < 0xff00 then c else 0xffff) ∧
      (data.extract 0 4).toList = File.elfMagic := by
  have magic := (at_.slice 0 4).extract
  simp (disch := omega) only [at_.readLE_slice (length_fileHeader a b c)]
  refine ⟨rfl,rfl,rfl,rfl,rfl,?_,?_,?_,?_,magic⟩
  all_goals
    simp [fileHeader,show SectionIndex.reserved.toNat = 0xff00 from rfl,drop_append,drop_of_length_le,take_of_length_le,
      toNatLE_ofNatLE]
  · omega
  · split <;> omega
  · split <;> omega

end FileHeader

theorem read_headers (items : List Header) (stands : Stands data start (items.flatMap Header.encode).toArray) :
    (Array.range items.length).map (fun i => SectionHeader.decode data (start + i * SectionHeader.recordSize)) =
      (items.map Header.read).toArray := by
  rw [← toArray_range,map_toArray,
    stands.bytes.records (fun header _ => header.length_encode) fun _ _ => Header.decode_eq]

theorem last_at (parts : Parts arena) : (headers arena)[(slots arena).length + 1]? = some (lastHeader arena) := by
  have count := parts.count
  rw [headers,length_cons,length_append,length_singleton] at count
  rw [headers,getElem?_cons_succ,getElem?_append_right (by omega)]
  rw [show (slots arena).length - _ = 0 from Nat.sub_eq_zero_of_le (by omega)]
  rfl

/-- A written file is read as what was written. -/
theorem parse_bytes (formed : arena.Formed strings hash) (fits : arena.Fits) :
    File.parse (bytes arena) = .ok (fileOf arena) := by
  have parts := parts formed fits
  have few := length_slots formed
  have count := fits.count
  rw [show SectionIndex.reserved.toNat = 0xff00 from rfl] at count
  have inside := parts.table.inside
  have behind := parts.table.behind
  rw [size_table,parts.count] at inside
  have size := parts.size
  obtain ⟨class_,order_,version,type,machine,start,entry,total,names,magic⟩ :=
    fileHeader_fields parts.header (by omega)
  have read : File.readSections (bytes arena) = .ok ((headers arena).map Header.read).toArray := by
    rw [File.readSections,start,if_neg (by omega)]
    have counted : File.sectionCount (bytes arena) (headerStage arena).1 = .ok ((slots arena).length + 2) := by
      rw [File.sectionCount,total]
      simp only [bind,Except.bind,pure,Except.pure]
      by_cases room : (slots arena).length + 2 < 0xff00
      · rw [if_pos room,if_pos (by omega)]
      · -- The file header has no room for the count, and it stands in the first header.
        have first : SectionHeader.decode (bytes arena) (headerStage arena).1 = (nullHeader arena).read := by
          have table : BytesAt _ _ ((nullHeader arena).encode ++ _) := parts.table.bytes
          exact Header.decode_eq (BytesAt.append_iff.mp table).1
        rw [if_neg room,if_neg (by omega),if_neg (by rw [entry]; decide),
          if_neg (by rw [SectionHeader.recordSize]; omega),first]
        have size : (nullHeader arena).read.size = UInt64.ofNat ((slots arena).length + 2) :=
          congrArg UInt64.ofNat (if_neg room)
        rw [size,UInt64.toNat_ofNat_of_lt' (show _ < 2 ^ 64 by omega)]
    rw [counted]
    simp only [bind,Except.bind,pure,Except.pure]
    rw [if_neg (by omega),if_neg (by rw [entry]; decide),if_neg (by rw [SectionHeader.recordSize]; omega),
      ← parts.count,read_headers _ parts.table]
  have named : File.readNames (bytes arena) ((headers arena).map Header.read).toArray =
      .ok (some ((nameStage arena).1,(nameStage arena).1 + (namePool arena).bytes.size)) := by
    have first : ((headers arena).map Header.read).toArray[0]? = some (nullHeader arena).read := rfl
    have last : ((headers arena).map Header.read).toArray[(slots arena).length + 1]? = some (lastHeader arena).read := by
      rw [getElem?_toArray,getElem?_map,last_at parts,map_some]
    have place := parts.names.inside
    obtain ⟨offset,extent⟩ : _ = (nameStage arena).1 ∧ _ = (namePool arena).bytes.size :=
      (lastHeader arena).read_place (lt_of_le_of_lt place size)
    rw [File.readNames,first]
    simp only [names]
    rw [if_pos (show (slots arena).length + 1 < 0xff00 by omega),
      if_neg (show ¬(slots arena).length + 1 = 0xffff by omega),if_neg (by omega),last]
    simp only [offset,extent]
    have kind : ¬((lastHeader arena).read.type == nobits) = true :=
      show ¬(strtab == nobits) = true by decide
    rw [if_neg kind,if_neg (by omega)]
    rfl
  rw [File.parse]
  simp only [class_,order_,version,machine,magic,read,named,type]
  rw [if_neg (by omega),if_neg (by decide),if_neg (by omega)]
  rfl

theorem textAt_eq (stands : Stands data start table)
    (at_ : StringAt table offset (ofString name)) (free : 0 ∉ ofString name) :
    File.textAt data (some (start,start + table.size)) offset = name := by
  have bound := at_.bound
  have inside := stands.inside
  have here : StringAt data (start + offset) (ofString name) := by
    intro i below
    rw [add_assoc,stands.bytes (offset + i) (by simp at below ⊢; omega),Array.getElem?_toList]
    exact at_ i below
  have found : untilZero data (start + table.size - (start + offset)) (start + offset) = ofString name :=
    here.untilZero_eq free (by omega)
  simp only [File.textAt,File.stringAt?]
  rw [if_pos (by simp; omega),found,if_pos (by omega),Option.bind_some,Utf8.decode?_ofString,getD_some]

/-- The header of a numbered section, and where the pieces it may name stand. -/
structure Describes (arena : Arena) (id : SectionId) (head : Header) : Prop where
  written : ∃ contents relocs, head = header arena ((id,slotOf arena (order arena) id),contents,relocs) ∧
    Stands (bytes arena) contents (contentsPiece arena id (slotOf arena (order arena) id)).2 ∧
    Stands (bytes arena) relocs (relocationsPiece id (slotOf arena (order arena) id)).2
  known : id ∈ arena.numbered

theorem headers_describe (parts : Parts arena) : ∃ items : List (SectionId × Header),
    items.map Prod.fst = arena.numbered ∧ headers arena = nullHeader arena :: (items.map Prod.snd ++ [lastHeader arena]) ∧
      ∀ item ∈ items, Describes arena item.1 item.2 := by
  have count := parts.count
  rw [headers,length_cons,length_append,length_singleton,length_map] at count
  refine ⟨((slots arena).zip ((contentStage arena).1.zip (relocStage arena).1)).map fun part => (part.1.1,header arena part),
    ?_,by rw [map_map]; rfl,fun item member => ?_⟩
  · have ids : (slots arena).map Prod.fst = arena.numbered := by
      rw [slots,map_map]
      exact map_id _
    have first : ((slots arena).zip ((contentStage arena).1.zip (relocStage arena).1)).map Prod.fst = slots arena := by
      rw [length_zip] at count
      exact map_fst_zip (by omega)
    have firsts := congrArg (map Prod.fst) first
    rw [ids,map_map] at firsts
    rwa [map_map]
  · obtain ⟨⟨⟨id,slot⟩,contents,relocs⟩,inside,rfl⟩ := mem_map.mp member
    obtain ⟨k,found⟩ := getElem?_of_mem inside
    obtain ⟨slotAt,offsets⟩ := getElem?_zip_eq_some.mp found
    obtain ⟨contentsAt,relocsAt⟩ := getElem?_zip_eq_some.mp offsets
    obtain ⟨numbered,rfl⟩ := slots_at slotAt
    obtain ⟨contents',at_,stands⟩ := parts.contents k _ _ slotAt
    obtain ⟨relocs',at_',stands'⟩ := parts.relocations k _ _ slotAt
    obtain rfl : contents' = contents := some.inj (at_.symm.trans contentsAt)
    obtain rfl : relocs' = relocs := some.inj (at_'.symm.trans relocsAt)
    exact ⟨⟨contents',relocs',rfl,stands,stands'⟩,mem_of_getElem? numbered⟩

section Kinds

variable {head : Header}

theorem header_name (slot : Slot) (contents relocs : Nat) :
    (header arena ((id,slot),contents,relocs)).name = (namePool arena).offset (headerName arena id slot) := by
  cases slot <;> rfl

theorem Describes.name (describes : Describes arena id head) (formed : arena.Formed strings hash) (fits : arena.Fits)
    (free : 0 ∉ ofString (arena.get id).name) : (fileOf arena).sectionName head.read = (arena.get id).name := by
  obtain ⟨⟨contents,relocs,rfl,_,_⟩,known⟩ := describes
  have text := headerName_eq formed known
  have at_ : StringAt (namePool arena).bytes ((namePool arena).offset (ofString (arena.get id).name))
      (ofString (arena.get id).name) := by
    rw [namePool_eq formed]
    exact StringPool.stringAt_offset (mem_cons_of_mem _ (mem_map.mpr ⟨id,known,rfl⟩))
  have offset : (header arena ((id,slotOf arena (order arena) id),contents,relocs)).read.name.toNat =
      (namePool arena).offset (ofString (arena.get id).name) := by
    have bound := at_.bound
    have small := size_namePool formed fits
    simp only [Header.read,header_name,text,toNat_ofNat']
    omega
  have read := textAt_eq (parts formed fits).names at_ free
  rw [File.sectionName,offset]
  simp only [fileOf,read]

structure ReadsContent (file : File) (sec : Section) (head : SectionHeader) : Prop where
  type : head.type = sec.type
  flags : head.flags = sec.flags.toUInt64
  size : head.size.toNat = sec.size
  align : head.align = 32
  name : file.sectionName head = sec.name
  bytes : file.contents head = .ok sec.contents

theorem slice?_stands (stands : Stands data start piece) : slice? data start piece.size = some piece := by
  rw [slice?,if_pos stands.inside]
  congr 1
  apply Array.toList_inj.mp
  have whole := stands.bytes.extract
  rwa [Array.length_toList] at whole

section

variable (stands : Stands (bytes arena) head.offset piece) (size : head.size = piece.size)
  (limit : (bytes arena).size < 2 ^ 64) (stored : (head.type == nobits) = false)

include stands size limit stored

/-- What a header names is read where it stands. -/
theorem contents_stands : (fileOf arena).contents head.read = .ok piece := by
  obtain ⟨offset,extent⟩ := head.read_place (by have := stands.inside; omega)
  have slice := slice?_stands stands
  rw [File.contents,if_neg (by simp [Header.read,stored]),offset,extent,size]
  simp only [fileOf,slice]

theorem records_stands (full : piece.size % width = 0) : (fileOf arena).records head.read width = .ok piece := by
  rw [File.records,contents_stands stands size limit stored]
  exact if_pos full

end

theorem Describes.content (describes : Describes arena id head) (formed : arena.Formed strings hash) (fits : arena.Fits)
    (member : id ∈ arena.allocated) : ReadsContent (fileOf arena) (arena.get id) head.read := by
  have content := formed.content id member
  have small := fits.sizes id describes.known
  have name := describes.name formed fits content.name
  have whole := (formed.whole id member).1
  obtain ⟨⟨contents,relocs,rfl,stands,_⟩,known⟩ := describes
  rw [slotOf_content formed member] at stands name ⊢
  have size : (header arena ((id,.contents),contents,relocs)).read.size.toNat = (arena.get id).size := by
    simp only [header,Header.read,UInt64.toNat_ofNat']
    omega
  have type : ((header arena ((id,.contents),contents,relocs)).read.type == nobits) =
      (arena.get id).isNobits := rfl
  refine ⟨rfl,rfl,size,?_,name,?_⟩
  · simp only [header,content.align]
    rfl
  · cases kind : (arena.get id).isNobits with
    | true =>
      rw [File.contents,if_pos (type.trans kind),Section.contents,(Section.whole_iff kind).mp whole,Array.extract_empty]
    | false =>
      simp only [contentsPiece,kind] at stands
      exact contents_stands stands (whole.backed kind).size_contents.symm (parts formed fits).size kind

structure ReadsRelocations (file : File) (number : Nat) (rels : List Relocation) (head : SectionHeader) : Prop where
  type : head.type = SectionType.rela
  flags : head.flags = 0
  info : head.info.toNat = number
  records : ∃ bytes, file.records head Relocation.recordSize = .ok bytes ∧ Relocation.decodeAll bytes = rels

section

variable (formed : arena.Formed strings hash)

include formed

theorem Describes.relocations (describes : Describes arena rela head) (fits : arena.Fits)
    (member : id ∈ arena.allocated) (found : (arena.get id).reloc = some rela) :
    ReadsRelocations (fileOf arena) (arena.get id).number ((arena.relocations id).map (renumber (order arena))) head.read := by
  have table := formed.relocs id member rela found
  obtain ⟨⟨contents,relocs,rfl,_,stands⟩,known⟩ := describes
  rw [slotOf_rela formed member found] at stands ⊢
  have length := length_flatMap_width Relocation.encode Relocation.recordSize
    ((arena.relocations id).map (renumber (order arena))) fun rel _ => rel.length_encode
  have number := fits.number_lt formed (mem_filter.mp member).1
  refine ⟨rfl,?_,?_,_,?_,Relocation.decodeAll_flatMap _⟩
  · simp only [header,table.flags]
    rfl
  · simp only [header,Header.read,table.info,toNat_ofNat']
    omega
  · generalize (arena.relocations id).map (renumber (order arena)) = rels at stands length ⊢
    have size : rels.length * 24 = (rels.flatMap Relocation.encode).toArray.size := by
      rw [size_toArray,length,mul_comm]
      rfl
    refine records_stands stands size (parts formed fits).size (by decide : (SectionType.rela == _) = false) ?_
    rw [size_toArray,length,Nat.mul_mod_right]

theorem Describes.flags (describes : Describes arena id head) (absent : id ∉ arena.allocated) :
    head.read.flags = 0 := by
  obtain ⟨⟨contents,relocs,rfl,_,_⟩,known⟩ := describes
  rcases formed.kinds id known with content | rfl | rfl | ⟨target,content,found⟩
  · exact absurd content absent
  · rw [slotOf_symtab]
    rfl
  · rw [slotOf_strings formed]
    rfl
  · have table := formed.relocs target content id found
    rw [slotOf_rela formed content found]
    simp only [header,table.flags]
    rfl

theorem Describes.types (describes : Describes arena id head) :
    (head.read.type = symtab ↔ id = arena.symtab) ∧ head.read.type ≠ extendedIndex ∧
      head.read.type ≠ rel ∧
      (head.read.type = SectionType.rela → ∃ target ∈ arena.allocated, (arena.get target).reloc = some id) := by
  obtain ⟨⟨contents,relocs,rfl,_,_⟩,known⟩ := describes
  have plain {type : UInt32} {id : SectionId} {P : Prop} (other : type ∉ [symtab, extendedIndex,
      rel, SectionType.rela]) (apart : id ≠ arena.symtab) : (type = symtab ↔ id = arena.symtab) ∧
      type ≠ extendedIndex ∧ type ≠ rel ∧ (type = SectionType.rela → P) := by
    simp only [mem_cons,not_or] at other
    simp [other,apart]
  rcases formed.kinds id known with content | rfl | rfl | ⟨target,content,found⟩
  · have apart := (formed.content_apart content).1
    rw [slotOf_content formed content]
    simp only [header,Header.read]
    refine plain ?_ apart
    rcases (formed.content id content).kind with is | is <;> rw [is] <;> decide
  · rw [slotOf_symtab]
    simp only [header,Header.read]
    exact ⟨trivial,by decide,by decide,fun same => absurd same (by decide)⟩
  · have apart := formed.tabled.named.strings_ne
    rw [slotOf_strings formed]
    simp only [header,Header.read]
    exact plain (by decide) apart
  · have apart := (formed.rela_apart content found).1
    rw [slotOf_rela formed content found]
    simp only [header,Header.read]
    exact ⟨⟨fun same => absurd same (by decide),fun same => absurd same apart⟩,by decide,by decide,
      fun _ => ⟨target,content,found⟩⟩

theorem section_at (fits : arena.Fits) (member : id ∈ arena.numbered) :
    ∃ head, Describes arena id head ∧ (fileOf arena).sections.toList[(arena.get id).number]? = some head.read := by
  obtain ⟨k,positive,at_,number,_⟩ := formed.numbered_at member
  obtain ⟨items,ids,eq,all⟩ := headers_describe (parts formed fits)
  obtain ⟨j,rfl⟩ : ∃ j, k = j + 1 := ⟨k - 1,by omega⟩
  have found : arena.numbered[j]? = some id := by
    rwa [Arena.numbered,List.getElem?_drop,Array.getElem?_toList,add_comm]
  rw [← ids,List.getElem?_map,Option.map_eq_some_iff] at found
  obtain ⟨item,found,rfl⟩ := found
  have bound := (List.getElem?_eq_some_iff.mp found).1
  refine ⟨item.2,all item (List.mem_of_getElem? found),?_⟩
  simp only [fileOf,eq,number,List.getElem?_cons_succ,List.getElem?_map]
  rw [List.getElem?_append_left (by simpa using bound),List.getElem?_map,found,map_some,map_some]

theorem section_cases (fits : arena.Fits) (at_ : (fileOf arena).sections.toList[j]? = some x) :
    x = (nullHeader arena).read ∨ (∃ id head, Describes arena id head ∧ (arena.get id).number = j ∧ x = head.read) ∨
      x = (lastHeader arena).read := by
  obtain ⟨items,ids,eq,all⟩ := headers_describe (parts formed fits)
  simp only [fileOf,eq,getElem?_map] at at_
  cases j with
  | zero =>
    exact Or.inl (some.inj at_).symm
  | succ j =>
    rw [getElem?_cons_succ] at at_
    by_cases below : j < items.length
    · have found := getElem?_eq_getElem below
      rw [getElem?_append_left (by simpa using below),getElem?_map,found] at at_
      have listed : arena.listed[1 + j]? = some items[j].1 := by
        rw [← Array.getElem?_toList,← getElem?_drop]
        change arena.numbered[j]? = _
        rw [← ids,getElem?_map,found,map_some]
      have number := (formed.numbers _ _ listed).2
      exact Or.inr (Or.inl ⟨_,_,all _ (mem_of_getElem? found),by omega,(some.inj at_).symm⟩)
    · rw [getElem?_append_right (by simpa using below)] at at_
      have last : j - (items.map Prod.snd).length = 0 := by
        cases index : j - (items.map Prod.snd).length with
        | zero => rfl
        | succ k =>
          rw [index] at at_
          cases at_
      rw [last] at at_
      exact Or.inr (Or.inr (some.inj at_).symm)

end

end Kinds

/-! ## Symbols -/

def writtenSymbol (arena : Arena) (old : Nat) : Symbol :=
  if old == 0 then {}
  else
    let name := arena.symbolName arena.symtab old
    { arena.symbol arena.symtab old with
      nameOffset := ofNat (if name.isEmpty then 0 else (symbolPool arena).offset (ofString name)) }

theorem symbolRecord_eq (old : Nat) : symbolRecord arena (symbolPool arena) old = (writtenSymbol arena old).encode := by
  rw [symbolRecord,writtenSymbol]
  split
  · decide
  · rfl

def viewOf (arena : Arena) : File.SymbolView where
  symbols := (order arena).map (writtenSymbol arena)
  strings := some ((stringStage arena).1,(stringStage arena).1 + (symbolPool arena).bytes.size)

theorem written_name (formed : arena.Formed strings hash) (fits : arena.Fits) (positive : 0 < old)
    (below : old < arena.symbolCount arena.symtab) :
    File.textAt (bytes arena) (viewOf arena).strings (writtenSymbol arena old).nameOffset.toNat =
      arena.symbolName arena.symtab old := by
  have parts := parts formed fits
  have free := (formed.tabled.named.names old below).2
  have small : (symbolPool arena).bytes.size < 2 ^ 32 :=
    lt_of_le_of_lt (size_symbolPool formed) (fits.sizes _ formed.tables.2)
  have at_ : StringAt (symbolPool arena).bytes (if (arena.symbolName arena.symtab old).isEmpty then 0 else
      (symbolPool arena).offset (ofString (arena.symbolName arena.symtab old)))
      (ofString (arena.symbolName arena.symtab old)) := by
    split
    next empty =>
      rw [Arena.isEmpty_iff_ofString.mp empty]
      intro i below
      obtain rfl : i = 0 := by simp at below; omega
      exact (StringPool.stored_ofStrings _).zero
    next named =>
      refine StringPool.stringAt_offset (mem_filter.mpr ⟨mem_map.mpr ⟨old,?_,rfl⟩,?_⟩)
      · rw [mem_filter,mem_order]
        exact ⟨below,by simp; omega⟩
      · rw [Arena.isEmpty_iff_ofString] at named
        simpa using named
  have bound := at_.bound
  have offset : (writtenSymbol arena old).nameOffset.toNat = if (arena.symbolName arena.symtab old).isEmpty then 0 else
      (symbolPool arena).offset (ofString (arena.symbolName arena.symtab old)) := by
    rw [writtenSymbol,if_neg (by simp; omega)]
    simp only [toNat_ofNat']
    omega
  rw [offset]
  exact textAt_eq parts.strings at_ free

theorem read_symbols (arena : Arena) (old : List Nat) :
    (range ((old.flatMap (symbolRecord arena (symbolPool arena))).toArray.size / recordSize)).map
      (fun i => decode (old.flatMap (symbolRecord arena (symbolPool arena))).toArray (i * recordSize)) =
        old.map (writtenSymbol arena) := by
  have width i (_ : i ∈ old) : (symbolRecord arena (symbolPool arena) i).length = recordSize :=
    length_symbolRecord _ i
  have read := (BytesAt.toArray _).records width fun old _ at_ => decode_eq (symbolRecord_eq old ▸ at_)
  rw [size_toArray,length_flatMap_width _ _ old width,Nat.mul_div_cancel_left _ (by decide)]
  simpa using read

theorem forM_ok {α ε : Type} {f : α → Except ε Unit} {items : List α} (each : ∀ a ∈ items, f a = .ok ()) :
    items.forM f = .ok () := by
  induction items with
  | nil => rfl
  | cons first rest ih =>
    rw [forM_eq_forM,forM_cons,each first mem_cons_self]
    exact ih fun a member => each a (mem_cons_of_mem _ member)

theorem symbols_eq (formed : arena.Formed strings hash) (fits : arena.Fits) :
    (fileOf arena).symbols symtab = .ok (viewOf arena) := by
  have parts := parts formed fits
  have limit := parts.size
  obtain ⟨table,tableHead,tableAt⟩ := section_at formed fits formed.tables.1
  obtain ⟨texts,textsHead,textsAt⟩ := section_at formed fits formed.tables.2
  obtain ⟨k,positive,_,number,_⟩ := formed.numbered_at formed.tables.2
  have small := fits.number_lt formed formed.tables.2
  have index : (fileOf arena).sections.toList.findIdx? (·.type == symtab) =
      some (arena.get arena.symtab).number := by
    obtain ⟨bound,here⟩ := List.getElem?_eq_some_iff.mp tableAt
    refine findIdx?_eq_some_iff_getElem.mpr ⟨bound,?_,fun j before => ?_⟩
    · rw [here]
      simpa using (tableHead.types formed).1.mpr rfl
    · rcases section_cases formed fits (getElem?_eq_getElem (lt_trans before bound)) with
        eq | ⟨id,head,describes,at_,eq⟩ | eq
      · rw [eq]
        exact show ¬(0 == symtab) = true by decide
      · rw [eq,beq_iff_eq,(describes.types formed).1]
        rintro rfl
        omega
      · rw [eq]
        exact show ¬(strtab == symtab) = true by decide
  have extended : (fileOf arena).sections.toList.forM (fun other =>
      if other.type == extendedIndex && other.link.toNat = (arena.get arena.symtab).number then
        (fun _ => ()) <$> File.orElse .extendedIndexData ((fileOf arena).records other 4)
      else pure ()) = .ok () := by
    refine forM_ok fun other member => ?_
    have kind : other.type ≠ extendedIndex := by
      obtain ⟨j,at_⟩ := getElem?_of_mem member
      rcases section_cases formed fits at_ with eq | ⟨id,head,describes,_,eq⟩ | eq
      · rw [eq]
        exact show 0 ≠ extendedIndex by decide
      · rw [eq]
        exact (describes.types formed).2.1
      · rw [eq]
        exact show strtab ≠ extendedIndex by decide
    rw [if_neg (by simp [kind])]
    rfl
  obtain ⟨⟨contents,relocs,rfl,_,_⟩,_⟩ := tableHead
  obtain ⟨⟨contents',relocs',rfl,_,_⟩,_⟩ := textsHead
  rw [slotOf_symtab] at tableAt
  rw [slotOf_strings formed] at textsAt
  have inside' := parts.strings.inside
  have link : (header arena ((arena.symtab,.symbols),contents,relocs)).read.link.toNat = (arena.get strings).number := by
    simp only [header,Header.read,formed.tabled.named.link,map_some,getD_some,toNat_ofNat']
    omega
  have records : (fileOf arena).records (header arena ((arena.symtab,.symbols),contents,relocs)).read recordSize =
      .ok (symbolBytes arena) := by
    refine records_stands parts.symbols rfl limit (by decide : (symtab == _) = false) ?_
    rw [size_symbolBytes formed,formed.tabled.named.whole,Nat.mul_mod_left]
  have texts : (fileOf arena).stringSection (arena.get strings).number =
      .ok (some ((stringStage arena).1,(stringStage arena).1 + (symbolPool arena).bytes.size)) := by
    obtain ⟨offset,size⟩ : _ = (stringStage arena).1 ∧ _ = (symbolPool arena).bytes.size :=
      (header arena ((strings,.strings),contents',relocs')).read_place (lt_of_le_of_lt inside' limit)
    have kind : ¬((header arena ((strings,.strings),contents',relocs')).read.type != strtab) = true :=
      show ¬(strtab != strtab) = true by decide
    rw [File.stringSection,if_neg (by omega),← Array.getElem?_toList,textsAt]
    simp only [offset,size]
    rw [if_neg kind,if_neg (by omega)]
    rfl
  rw [File.symbols,index]
  simp only
  rw [← Array.getElem?_toList,tableAt]
  have kept : File.orElse .symbolData ((fileOf arena).records
      (header arena ((arena.symtab,.symbols),contents,relocs)).read recordSize) = .ok (symbolBytes arena) := by
    rw [records]
    rfl
  simp only [kept,link,texts,extended,bind,Except.bind]
  have read := read_symbols arena (order arena)
  simp only [symbolBytes,read]
  rfl

end OnePass.Elf.ObjectFile
