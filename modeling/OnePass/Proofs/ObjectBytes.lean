import OnePass.Elf.ObjectFile
import OnePass.Elf.File
import OnePass.Proofs.ArenaGrow

/-! # The bytes of an object file

An object file is put together piece by piece behind room for its header, and nothing that was placed moves
afterwards. What the headers say about a piece is therefore true of the whole file. -/
namespace OnePass.Elf.ObjectFile

open List Bytes StringPool UInt64 Relocation Arena

variable {data piece out after : Array UInt8} {offset limit : Nat}

/-! ## Pieces -/

/-- A piece stands behind the room for the file's header. -/
structure Stands (data : Array UInt8) (offset : Nat) (piece : Array UInt8) : Prop where
  behind : 64 ≤ offset
  inside : offset + piece.size ≤ data.size
  bytes : BytesAt data offset piece.toList

theorem Stands.append (stands : Stands data offset piece) (more : Array UInt8) : Stands (data ++ more) offset piece :=
  ⟨stands.behind,by rw [Array.size_append]; have := stands.inside; omega,stands.bytes.append more⟩

theorem Stands.overwrite (stands : Stands data offset piece) (short : header.length ≤ 64) :
    Stands (OnePass.overwrite data 0 header) offset piece := by
  have behind := stands.behind
  exact ⟨behind,by rw [size_overwrite]; exact stands.inside,stands.bytes.overwrite_other (Or.inr (by omega))⟩

structure Grows (out after : Array UInt8) (limit : Nat) : Prop where
  kept : ∃ more, after = out ++ more
  size : after.size ≤ out.size + limit

theorem Grows.trans (grows : Grows out middle first)
    (more : Grows middle after second) : Grows out after (first + second) := by
  obtain ⟨a,rfl⟩ := grows.kept
  obtain ⟨b,rfl⟩ := more.kept
  refine ⟨⟨a ++ b,by rw [Array.append_assoc]⟩,?_⟩
  have := grows.size
  have := more.size
  omega

theorem Grows.stands (grows : Grows out after limit)
    (stands : Stands out offset piece) : Stands after offset piece := by
  obtain ⟨more,rfl⟩ := grows.kept
  exact stands.append more

theorem Grows.le (grows : Grows out after limit) : out.size ≤ after.size := by
  obtain ⟨more,rfl⟩ := grows.kept
  rw [Array.size_append]
  omega

theorem place_stands (out piece : Array UInt8) (align : UInt64) (behind : 64 ≤ out.size)
    (room : out.size + align.toNat < 2 ^ 64) :
    Stands (place out align piece).2 (place out align piece).1 piece ∧
      Grows out (place out align piece).2 (align.toNat + piece.size) := by
  rw [place]
  split
  next empty =>
    obtain rfl : piece = #[] := by simpa using empty
    exact ⟨⟨behind,by simp,.nil _ _⟩,⟨⟨#[],by simp⟩,by simp⟩⟩
  next =>
    have exact_ : (ofNat out.size).toNat = out.size := by
      rw [toNat_ofNat',Nat.mod_eq_of_lt (by omega)]
    have bounds := alignUp_bounds (ofNat out.size) align (by omega)
    generalize (alignUp (ofNat out.size) align).toNat = start at bounds
    have front : (out ++ Array.replicate (start - out.size) 0).size = start := by
      simp
      omega
    have at_ := BytesAt.of_parts (out ++ Array.replicate (start - out.size) 0) #[] piece.toList
    rw [front] at at_
    simp only
    refine ⟨⟨by omega,Nat.le_of_eq (by rw [Array.size_append,front]),at_⟩,⟨⟨_,Array.append_assoc ..⟩,?_⟩⟩
    rw [Array.size_append]
    omega

theorem placeSlots_stands (piece : SectionId → Slot → UInt64 × Array UInt8) (bound : Nat)
    (items : List (SectionId × Slot)) (out : Array UInt8) (behind : 64 ≤ out.size)
    (each : ∀ id slot, (id,slot) ∈ items → (piece id slot).1.toNat + (piece id slot).2.size ≤ bound)
    (room : out.size + items.length * bound < 2 ^ 64) :
    (∀ (k : Nat) id slot, items[k]? = some (id,slot) → ∃ offset, (placeSlots piece items out).1[k]? = some offset ∧
        Stands (placeSlots piece items out).2 offset (piece id slot).2) ∧
      (placeSlots piece items out).1.length = items.length ∧
      Grows out (placeSlots piece items out).2 (items.length * bound) := by
  induction items generalizing out with
  | nil =>
    refine ⟨by simp,rfl,⟨⟨#[],by simp [placeSlots]⟩,?_⟩⟩
    simp [placeSlots]
  | cons item rest ih =>
    obtain ⟨id,slot⟩ := item
    have first := each id slot mem_cons_self
    rw [length_cons,Nat.succ_mul] at room
    obtain ⟨stands,grows⟩ := place_stands out (piece id slot).2 (piece id slot).1 behind (by omega)
    have size := grows.size
    obtain ⟨later,length,grows'⟩ := ih (place out (piece id slot).1 (piece id slot).2).2
      (Nat.le_trans behind grows.le) (fun id slot member => each id slot (mem_cons_of_mem _ member)) (by omega)
    simp only [placeSlots]
    refine ⟨fun k other slot' found => ?_,by rw [length_cons,length_cons,length],?_⟩
    · cases k with
      | zero =>
        obtain ⟨rfl,rfl⟩ : id = other ∧ slot = slot' := by simpa using found
        exact ⟨_,rfl,grows'.stands stands⟩
      | succ k => exact later k other slot' (by simpa using found)
    · have both := grows.trans grows'
      refine ⟨both.kept,?_⟩
      have := both.size
      rw [length_cons,Nat.succ_mul]
      omega

/-! ## Headers -/

def Header.read (header : Header) : SectionHeader where
  name := UInt32.ofNat header.name
  type := header.type
  flags := header.flags
  offset := ofNat header.offset
  size := ofNat header.size
  link := UInt32.ofNat header.link
  info := UInt32.ofNat header.info
  align := header.align

@[simp] theorem Header.length_encode (header : Header) : header.encode.length = SectionHeader.recordSize := by
  simp [encode,SectionHeader.recordSize]

theorem Header.decode_eq {header : Header}
    (at_ : BytesAt data offset header.encode) : SectionHeader.decode data offset = header.read := by
  simp (disch := omega) only [SectionHeader.decode,
    at_.readLE_slice (show header.encode.length = 64 from header.length_encode)]
  simp [encode,read,drop_append,drop_of_length_le,toNatLE_ofNatLE]
  exact ⟨UInt32.ofNat_mod_size,ofNat_mod_size,ofNat_mod_size,UInt32.ofNat_mod_size,UInt32.ofNat_mod_size⟩

/-! ## The parts of a file -/

variable (arena : Arena)

def order : List Nat := (symbolOrder arena).1

def slots : List (SectionId × Slot) := arena.numbered.map fun id => (id, slotOf arena (order arena) id)

def symbolPool : StringPool.Pool :=
  ofStrings ((((order arena).filter (· != 0)).map fun old =>
    ofString (arena.symbolName arena.symtab old)).filter (!·.isEmpty))

def namePool : StringPool.Pool :=
  ofStrings (ofString ".shstrtab" :: (slots arena).map fun (id, slot) => headerName arena id slot)

def symbolBytes : Array UInt8 := ((order arena).flatMap (symbolRecord arena (symbolPool arena))).toArray

def contentStage : List Nat × Array UInt8 :=
  placeSlots (contentsPiece arena) (slots arena) (Array.replicate 64 0)

def symbolStage : Nat × Array UInt8 := place (contentStage arena).2 8 (symbolBytes arena)

def stringStage : Nat × Array UInt8 := place (symbolStage arena).2 1 (symbolPool arena).bytes

def relocStage : List Nat × Array UInt8 := placeSlots relocationsPiece (slots arena) (stringStage arena).2

def nameStage : Nat × Array UInt8 := place (relocStage arena).2 1 (namePool arena).bytes

def header : (SectionId × Slot) × Nat × Nat → Header
  | ((id, slot), contentOffset, relocOffset) =>
    let sec := arena.get id
    let name := (namePool arena).offset (headerName arena id slot)
    let link := (sec.link.map fun l => (arena.get l).number).getD 0
    match slot with
    | .symbols =>
      { name, type := SectionType.symtab, offset := (symbolStage arena).1, size := (symbolBytes arena).size,
        link := (((arena.get arena.symtab).link).map fun id => (arena.get id).number).getD 0,
        info := (symbolOrder arena).2, align := 8, entrySize := 24 }
    | .strings =>
      { name, type := SectionType.strtab, offset := (stringStage arena).1, size := (symbolPool arena).bytes.size }
    | .relocations records =>
      { name, type := SectionType.rela, flags := sec.flags.toUInt64, offset := relocOffset, size := records.length * 24,
        link, info := sec.info.toNat, align := 8, entrySize := 24 }
    | .contents =>
      { name, type := sec.type, flags := sec.flags.toUInt64, offset := contentOffset, size := sec.size, link,
        info := sec.info.toNat, align := max sec.align 1, entrySize := sec.entrySize }

def lastHeader : Header where
  name := (namePool arena).offset (ofString ".shstrtab")
  type := SectionType.strtab
  offset := (nameStage arena).1
  size := (namePool arena).bytes.size

def nullHeader : Header := firstHeader ((slots arena).length + 2) ((slots arena).length + 1)

def headers : List Header :=
  nullHeader arena :: (((slots arena).zip ((contentStage arena).1.zip (relocStage arena).1)).map (header arena) ++ [lastHeader arena])

def headerStage : Nat × Array UInt8 := place (nameStage arena).2 8 ((headers arena).flatMap Header.encode).toArray

theorem bytes_eq : bytes arena = overwrite (headerStage arena).2 0
    (fileHeader (headerStage arena).1 ((slots arena).length + 2) ((slots arena).length + 1)) := by
  rfl

theorem Header.read_place {head : Header} (inside : head.offset + head.size < 2 ^ 64) :
    head.read.offset.toNat = head.offset ∧ head.read.size.toNat = head.size := by
  simp only [read,toNat_ofNat']
  omega

/-! ## What the sections are written as -/

variable {arena} {strings hash id : SectionId}

theorem order_perm (arena : Arena) : (order arena).Perm (range (arena.symbolCount arena.symtab)) := by
  rw [order,symbolOrder]
  simp only [partition_eq_filter_filter]
  exact filter_append_perm _ _

theorem mem_order : i ∈ order arena ↔ i < arena.symbolCount arena.symtab := by
  rw [(order_perm arena).mem_iff,mem_range]

theorem slots_at {k : Nat} {slot : Slot} (found : (slots arena)[k]? = some (id,slot)) :
    arena.numbered[k]? = some id ∧ slot = slotOf arena (order arena) id := by
  rw [slots,getElem?_map] at found
  cases at_ : arena.numbered[k]? with
  | none =>
    rw [at_] at found
    cases found
  | some other =>
    rw [at_] at found
    obtain ⟨rfl,rfl⟩ := Prod.mk.inj (Option.some.inj found)
    exact ⟨rfl,rfl⟩

theorem slotOf_symtab : slotOf arena (order arena) arena.symtab = .symbols := by simp [slotOf]

theorem slotOf_strings (formed : arena.Formed strings hash) : slotOf arena (order arena) strings = .strings := by
  have apart := formed.tabled.named.strings_ne
  simp [slotOf,apart,formed.tabled.named.link]

theorem slotOf_content (formed : arena.Formed strings hash) (member : id ∈ arena.allocated) :
    slotOf arena (order arena) id = .contents := by
  obtain ⟨noTable,noStrings,_,_⟩ := formed.content_apart member
  have kind : (arena.get id).type ≠ SectionType.rela := by
    rcases (formed.content id member).kind with is | is
    · rw [is]
      decide
    · rw [is]
      decide
  simp [slotOf,noTable,noStrings,formed.tabled.named.link,kind]

theorem slotOf_rela (formed : arena.Formed strings hash) (member : id ∈ arena.allocated)
    (found : (arena.get id).reloc = some rela) :
    slotOf arena (order arena) rela = .relocations ((arena.relocations id).map (renumber (order arena))) := by
  obtain ⟨noTable,noStrings,_⟩ := formed.rela_apart member found
  have table := formed.relocs id member rela found
  simp [slotOf,noTable,noStrings,formed.tabled.named.link,table.type,table.link,relocations,found]

/-! ## Sizes -/

theorem length_symbolRecord (pool : StringPool.Pool) (old : Nat) :
    (symbolRecord arena pool old).length = Symbol.recordSize := by
  rw [symbolRecord]
  split
  · exact length_zeros _
  · exact Symbol.length_encode _

theorem size_symbolBytes (formed : arena.Formed strings hash) :
    (symbolBytes arena).size = (arena.get arena.symtab).size := by
  rw [symbolBytes,size_toArray,length_flatMap_width _ Symbol.recordSize _ fun old _ => length_symbolRecord _ old,
    (order_perm arena).length_eq,length_range,formed.tabled.named.whole,Nat.mul_comm]

theorem room_names (name : Nat → String) (indexes : List Nat) :
    room (((indexes.filter (· != 0)).map fun old => ofString (name old)).filter (!·.isEmpty)) ≤
      (indexes.map fun old => nameRoom (name old)).sum := by
  induction indexes with
  | nil => simp
  | cons first rest ih =>
    rw [map_cons,sum_cons,filter_cons]
    by_cases null : (first != 0) = true
    · rw [if_pos null,map_cons,filter_cons]
      by_cases empty : (ofString (name first)).isEmpty = true
      · rw [if_neg (by simpa using empty)]
        omega
      · have named : ¬(name first).isEmpty = true := fun is => empty (by simpa using isEmpty_iff_ofString.mp is)
        rw [if_pos (by simpa using empty),room_cons,nameRoom,if_neg named]
        omega
    · rw [if_neg null]
      omega

section

variable (formed : arena.Formed strings hash)

include formed

/-- Names that share their ends take no more room than they did one by one. -/
theorem size_symbolPool : (symbolPool arena).bytes.size ≤ (arena.get strings).size := by
  have written := size_ofStrings ((((order arena).filter (· != 0)).map fun old =>
    ofString (arena.symbolName arena.symtab old)).filter (!·.isEmpty))
  have names := room_names (arena.symbolName arena.symtab) (order arena)
  rw [((order_perm arena).map _).sum_nat] at names
  rw [symbolPool,formed.tabled.named.room]
  omega

theorem headerName_eq (member : id ∈ arena.numbered) :
    headerName arena id (slotOf arena (order arena) id) = ofString (arena.get id).name := by
  rcases formed.kinds id member with content | rfl | rfl | ⟨target,content,found⟩
  · rw [slotOf_content formed content,headerName]
    all_goals nofun
  · rw [slotOf_symtab,headerName,formed.table.2.2]
  · rw [slotOf_strings formed,headerName,formed.texts.2.2]
  · rw [slotOf_rela formed content found,headerName]
    all_goals nofun

theorem namePool_eq : namePool arena =
    ofStrings (ofString ".shstrtab" :: arena.numbered.map fun id => ofString (arena.get id).name) := by
  rw [namePool,slots,map_map]
  congr 2
  exact map_congr_left fun id member => headerName_eq formed member

theorem size_namePool (fits : arena.Fits) : (namePool arena).bytes.size < 2 ^ 32 := by
  have written := size_ofStrings
    (ofString ".shstrtab" :: arena.numbered.map fun id => ofString (arena.get id).name)
  have own : (ofString ".shstrtab").length = 9 := by
    rw [Utf8.ofString_eq]
    decide
  have names := fits.names
  rw [room_cons] at written
  rw [namePool_eq formed]
  omega

theorem length_slots : (slots arena).length + 1 = arena.listed.size := by
  have null := formed.null
  simp only [slots,length_map,numbered,length_drop,Array.length_toList]
  omega

theorem contentsPiece_bound (fits : arena.Fits) (member : id ∈ arena.numbered) :
    (contentsPiece arena id (slotOf arena (order arena) id)).1.toNat +
      (contentsPiece arena id (slotOf arena (order arena) id)).2.size ≤ 2 ^ 33 := by
  rcases formed.kinds id member with content | rfl | rfl | ⟨target,content,found⟩
  · have size := fits.sizes id member
    have stored : (arena.get id).contents.size ≤ (arena.get id).size := by
      rw [Section.contents,Array.size_extract]
      omega
    have align := (formed.content id content).align
    rw [slotOf_content formed content]
    simp only [contentsPiece,align]
    rw [show (max 32 1 : UInt64).toNat = 32 from rfl]
    split
    · simp
    · omega
  · rw [slotOf_symtab]
    simp [contentsPiece]
  · rw [slotOf_strings formed]
    simp [contentsPiece]
  · rw [slotOf_rela formed content found]
    simp [contentsPiece]

theorem relocationsPiece_bound (fits : arena.Fits) (member : id ∈ arena.numbered) :
    (relocationsPiece id (slotOf arena (order arena) id)).1.toNat +
      (relocationsPiece id (slotOf arena (order arena) id)).2.size ≤ 2 ^ 33 := by
  rcases formed.kinds id member with content | rfl | rfl | ⟨target,content,found⟩
  · rw [slotOf_content formed content]
    simp [relocationsPiece]
  · rw [slotOf_symtab]
    simp [relocationsPiece]
  · rw [slotOf_strings formed]
    simp [relocationsPiece]
  · have size := fits.sizes id member
    have backed := (formed.records target content id found).1.size_contents
    rw [slotOf_rela formed content found]
    simp only [relocationsPiece, size_toArray,
      length_flatMap_width encode recordSize _ fun rel _ => rel.length_encode, length_map,
      relocations, found, decodeAll, length_range, backed]
    have whole := Nat.mul_div_le (arena.get id).size recordSize
    rw [show (8 : UInt64).toNat = 8 from rfl]
    omega

end

/-! ## The whole file -/

theorem length_fileHeader (a b c : Nat) : (fileHeader a b c).length = 64 := by simp [fileHeader]

structure Parts (arena : Arena) : Prop where
  header : BytesAt (bytes arena) 0
    (fileHeader (headerStage arena).1 ((slots arena).length + 2) ((slots arena).length + 1))
  size : (bytes arena).size < 2 ^ 64
  contents : ∀ (k : Nat) id slot, (slots arena)[k]? = some (id,slot) → ∃ offset,
    (contentStage arena).1[k]? = some offset ∧ Stands (bytes arena) offset (contentsPiece arena id slot).2
  relocations : ∀ (k : Nat) id slot, (slots arena)[k]? = some (id,slot) → ∃ offset,
    (relocStage arena).1[k]? = some offset ∧ Stands (bytes arena) offset (relocationsPiece id slot).2
  symbols : Stands (bytes arena) (symbolStage arena).1 (symbolBytes arena)
  strings : Stands (bytes arena) (stringStage arena).1 (symbolPool arena).bytes
  names : Stands (bytes arena) (nameStage arena).1 (namePool arena).bytes
  table : Stands (bytes arena) (headerStage arena).1 ((headers arena).flatMap Header.encode).toArray
  count : (headers arena).length = (slots arena).length + 2

theorem size_table (items : List Header) : (items.flatMap Header.encode).toArray.size = 64 * items.length := by
  exact length_flatMap_width Header.encode 64 items fun header _ => header.length_encode

theorem parts (formed : arena.Formed strings hash) (fits : arena.Fits) : Parts arena := by
  have few : (slots arena).length < 2 ^ 16 := by
    have count := fits.count
    have slots := length_slots formed
    rw [show SectionIndex.reserved.toNat = 0xff00 from rfl] at count
    omega
  have each {piece : SectionId → Slot → UInt64 × Array UInt8} {bound : Nat}
      (holds : ∀ id ∈ arena.numbered, (piece id (slotOf arena (order arena) id)).1.toNat +
        (piece id (slotOf arena (order arena) id)).2.size ≤ bound) id slot
      (member : (id,slot) ∈ slots arena) : (piece id slot).1.toNat + (piece id slot).2.size ≤ bound := by
    obtain ⟨other,inside,same⟩ := mem_map.mp member
    obtain ⟨rfl,rfl⟩ := Prod.mk.inj same
    exact holds other inside
  have eight : (8 : UInt64).toNat = 8 := rfl
  have one : (1 : UInt64).toNat = 1 := rfl
  have symbolSize := fits.sizes _ formed.tables.1
  have stringSize := fits.sizes _ formed.tables.2
  rw [← size_symbolBytes formed] at symbolSize
  have poolSize := size_symbolPool formed
  have nameSize := size_namePool formed fits
  have start : (Array.replicate 64 (0 : UInt8)).size = 64 := rfl
  obtain ⟨contents,contentsLength,first⟩ := placeSlots_stands (contentsPiece arena) (2 ^ 33) (slots arena) (Array.replicate 64 0)
    (by decide) (each fun id member => contentsPiece_bound formed fits member) (by omega)
  rw [← contentStage] at contents contentsLength first
  have size := first.size
  have le := first.le
  obtain ⟨symbols,second⟩ := place_stands (contentStage arena).2 (symbolBytes arena) 8 (by omega) (by omega)
  rw [← symbolStage] at symbols second
  have size := second.size
  have le := second.le
  obtain ⟨strings,third⟩ := place_stands (symbolStage arena).2 (symbolPool arena).bytes 1 (by omega) (by omega)
  rw [← stringStage] at strings third
  have size := third.size
  have le := third.le
  obtain ⟨relocs,relocsLength,fourth⟩ := placeSlots_stands relocationsPiece (2 ^ 33) (slots arena) (stringStage arena).2
    (by omega) (each fun id member => relocationsPiece_bound formed fits member) (by omega)
  rw [← relocStage] at relocs relocsLength fourth
  have size := fourth.size
  have le := fourth.le
  obtain ⟨names,fifth⟩ := place_stands (relocStage arena).2 (namePool arena).bytes 1 (by omega) (by omega)
  rw [← nameStage] at names fifth
  have size := fifth.size
  have le := fifth.le
  have count : (headers arena).length = (slots arena).length + 2 := by
    simp [headers,contentsLength,relocsLength]
  obtain ⟨table,sixth⟩ := place_stands (nameStage arena).2 ((headers arena).flatMap Header.encode).toArray 8
    (by omega) (by omega)
  rw [← headerStage] at table sixth
  have size := sixth.size
  have le := sixth.le
  rw [size_table] at size
  have short := length_fileHeader (headerStage arena).1 ((slots arena).length + 2) ((slots arena).length + 1)
  -- What stands at some stage stands in the file.
  have final {offset : Nat} {piece : Array UInt8} (stands : Stands (headerStage arena).2 offset piece) :
      Stands (bytes arena) offset piece := by
    rw [bytes_eq]
    exact stands.overwrite (by omega)
  refine ⟨?_,?_,fun k id slot found => ?_,fun k id slot found => ?_,?_,?_,?_,final table,count⟩
  · rw [bytes_eq]
    exact BytesAt.overwrite_same (by omega)
  · rw [bytes_eq,size_overwrite]
    omega
  · obtain ⟨offset,at_,stands⟩ := contents k id slot found
    exact ⟨offset,at_,final (sixth.stands (fifth.stands (fourth.stands (third.stands (second.stands stands)))))⟩
  · obtain ⟨offset,at_,stands⟩ := relocs k id slot found
    exact ⟨offset,at_,final (sixth.stands (fifth.stands stands))⟩
  · exact final (sixth.stands (fifth.stands (fourth.stands (third.stands symbols))))
  · exact final (sixth.stands (fifth.stands (fourth.stands strings)))
  · exact final (sixth.stands names)

end OnePass.Elf.ObjectFile
