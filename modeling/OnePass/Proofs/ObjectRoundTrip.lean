import OnePass.Proofs.ObjectSymbols

/-! # Writing and loading an object

Loading what was written of an arena gives an arena with the same sections, the same symbols, local ones first,
and the same relocations against them. -/
namespace OnePass.Elf.Object

open ObjectFile Arena SectionIndex
open List hiding head

variable {before merged after : Arena} {strings hash strings' hash' id image : SectionId}

variable {count size : Nat} {next : Arena}

/-! ## Relocations -/

/-- A relocation as it is in a file, of a known type and against a symbol there is. -/
structure Loadable (rel : Relocation) (size count : Nat) : Prop where
  field : ∃ width, relocWidth? rel.type = some width ∧ rel.offset.toNat + width ≤ size
  symbol : rel.symbol.toNat < count

theorem mergeRelocation_run (loadable : Loadable rel size count) :
    mergeRelocation table ⟨image,0,size⟩ (range count).toArray position rel after =
      .ok ⟨⟩ (after.putRelocation after.symtab image rel) := by
  obtain ⟨⟨width,known,room⟩,below⟩ := loadable
  have index : (range count).toArray[rel.symbol.toNat]? = some rel.symbol.toNat := by
    rw [getElem?_toArray,getElem?_range below]
  have nonzero : ¬(decide (rel.symbol.toNat = 0) && rel.symbol != 0) = true := by
    simp only [Bool.and_eq_true,decide_eq_true_eq,bne_iff_ne,not_and,Decidable.not_not]
    intro zero
    exact UInt32.toNat_inj.mp zero
  have same : ({ rel with offset := rel.offset + UInt64.ofNat 0, symbol := UInt32.ofNat rel.symbol.toNat }) =
      rel := by
    simp
  rw [mergeRelocation,known,Option.getD_some]
  simp only [index]
  rw [if_neg (by omega),if_neg nonzero,same]
  rfl

theorem mergeRelocations_run (table : String) (rels : List Relocation) (position : Nat) (after : Arena)
    (formed : after.Formed strings' hash') (member : image ∈ after.allocated) (extent : (after.get image).size = size)
    (total : after.symbolCount after.symtab = count) (loadable : ∀ rel ∈ rels, Loadable rel size count) :
    ∃ next, ((rels.zipIdx position).forM fun (rel, position) =>
        mergeRelocation table ⟨image,0,size⟩ (range count).toArray position rel : LoadM Unit) after = .ok ⟨⟩ next ∧
      next.Formed strings' hash' ∧ Steady after next ∧ next.symtab = after.symtab ∧
      next.get after.symtab = after.get after.symtab ∧ next.get strings' = after.get strings' ∧
      next.relocations image = after.relocations image ++ rels ∧
      ∀ other ∈ after.allocated, other ≠ image → next.relocations other = after.relocations other := by
  induction rels generalizing position after with
  | nil => exact ⟨after,rfl,formed,.refl _,rfl,rfl,rfl,by simp,fun _ _ _ => rfl⟩
  | cons rel rest ih =>
    have first := loadable rel mem_cons_self
    have field : after.FieldIn image rel := ⟨by rw [extent]; exact first.field,by rw [total]; exact first.symbol⟩
    obtain ⟨formed',steady,symtab,kept,texts,added,others⟩ := formed.putRelocation member field
    have run : mergeRelocation table ⟨image,0,size⟩ (range count).toArray position rel after =
      .ok ⟨⟩ (after.putRelocation after.symtab image rel) := mergeRelocation_run first
    obtain ⟨_,eq⟩ := steady.same image member
    obtain ⟨next,runs,formed'',steady',symtab',kept',texts',added',others'⟩ := ih (position + 1)
      (after.putRelocation after.symtab image rel) formed' (by rwa [steady.allocated]) (by rwa [eq])
      (by rwa [symtab,symbolCount_congr kept]) fun rel member => loadable rel (mem_cons_of_mem _ member)
    refine ⟨next,?_,formed'',steady.trans steady',symtab'.trans symtab,?_,texts'.trans texts,?_,?_⟩
    · rw [zipIdx_cons,forM_eq_forM,forM_cons]
      simp only [bind_run,run]
      exact runs
    · rw [symtab] at kept'
      exact kept'.trans kept
    · rw [added',added]
      simp
    · intro other inside different
      rw [others' other (by rwa [steady.allocated]) different,others other inside different]

theorem renumber_loadable (formed : before.Formed strings hash) (fits : before.Fits)
    (member : id ∈ before.allocated) (found : rel ∈ before.relocations id) :
    Loadable (renumber (order before) rel) (before.get id).size (before.symbolCount before.symtab) ∧
      (renumber (order before) rel).symbol.toNat = (order before).idxOf rel.symbol.toNat := by
  obtain ⟨field,symbol⟩ := formed.fields id member rel found
  have listed : rel.symbol.toNat ∈ order before := mem_order.mpr symbol
  have length := (order_perm before).length_eq
  rw [length_range] at length
  have below := idxOf_lt_length_of_mem listed
  have size := fits.sizes _ formed.tables.1
  rw [formed.tabled.named.whole,Symbol.recordSize] at size
  have position : (renumber (order before) rel).symbol.toNat = (order before).idxOf rel.symbol.toNat := by
    cases at_ : (order before).idxOf? rel.symbol.toNat with
    | none => exact absurd listed (idxOf?_eq_none_iff.mp at_)
    | some k =>
      have first : (order before).idxOf rel.symbol.toNat = k := by
        rw [idxOf,findIdx_eq_getD_findIdx?]
        exact congrArg (Option.getD · _) at_
      simp only [renumber,at_,Option.getD_some,UInt32.toNat_ofNat']
      omega
  exact ⟨⟨field,by rw [position]; omega⟩,position⟩

/-- The relocations that the sections `done` hold are loaded. -/
structure Relocating (before merged after : Arena) (strings hash : SectionId) (done : List SectionId) : Prop where
  formed : after.Formed strings hash
  steady : Steady merged after
  symtab : after.symtab = merged.symtab
  table : after.get merged.symtab = merged.get merged.symtab
  texts : after.get strings = merged.get strings
  loaded : ∀ id image, Image before after id image → ∀ rela ∈ done, (before.get id).reloc = some rela →
    after.relocations image = (before.relocations id).map (renumber (order before))
  waiting : ∀ id image, Image before after id image → (∀ rela ∈ done, (before.get id).reloc ≠ some rela) →
    after.relocations image = []

theorem Image.unique (formed : before.Formed strings hash) (pair : Image before after id image)
    (pair' : Image before after id image') : image = image' := by
  obtain ⟨j,source,target⟩ := pair
  obtain ⟨k,source',target'⟩ := pair'
  have index := (List.getElem?_inj (List.getElem?_eq_some_iff.mp source).1
    (allocated_nodup formed.distinct)).mp (source.trans source'.symm)
  rw [← index] at target'
  exact Option.some.inj (target.symm.trans target')

theorem Image.injective (formed : after.Formed strings' hash') (pair : Image before after id image)
    (pair' : Image before after id' image) : id = id' := by
  obtain ⟨j,source,target⟩ := pair
  obtain ⟨k,source',target'⟩ := pair'
  exact unique formed ⟨j,target,source⟩ ⟨k,target',source'⟩

theorem Image.steady (steady : Steady after next) : Image before next id image ↔ Image before after id image := by
  rw [Image,Image,steady.allocated]

theorem mergeRelocations_skip (type : head.type ≠ SectionType.rela) (other : head.type ≠ SectionType.rel) :
    mergeRelocations file placed symbols head after = .ok ⟨⟩ after := by
  rw [mergeRelocations,if_pos (by simp [type,other])]
  rfl

theorem Relocating.step (relocating : Relocating before merged after strings' hash' done)
    (formed : before.Formed strings hash) (fits : before.Fits) (located : Located before merged placed)
    (sizes : ∀ id image, Image before merged id image → (merged.get image).size = (before.get id).size)
    (count : merged.symbolCount merged.symtab = before.symbolCount before.symtab)
    (describes : Describes before rela head) (fresh : rela ∉ done) :
    ∃ next, mergeRelocations (fileOf before) placed (range (before.symbolCount before.symtab)).toArray head.read after =
        .ok ⟨⟩ next ∧ Relocating before merged next strings' hash' (done ++ [rela]) := by
  by_cases owned : ∃ target ∈ before.allocated, (before.get target).reloc = some rela
  · obtain ⟨target,member,found⟩ := owned
    have reads := describes.relocations formed fits member found
    obtain ⟨bytes,records,rels⟩ := reads.records
    obtain ⟨image,at_,pair⟩ := (located.steady relocating.steady).at_ target member
    have inside : image ∈ after.allocated := by
      obtain ⟨_,_,listed⟩ := pair
      exact mem_of_getElem? listed
    have extent : (after.get image).size = (before.get target).size := by
      obtain ⟨_,eq⟩ := relocating.steady.same image (by rwa [relocating.steady.allocated] at inside)
      rw [eq]
      exact sizes target image ((Image.steady relocating.steady).mp pair)
    have total : after.symbolCount after.symtab = before.symbolCount before.symtab := by
      rw [relocating.symtab,symbolCount_congr relocating.table,count]
    have loadable : ∀ rel ∈ (before.relocations target).map (renumber (order before)),
        Loadable rel (before.get target).size (before.symbolCount before.symtab) := by
      intro rel listed
      obtain ⟨origin,known,rfl⟩ := mem_map.mp listed
      exact (renumber_loadable formed fits member known).1
    obtain ⟨next,runs,formed',steady,symtab,table,texts,added,others⟩ := mergeRelocations_run
      ((fileOf before).sectionName head.read) _ 0 after relocating.formed inside extent total loadable
    have empty := relocating.waiting target image pair fun other listed same =>
      fresh (Option.some.inj (found.symm.trans same) ▸ listed)
    rw [empty] at added
    have kind : ¬(head.read.type != SectionType.rela && head.read.type != SectionType.rel) = true := by
      simp [reads.type]
    have kind' : ¬(head.read.type == SectionType.rel) = true := by
      rw [reads.type]
      decide
    refine ⟨next,?_,formed',relocating.steady.trans steady,symtab.trans relocating.symtab,?_,
      texts.trans relocating.texts,?_,?_⟩
    · rw [mergeRelocations,if_neg kind,reads.info,at_]
      simp only [if_neg kind',records,LoadM.format,bind_run,pure_run,rels]
      exact runs
    · rw [relocating.symtab] at table
      exact table.trans relocating.table
    · intro id other pair' table listed same
      rw [Image.steady steady] at pair'
      by_cases here : id = target
      · subst here
        rwa [← Image.unique formed pair pair']
      · have different : other ≠ image := by
          rintro rfl
          exact here (Image.injective relocating.formed pair' pair)
        rw [mem_append,mem_singleton] at listed
        rcases listed with listed | rfl
        · have listed' := pair'
          obtain ⟨_,_,listed'⟩ := listed'
          rw [others other (mem_of_getElem? listed') different]
          exact relocating.loaded id other pair' table listed same
        · have source := pair'
          obtain ⟨_,source,_⟩ := source
          exact absurd (formed.owners id (mem_of_getElem? source) target member _ same found) here
    · intro id other pair' none
      rw [Image.steady steady] at pair'
      have different : other ≠ image := by
        rintro rfl
        rw [Image.injective relocating.formed pair' pair] at none
        exact none rela (by simp) found
      have listed' := pair'
      obtain ⟨_,_,listed'⟩ := listed'
      rw [others other (mem_of_getElem? listed') different]
      exact relocating.waiting id other pair' fun table listed => none table (mem_append_left _ listed)
  · -- Nothing refers to the section as relocations.
    have nobody : ∀ id ∈ before.allocated, (before.get id).reloc ≠ some rela := fun id member found =>
      owned ⟨id,member,found⟩
    have type : head.read.type ≠ SectionType.rela := fun is => owned ((describes.types formed).2.2.2 is)
    refine ⟨after,mergeRelocations_skip type (describes.types formed).2.2.1,relocating.formed,relocating.steady,
      relocating.symtab,relocating.table,relocating.texts,?_,?_⟩
    · intro id other pair table listed same
      rw [mem_append,mem_singleton] at listed
      rcases listed with listed | rfl
      · exact relocating.loaded id other pair table listed same
      · obtain ⟨_,source,_⟩ := pair
        exact absurd same (nobody id (mem_of_getElem? source))
    · intro id other pair none
      exact relocating.waiting id other pair fun table listed => none table (mem_append_left _ listed)

theorem Relocating.all (formed : before.Formed strings hash) (fits : before.Fits)
    (located : Located before merged placed)
    (sizes : ∀ id image, Image before merged id image → (merged.get image).size = (before.get id).size)
    (count : merged.symbolCount merged.symtab = before.symbolCount before.symtab)
    (items : List (SectionId × Header)) (describe : ∀ item ∈ items, Describes before item.1 item.2)
    (done : List SectionId) (distinct : (done ++ items.map Prod.fst).Nodup) (after : Arena)
    (relocating : Relocating before merged after strings' hash' done) :
    ∃ next, ((items.map (·.2.read)).forM (mergeRelocations (fileOf before) placed
        (range (before.symbolCount before.symtab)).toArray) : LoadM Unit) after = .ok ⟨⟩ next ∧
      Relocating before merged next strings' hash' (done ++ items.map Prod.fst) := by
  induction items generalizing done after with
  | nil => exact ⟨after,rfl,by rwa [map_nil,append_nil]⟩
  | cons item rest ih =>
    have fresh : item.1 ∉ done := fun member =>
      (nodup_append.mp distinct).2.2 item.1 member item.1 mem_cons_self rfl
    obtain ⟨middle,run,next⟩ := relocating.step formed fits located sizes count (describe item mem_cons_self) fresh
    obtain ⟨last,runs,result⟩ := ih (fun item member => describe item (mem_cons_of_mem _ member)) (done ++ [item.1])
      (by simpa using distinct) middle next
    refine ⟨last,?_,by simpa using result⟩
    rw [map_cons,forM_eq_forM,forM_cons]
    simp only [bind_run,run]
    exact runs

/-- The headers that are read: one for each numbered section, between an empty one and that of the names. -/
theorem sections_describe (formed : before.Formed strings hash) (fits : before.Fits) :
    ∃ items : List (SectionId × Header), items.map Prod.fst = before.numbered ∧
      (fileOf before).sections.toList =
        (nullHeader before).read :: (items.map (·.2.read) ++ [(lastHeader before).read]) ∧
      ∀ item ∈ items, Describes before item.1 item.2 := by
  obtain ⟨items,ids,eq,all⟩ := headers_describe (parts formed fits)
  refine ⟨items,ids,?_,all⟩
  simp only [fileOf,eq]
  simp [Function.comp_def]

theorem lastHeader_type (arena : Arena) : (lastHeader arena).read.type = SectionType.strtab := by
  simp only [lastHeader,Header.read]

theorem mergeRelocations_bytes (formed : before.Formed strings hash) (fits : before.Fits)
    (located : Located before merged placed)
    (sizes : ∀ id image, Image before merged id image → (merged.get image).size = (before.get id).size)
    (count : merged.symbolCount merged.symtab = before.symbolCount before.symtab)
    (relocating : Relocating before merged merged strings' hash' []) :
    ∃ next, ((fileOf before).sections.toList.forM (mergeRelocations (fileOf before) placed
        (range (before.symbolCount before.symtab)).toArray) : LoadM Unit) merged = .ok ⟨⟩ next ∧
      Relocating before merged next strings' hash' before.numbered := by
  obtain ⟨items,ids,sections,all⟩ := sections_describe formed fits
  obtain ⟨next,runs,result⟩ := relocating.all formed fits located sizes count items all []
    (by rw [ids]; exact formed.distinct.sublist (drop_sublist 1 _)) merged
  rw [ids] at result
  have first arena : mergeRelocations (fileOf before) placed
      (range (before.symbolCount before.symtab)).toArray (nullHeader before).read arena = .ok ⟨⟩ arena :=
    mergeRelocations_skip (show 0 ≠ SectionType.rela by decide) (show 0 ≠ SectionType.rel by decide)
  have last arena : mergeRelocations (fileOf before) placed
      (range (before.symbolCount before.symtab)).toArray (lastHeader before).read arena = .ok ⟨⟩ arena :=
    mergeRelocations_skip (by rw [lastHeader_type]; decide) (by rw [lastHeader_type]; decide)
  refine ⟨next,?_,result⟩
  rw [sections,forM_eq_forM,forM_cons,forM_append,forM_cons,forM_nil]
  simp only [bind_run,first,pure_run]
  rw [← forM_eq_forM,runs]
  simp only [last]

/-! ## The whole file -/

/-- The indexes of the symbols, the null one and the local ones first and otherwise in order. -/
def localsFirst (arena : Arena) : List Nat :=
  let isOwn := fun i => i == 0 || (arena.symbol arena.symtab i).isLocal
  let all := range (arena.symbolCount arena.symtab)
  all.filter isOwn ++ all.filter fun i => !isOwn i

theorem order_eq (arena : Arena) : order arena = localsFirst arena := by
  rw [order,symbolOrder]
  simp only [partition_eq_filter_filter]
  rfl

/-- An arena that holds what another one does: the sections with contents under their names and in their order, the
symbols with the local ones first, and the relocations in their order against the same symbols. -/
structure Reloaded (before after : Arena) : Prop where
  length : after.allocated.length = before.allocated.length
  sections : ∀ id image, Image before after id image → SameSection (before.get id) (after.get image)
  count : after.symbolCount after.symtab = before.symbolCount before.symtab
  symbols : ∀ (k : Nat) old, (localsFirst before)[k]? = some old → SameSymbol before after old k
  relocations : ∀ id image, Image before after id image → after.relocations image =
    (before.relocations id).map fun rel =>
      { rel with symbol := UInt32.ofNat ((localsFirst before).idxOf rel.symbol.toNat) }

theorem one_symtab (formed : before.Formed strings hash) (fits : before.Fits) :
    (fileOf before).sections.toList.countP (·.type == SectionType.symtab) ≤ 1 := by
  obtain ⟨items,ids,sections,all⟩ := sections_describe formed fits
  have counts : (items.map (·.2.read)).countP (·.type == SectionType.symtab) = (items.map Prod.fst).count before.symtab := by
    rw [count,countP_map,countP_map]
    refine countP_congr fun item member => ?_
    have types := ((all item member).types formed).1
    simpa using types
  rw [sections,countP_cons,countP_append,counts,ids]
  exact nodup_iff_count.mp (formed.distinct.sublist (drop_sublist 1 _)) _

section Placed

variable (placing : Placing before loaded strings' hash' before.allocated.length)

include placing

theorem Placing.located (formed : before.Formed strings hash) (fits : before.Fits)
    (at_ : ∀ id ∈ before.allocated, ∃ image, placedAt? placed (before.get id).number = some ⟨image,0,(before.get id).size⟩ ∧
      Image before loaded id image) : Located before loaded placed := by
  refine ⟨at_,fun id member => ?_⟩
  obtain ⟨k,_,listed,number,_⟩ := placing.formed.numbered_at (mem_filter.mp member).1
  have below := (Array.getElem?_eq_some_iff.mp listed).1
  have few := placing.listed formed
  have count := fits.count
  rw [show reserved.toNat = 0xff00 from rfl] at count
  omega

theorem Placing.merging (formed : before.Formed strings hash) : Merging before loaded loaded strings' hash' [0] := by
  refine ⟨placing.formed,.refl _,fun id member => ?_,placing.count,fun k old found => ?_⟩
  · rw [relocations,placing.bare id member]
  · cases k with
    | succ k => simp at found
    | zero =>
      obtain rfl : 0 = old := by simpa using found
      have null := placing.formed.tabled.null
      have null' := formed.tabled.null
      have undefined : ({} : Symbol).index = undef := rfl
      refine ⟨?_,by rw [null,null'],by rw [null,null'],by rw [null,null'],by rw [null,null'],?_⟩
      · rw [placing.formed.tabled.null_name,formed.tabled.null_name]
      · rw [null,null',SamePlace,if_pos (Or.inl undefined)]

theorem Placing.same (steady : Steady loaded next) (pair : Image before next id image) :
    SameSection (before.get id) (next.get image) := by
  rw [Image.steady steady] at pair
  obtain ⟨j,source,target⟩ := pair
  obtain ⟨id',source',same⟩ := placing.pairs j image target
  obtain rfl := Option.some.inj (source.symm.trans source')
  rw [if_pos (List.getElem?_eq_some_iff.mp source).1] at same
  obtain ⟨_,eq⟩ := steady.same image (mem_of_getElem? target)
  obtain ⟨⟨name,type,flags⟩,size,contents⟩ := same
  rw [eq]
  exact ⟨⟨name,type,flags⟩,size,contents⟩

end Placed

theorem Merging.relocating (merging : Merging before loaded merged strings' hash' done) :
    Relocating before merged merged strings' hash' [] := by
  refine ⟨merging.formed,.refl _,rfl,rfl,rfl,fun _ _ _ _ none => ?_,fun id image pair _ => ?_⟩
  · cases none
  · obtain ⟨_,_,listed⟩ := pair
    exact merging.bare image (mem_of_getElem? listed)

theorem SameSymbol.relocated {order : List Nat}
    (same : SameSymbol before merged old new) (merging : Merging before loaded merged strings' hash' order)
    (relocating : Relocating before merged after strings' hash' done) : SameSymbol before after old new := by
  have symbol := symbol_congr relocating.table new
  have name := symbolName_congr relocating.table merging.formed.tabled.named.link relocating.texts new
  refine ⟨?_,?_,?_,?_,?_,?_⟩ <;> rw [relocating.symtab]
  · rw [name,same.name]
  · rw [symbol,same.info]
  · rw [symbol,same.other]
  · rw [symbol,same.value]
  · rw [symbol,same.size]
  · rw [symbol]
    exact same.place.steady relocating.steady

theorem Relocating.relocations (relocating : Relocating before merged after strings' hash' before.numbered)
    (formed : before.Formed strings hash) (pair : Image before after id image) :
    after.relocations image = (before.relocations id).map (renumber (order before)) := by
  have ⟨_,source,_⟩ := pair
  cases owned : (before.get id).reloc with
  | none =>
    have empty : before.relocations id = [] := by rw [Arena.relocations,owned]
    rw [empty]
    exact relocating.waiting id image pair fun rela _ same => by
      rw [owned] at same
      cases same
  | some rela => exact relocating.loaded id image pair rela (formed.relocs id (mem_of_getElem? source) rela owned).listed owned

/-- Loading what was written of an arena succeeds, and gives an arena that holds the same. -/
theorem load_bytes (built : before.Built) :
    ∃ after, load (bytes before) initial = .ok ⟨⟩ after ∧ Reloaded before after := by
  have fits := built.fits
  obtain ⟨formed,grown⟩ := built.formed
  obtain ⟨placed,loaded,places,placing,at_⟩ := placeSections_bytes formed fits (placing_initial grown)
  have located := placing.located formed fits at_
  obtain ⟨merged,merges,merging⟩ := mergeSymbols_bytes formed fits located (placing.merging formed)
  have count : merged.symbolCount merged.symtab = before.symbolCount before.symtab := by
    rw [merging.count,(order_perm before).length_eq,List.length_range]
  have sizes : ∀ id image, Image before merged id image → (merged.get image).size = (before.get id).size :=
    fun id image pair => (placing.same merging.steady pair).size
  obtain ⟨after,relocates,relocating⟩ := mergeRelocations_bytes formed fits (located.steady merging.steady) sizes count
    merging.relocating
  have count' : after.symbolCount after.symtab = before.symbolCount before.symtab := by
    rw [relocating.symtab,symbolCount_congr relocating.table,count]
  refine ⟨after,?_,?_,fun id image pair => placing.same (merging.steady.trans relocating.steady) pair,count',?_,?_⟩
  · have single := Nat.not_lt.mpr (one_symtab formed fits)
    have type : ¬(fileOf before).type ≠ File.typeRelocatable := fun other => other rfl
    rw [load,LoadM.parse,parse_bytes formed fits]
    simp only [bind_run,pure_run,if_neg type,gt_iff_lt,if_neg single,places,merges]
    exact relocates
  · rw [relocating.steady.allocated,merging.steady.allocated,placing.length]
  · intro k old found
    rw [← order_eq] at found
    exact (merging.symbols k old found).relocated merging relocating
  · intro id image pair
    have ⟨_,source,_⟩ := pair
    rw [relocating.relocations formed pair]
    refine List.map_congr_left fun rel member => ?_
    rw [← order_eq,← (renumber_loadable formed fits (List.mem_of_getElem? source) member).2,UInt32.ofNat_toNat]
    rfl

namespace Sample

def withSection : Arena :=
  (initial.create ".init" SectionType.progbits (SectionFlag.alloc ||| SectionFlag.exec)).2

/-- Room for one call and the call itself, its target still open. -/
def withCode : Arena :=
  (withSection.update withSection.text fun _ => (withSection.get withSection.text).resize 5).update withSection.text
    (·.patch 0 [0xe8,0,0,0,0])

def callee : SymbolEntry := { info := 0x12, index := undef }

def withCallee : Arena := (withCode.putSymbol withCode.symtab callee "puts").2

def withLocal : Arena := (withCallee.putSymbol withCallee.symtab { info := 0x02, index := 1, size := 5 } "caller").2

/-- A local function that calls one of another file. -/
def caller : Arena := withLocal.putRelocation withLocal.symtab withLocal.text ⟨1,1,4,-4⟩

theorem caller_built : caller.Built := by
  have section_ : withSection.Built := .next .initial
    (.create (by decide +kernel) (by decide +kernel) (by decide +kernel) (by decide +kernel) (by decide +kernel))
    (by decide +kernel)
  have grows : (withSection.get withSection.text).grow? 5 = some (0,(withSection.get withSection.text).resize 5) := rfl
  have room : (withSection.update withSection.text fun _ => (withSection.get withSection.text).resize 5).Built :=
    .next section_ (.grow (by decide +kernel) grows) (by decide +kernel)
  have code : withCode.Built := .next room (.write (by decide +kernel) _ _) (by decide +kernel)
  have added : withCode.addSymbol withCode.symtab callee "puts" =
      .ok ((withCode.putSymbol withCode.symtab callee "puts").1,withCallee) := by
    rw [addSymbol,if_pos (by decide +kernel),withCallee]
  have callee : withCallee.Built := .next code
    (.addSymbol (by decide +kernel) (by decide +kernel) (.inl (by decide +kernel)) (by decide +kernel) added)
    (by decide +kernel)
  have own : withLocal.Built := .next callee
    (.putSymbol (by decide +kernel) (by decide +kernel) (.inr (.inr ⟨1,by decide +kernel⟩)) (by decide +kernel))
    (by decide +kernel)
  exact .next own (.putRelocation (by decide +kernel) ⟨⟨4,by decide +kernel⟩,by decide +kernel⟩) (by decide +kernel)

end Sample

theorem load_bytes_caller :
    ∃ after, load (bytes Sample.caller) initial = .ok ⟨⟩ after ∧ Reloaded Sample.caller after :=
  load_bytes Sample.caller_built

end OnePass.Elf.Object
