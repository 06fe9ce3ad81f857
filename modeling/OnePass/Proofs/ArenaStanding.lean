import OnePass.Proofs.ArenaGrow
import OnePass.Proofs.ArenaRefers
import OnePass.Proofs.LinkSymbols

/-! # What stays while an arena develops

Sections are never taken away. One that is there keeps its type, flags, number, alignment and string table, and
one that is made for the image is aligned like all others of the image. So whatever units leave behind can be
linked. -/
namespace OnePass.Elf

open Arena List Array
open Section hiding name

variable {before after : Section} {arena : Arena} {id : SectionId}

namespace Section

structure Alike (before after : Section) : Prop where
  type : after.type = before.type
  flags : after.flags = before.flags
  number : after.number = before.number
  align : after.align = before.align
  link : after.link = before.link
  hash : after.hash = before.hash

theorem Alike.refl (sec : Section) : Alike sec sec := ⟨rfl,rfl,rfl,rfl,rfl,rfl⟩

theorem Alike.trans (first : Alike before middle) (second : Alike middle after) : Alike before after :=
  ⟨second.type.trans first.type,second.flags.trans first.flags,second.number.trans first.number,
    second.align.trans first.align,second.link.trans first.link,second.hash.trans first.hash⟩

theorem Alike.isAllocated (alike : Alike before after) :
    after.isAllocated = before.isAllocated := by rw [Section.isAllocated,Section.isAllocated,alike.flags]

theorem Rewritten.alike (rewritten : Rewritten before after) : Alike before after :=
  ⟨rewritten.type,rewritten.flags,rewritten.number,rewritten.align,rewritten.link,rewritten.hash⟩

variable {sec : Section}

theorem Whole.append (whole : sec.Whole) (bytes : Bytes) : (sec.append bytes).Whole := (whole.resize _).patch _ _

theorem Whole.clear (whole : sec.Whole) : sec.clear.Whole := by
  cases nobits : sec.isNobits with
  | true =>
    have nobits' : sec.clear.isNobits = true := nobits
    refine (whole_iff nobits').mpr ?_
    simp [Section.clear,(whole_iff nobits).mp whole]
  | false => exact Backed.whole ⟨nobits,Nat.zero_le _⟩

theorem Whole.withHashed (whole : sec.Whole) (hashed : Nat) : { sec with hashed }.Whole := whole

theorem alignTo_rewritten (sec : Section) (align : UInt64) : Rewritten sec (sec.alignTo align).2 := by
  unfold alignTo
  simp only
  split
  · exact .resize _ _
  · exact .refl _

theorem Whole.alignTo (whole : sec.Whole) (align : UInt64) : (sec.alignTo align).2.Whole := by
  unfold Section.alignTo
  simp only
  split
  · exact whole.resize _
  · exact whole

theorem grow?_resize (room : sec.grow? more = some (offset,grown)) : grown = sec.resize (sec.size + more) := by
  unfold grow? at room
  simp only at room
  split at room
  · exact (Prod.mk.inj (Option.some.inj room)).2.symm
  · cases room

end Section

namespace Arena

variable {before middle after : Arena}

theorem Numbered.byNumber? (numbered : Numbered arena) (listed : id ∈ arena.listed.toList) :
    arena.byNumber? (arena.get id).number = some id := by
  obtain ⟨k,at_⟩ := mem_iff_getElem?.mp listed
  rw [getElem?_toList] at at_
  rwa [(numbered k id at_).2]

/-- The sections of the symbol table are none of the image. -/
def TablesAside (arena : Arena) : Prop :=
  arena.symtab < arena.sections.size ∧
    ∀ id ∈ arena.tables, id < arena.sections.size ∧ (arena.get id).isAllocated = false

theorem isAllocated_bound (inImage : (arena.get id).isAllocated = true) : id < arena.sections.size := by
  by_contra outside
  rw [get_outside (Nat.le_of_not_lt outside)] at inImage
  simp [isAllocated] at inImage

structure Grows (before after : Arena) : Prop where
  symtab : after.symtab = before.symtab
  bss : after.bss = before.bss
  size : before.sections.size ≤ after.sections.size
  listed : before.listed.toList <+: after.listed.toList
  numbered : Numbered before → Numbered after
  kinds : ∀ id < before.sections.size, (before.get id).Alike (after.get id)
  relocs : ∀ id rela, (after.get id).reloc = some rela → (before.get id).reloc = some rela ∨ before.sections.size ≤ rela
  whole : (∀ id, (before.get id).Whole) → ∀ id, (after.get id).Whole
  made : ∀ id, before.sections.size ≤ id → (after.get id).isAllocated = true → (after.get id).align = 32
  longer : TablesAside before → ∀ id, (before.get id).isAllocated = true → (before.get id).size ≤ (after.get id).size

theorem whole_update (each : (arena.get id).Whole → (f (arena.get id)).Whole) (whole : ∀ id, (arena.get id).Whole) :
    ∀ id', ((arena.update id f).get id').Whole := by
  intro other
  rw [get_update]
  split
  · exact each (whole id)
  · exact whole other

namespace Grows

theorem refl (arena : Arena) : Grows arena arena where
  symtab := rfl
  bss := rfl
  size := le_refl _
  listed := prefix_rfl
  numbered := id
  kinds _ _ := .refl _
  relocs _ _ found := .inl found
  whole := id
  made _ outside inImage := absurd (isAllocated_bound inImage) (not_lt.mpr outside)
  longer _ _ _ := le_refl _

theorem tablesAside (grows : Grows before after) (aside : TablesAside before) : TablesAside after := by
  have table := grows.kinds _ aside.1
  have same : after.tables = before.tables := by
    rw [tables,tables,grows.symtab,table.link,table.hash]
  refine ⟨by rw [grows.symtab]; exact lt_of_lt_of_le aside.1 grows.size,fun id member => ?_⟩
  obtain ⟨below,out⟩ := aside.2 id (same ▸ member)
  exact ⟨lt_of_lt_of_le below grows.size,(grows.kinds id below).isAllocated.trans out⟩

theorem trans (first : Grows before middle) (second : Grows middle after) : Grows before after where
  symtab := second.symtab.trans first.symtab
  bss := second.bss.trans first.bss
  size := le_trans first.size second.size
  listed := first.listed.trans second.listed
  numbered there := second.numbered (first.numbered there)
  kinds id below := (first.kinds id below).trans (second.kinds id (lt_of_lt_of_le below first.size))
  relocs id rela found := by
    rcases second.relocs id rela found with there | new
    · exact first.relocs id rela there
    · exact .inr (le_trans first.size new)
  whole there := second.whole (first.whole there)
  made id outside inImage := by
    by_cases below : id < middle.sections.size
    · have same := second.kinds id below
      rw [same.align]
      exact first.made id outside (same.isAllocated ▸ inImage)
    · exact second.made id (by omega) inImage
  longer aside id inImage := by
    refine le_trans (first.longer aside id inImage) (second.longer (first.tablesAside aside) id ?_)
    rwa [(first.kinds id (isAllocated_bound inImage)).isAllocated]

theorem allocated (grows : Grows before after) (member : id ∈ before.allocated) : id ∈ after.allocated := by
  obtain ⟨listed,inImage⟩ := mem_filter.mp member
  obtain ⟨more,extended⟩ := grows.listed
  refine mem_filter.mpr ⟨?_,by rwa [(grows.kinds id (allocated_bound member)).isAllocated]⟩
  rw [Arena.numbered,← extended,drop_append]
  exact mem_append_left _ listed

end Grows

theorem Framed.grows (framed : Framed touched before after)
    (whole : (∀ id, (before.get id).Whole) → ∀ id, (after.get id).Whole)
    (longer : TablesAside before → ∀ id, (before.get id).isAllocated = true → (before.get id).size ≤ (after.get id).size) :
    Grows before after where
  symtab := framed.symtab
  bss := framed.bss
  size := le_of_eq framed.size.symm
  listed := framed.listed ▸ prefix_rfl
  numbered there k id at_ := by
    rw [framed.listed] at at_
    rw [framed.size,(framed.rewritten id).number]
    exact there k id at_
  kinds id _ := (framed.rewritten id).alike
  relocs id rela found := .inl ((framed.rewritten id).reloc ▸ found)
  whole := whole
  made id outside inImage := absurd (isAllocated_bound inImage) (by rw [framed.size]; exact not_lt.mpr outside)
  longer := longer

theorem grows_update (arena : Arena)
    (rewritten : (arena.get id).Rewritten (f (arena.get id))) (each : (arena.get id).Whole → (f (arena.get id)).Whole)
    (longer : (arena.get id).size ≤ (f (arena.get id)).size) : Grows arena (arena.update id f) := by
  exact (Framed.update arena (mem_singleton.mpr rfl) rewritten).grows (whole_update each) fun _ other _ =>
    size_le_update longer other

/-! ## Sections and relocations -/

theorem create_grows (arena : Arena) (name : String) (type flags : UInt32)
    (aligned : flags &&& SectionFlag.alloc = 0 ∨ defaultAlign type = 32) :
    Grows arena (arena.create name type flags).2 ∧ (arena.create name type flags).1 = arena.sections.size ∧
      ((arena.create name type flags).2.get arena.sections.size).flags = flags := by
  obtain ⟨number,after,eq,size,get,symtab,bss,listed⟩ := create_spec arena name type flags
  rw [eq]
  refine ⟨⟨symtab,bss,size ▸ Nat.le_succ _,?_,fun there k id at_ => ?_,fun id below => ?_,fun id rela found => ?_,fun whole id => ?_,
    fun id outside inImage => ?_,fun _ id inImage => ?_⟩,rfl,by rw [get,if_pos rfl]; rfl⟩
  · rcases listed with same | ⟨_,pushed⟩
    · exact same ▸ prefix_rfl
    · rw [pushed,toList_push]
      exact prefix_append _ _
  · have old (at_ : arena.listed[k]? = some id) : id < after.sections.size ∧ (after.get id).number = k := by
      have earlier := there k id at_
      rw [size,get,if_neg (ne_of_lt earlier.1)]
      exact ⟨Nat.lt_succ_of_lt earlier.1,earlier.2⟩
    rcases listed with same | ⟨rfl,pushed⟩
    · exact old (same ▸ at_)
    · rw [pushed,getElem?_push] at at_
      split at at_
      next last =>
        obtain rfl : arena.sections.size = id := by simpa using at_
        rw [size,get,if_pos rfl]
        exact ⟨Nat.lt_succ_self _,last.symm⟩
      next => exact old at_
  · rw [get,if_neg (ne_of_lt below)]
    exact .refl _
  · rw [get] at found
    split at found
    · cases found
    · exact .inl found
  · rw [get]
    split
    · unfold Section.Whole
      split
      · rfl
      · exact le_refl _
    · exact whole id
  · rw [get] at inImage ⊢
    split
    next new =>
      rw [if_pos new] at inImage
      rcases aligned with outOfImage | aligned
      · simp [Section.isAllocated,Section.create,outOfImage] at inImage
      · exact aligned
    next old =>
      rw [if_neg old] at inImage
      exact absurd (isAllocated_bound inImage) (not_lt.mpr outside)
  · rw [get,if_neg (ne_of_lt (isAllocated_bound inImage))]

theorem Grows.describe (grows : Grows before after)
    (new : before.sections.size ≤ id) (flags : ∀ sec, (f sec).flags = sec.flags)
    (number : ∀ sec, (f sec).number = sec.number)
    (out : (after.get id).isAllocated = false) (reloc : ∀ sec, (f sec).reloc = sec.reloc)
    (whole : ∀ sec, sec.Whole → (f sec).Whole) : Grows before (after.update id f) :=
  { grows with
    size := by rw [update_size]; exact grows.size
    numbered there k other at_ := by
      rw [update_size,get_update_congr Section.number (number _)]
      exact grows.numbered there k other at_
    kinds other below := by
      rw [get_update_other (ne_of_lt (lt_of_lt_of_le below new))]
      exact grows.kinds other below
    relocs other rela found := by
      refine grows.relocs other rela ?_
      rwa [get_update_congr Section.reloc (reloc _)] at found
    whole there := whole_update (whole _) (grows.whole there)
    made other outside inImage := by
      by_cases same : other = id
      · subst same
        rw [Section.isAllocated,get_update_congr Section.flags (flags _),← Section.isAllocated,out] at inImage
        cases inImage
      · rw [get_update_other same] at inImage ⊢
        exact grows.made other outside inImage
    longer aside other inImage := by
      rw [get_update_other (ne_of_lt (lt_of_lt_of_le (isAllocated_bound inImage) new))]
      exact grows.longer aside other inImage }

theorem Grows.attach (grows : Grows before after) (new : before.sections.size ≤ rela) :
    Grows before (after.update id fun sec => { sec with reloc := some rela }) :=
  { grows with
    size := by rw [update_size]; exact grows.size
    numbered there k other at_ := by
      rw [update_size,get_update_congr number rfl]
      exact grows.numbered there k other at_
    kinds other below := (grows.kinds other below).trans (get_update_rel .refl ⟨rfl,rfl,rfl,rfl,rfl,rfl⟩ other)
    relocs other rela' found := by
      rw [get_update] at found
      split at found
      · cases found
        exact .inr new
      · exact grows.relocs other rela' found
    whole there := whole_update (fun whole => whole) (grows.whole there)
    made other outside inImage := by
      rw [get_update_congr align rfl]
      refine grows.made other outside ?_
      rwa [isAllocated,get_update_congr flags rfl] at inImage
    longer aside other inImage := by
      rw [get_update_congr Section.size rfl]
      exact grows.longer aside other inImage }

theorem relocSection_grows (arena : Arena) (symtab target : SectionId) :
    Grows arena (arena.relocSection symtab target).2 := by
  unfold relocSection
  split
  · exact .refl _
  next =>
    have outOfImage : (arena.get symtab).flags &&& SectionFlag.unlisted &&& SectionFlag.alloc = 0 := by
      rw [UInt32.and_assoc]
      exact UInt32.and_zero
    obtain ⟨grows,index,made⟩ := create_grows arena (".rela" ++ (arena.get target).name)
      SectionType.rela ((arena.get symtab).flags &&& SectionFlag.unlisted) (.inl outOfImage)
    simp only
    rw [index]
    refine .attach (.describe grows (le_refl _) (fun _ => rfl) (fun _ => rfl) ?_ (fun _ => rfl) fun _ whole => whole)
      (le_refl _)
    simp [isAllocated,made,outOfImage]

/-! ## Symbols -/

theorem rebuildHash_whole (arena : Arena) (table : SectionId) (buckets : Nat) (whole : ∀ id, (arena.get id).Whole) :
    ∀ id, ((arena.rebuildHash table buckets).get id).Whole := by
  unfold rebuildHash
  split
  · exact whole
  next hash _ =>
    extract_lets count blank entered words
    have written (there : (arena.get hash).Whole) := there.clear.append (words.toList.flatMap Bytes.ofUInt32)
    generalize words.toList.flatMap Bytes.ofUInt32 = bytes at written ⊢
    exact whole_update written whole

theorem enterHash_whole (arena : Arena) (table hash : SectionId) (i : Nat) (name : String) (isLocal : Bool)
    (whole : ∀ id, (arena.get id).Whole) : ∀ id, ((arena.enterHash table hash i name isLocal).get id).Whole := by
  unfold enterHash
  extract_lets sec buckets chain sec' bucket linked counted entered
  have room : sec'.Whole := ((whole hash).resize _).patch _ _
  split
  · exact whole_update (fun _ => room.patch _ _) whole
  · have linkedWhole : linked.Whole := (room.patch _ _).patch _ _
    have countedWhole : counted.Whole := linkedWhole.withHashed _
    have enteredWhole : ∀ id, (entered.get id).Whole := whole_update (fun _ => countedWhole) whole
    split
    · exact rebuildHash_whole _ _ _ enteredWhole
    · exact enteredWhole

theorem putSymbol_grows (arena : Arena) (entry : SymbolEntry) (name : String) :
    Grows arena (arena.putSymbol arena.symtab entry name).2 := by
  have framed := putSymbol_framed arena entry name
  refine framed.grows (fun whole => ?_) fun aside id inImage => ?_
  case refine_2 =>
    rw [framed.others id fun member => by simp [(aside.2 id member).2] at inImage]
  obtain ⟨nameOffset,middle,written,put⟩ := putSymbol_steps arena arena.symtab entry name
  have named : ∀ id, (middle.get id).Whole := by
    rcases written with rfl | ⟨strings,bytes,_,rfl⟩
    · exact whole
    · exact whole_update (fun there => there.append _) whole
  have recorded := whole_update (f := (·.append (entry.withName nameOffset).encode))
    (fun there : (middle.get arena.symtab).Whole => there.append _) named
  rcases put with put | ⟨hash,i,_,put⟩
  · rwa [put]
  · rw [put]
    exact enterHash_whole _ _ _ _ _ _ recorded

theorem setSymbol_grows (arena : Arena) (table : SectionId) (i : Nat) (sym : Symbol) :
    Grows arena (arena.setSymbol table i sym) := by
  unfold setSymbol
  generalize sym.encode = bytes
  exact grows_update arena (.patch _ _ _) (fun whole => whole.patch _ _) (le_refl _)

/-! ## Units -/

theorem Develops.grows (develops : Develops before after) : Grows before after := by
  induction develops with
  | refl => exact .refl _
  | append _ sec bytes ih => exact ih.trans (grows_update _ (.append _ _) (fun whole => whole.append _) (Nat.le_add_right _ _))
  | patch _ sec offset bytes ih => exact ih.trans (grows_update _ (.patch _ _ _) (fun whole => whole.patch _ _) (le_refl _))
  | align _ sec align ih =>
    obtain ⟨size,zeros,longer,eq⟩ := alignTo_eq _ align
    exact ih.trans (grows_update _ (alignTo_rewritten _ _) (fun whole => whole.alignTo _) (eq ▸ longer))
  | grow _ room ih =>
    rw [grow?_resize room]
    exact ih.trans (grows_update _ (.resize _ _) (fun whole => whole.resize _) (Nat.le_add_right _ _))
  | @relocate arena _ sec rel ih =>
    refine (ih.trans (relocSection_grows arena arena.symtab sec)).trans ?_
    exact grows_update _ (.append _ _) (fun whole => whole.append _) (Nat.le_add_right _ _)
  | define _ added ih =>
    rcases addSymbol_result added with rfl | rfl | ⟨sym,rfl⟩
    · exact ih.trans (putSymbol_grows _ _ _)
    · exact ih
    · exact ih.trans (setSymbol_grows _ _ _ _)
  | redefine _ symbol sym ih => exact ih.trans (setSymbol_grows _ _ _ _)
  | create _ name extra ih => exact ih.trans (create_grows _ name _ _ (.inr rfl)).1

structure Standing (arena : Arena) : Prop extends Sound arena where
  numbered : Numbered arena
  whole : ∀ id, (arena.get id).Whole
  records : (arena.get arena.symtab).isNobits = false
  inImage : arena.bss ∈ arena.allocated
  ordinary : (arena.get arena.bss).number < SectionIndex.reserved.toNat
  aside : TablesAside arena
  aligned : ∀ id, (arena.get id).isAllocated = true → (arena.get id).align = 32

theorem standing_initial : Standing initial := by
  have whole : ∀ id < initial.sections.size, (initial.get id).Whole := by
    unfold Section.Whole
    decide +kernel
  have aligned : ∀ id < initial.sections.size, (initial.get id).isAllocated = true →
      (initial.get id).align = 32 := by decide +kernel
  have strings : (initial.get initial.symtab).link = some 5 := by decide +kernel
  refine ⟨⟨?_,?_,?_,?_,?_,?_,fun id link => ?_,by simp [reloc_initial]⟩,formed_initial.numbers,
    forall_get (le_refl 0) whole,?_,?_,?_,⟨?_,?_⟩,
    forall_get (p := fun sec => sec.isAllocated = true → sec.align = 32) (fun _ => rfl) aligned⟩
  any_goals decide +kernel
  obtain rfl := Option.some.inj (strings.symm.trans link)
  decide +kernel

theorem Grows.standing (grows : Grows before after) (standing : Standing before) : Standing after := by
  have zeroed := grows.kinds before.bss standing.zeroed
  have table := grows.kinds before.symtab standing.present
  have records : (after.get before.symtab).isNobits = false := by
    rw [isNobits,table.type]
    exact standing.records
  have numbered := grows.numbered standing.numbered
  refine ⟨⟨numbered.distinct,?_,?_,?_,?_,?_,?_,?_⟩,numbered,grows.whole standing.whole,?_,?_,?_,grows.tablesAside standing.aside,?_⟩
  · rw [grows.symtab]
    exact lt_of_lt_of_le standing.present grows.size
  · rw [grows.bss]
    exact lt_of_lt_of_le standing.zeroed grows.size
  · rw [grows.bss,zeroed.number]
    exact standing.number
  · rw [grows.symtab]
    exact ((grows.whole standing.whole _).backed records).stored
  · rw [grows.symtab,grows.bss]
    exact standing.apart
  · rw [grows.symtab,grows.bss,table.link]
    exact standing.strings
  · intro id rela found
    rw [grows.symtab,grows.bss]
    rcases grows.relocs id rela found with there | new
    · exact standing.relocs id rela there
    · exact ⟨ne_of_gt (lt_of_lt_of_le standing.zeroed new),
        ne_of_gt (lt_of_lt_of_le standing.present new)⟩
  · rwa [grows.symtab]
  · rw [grows.bss]
    exact grows.allocated standing.inImage
  · rw [grows.bss,zeroed.number]
    exact standing.ordinary
  · intro id inImage
    by_cases below : id < before.sections.size
    · have same := grows.kinds id below
      rw [same.align]
      exact standing.aligned id (same.isAllocated ▸ inImage)
    · exact grows.made id (Nat.le_of_not_lt below) inImage

/-- Whatever units leave behind can be linked. -/
theorem Develops.standing (develops : Develops initial after) : Standing after :=
  develops.grows.standing standing_initial

end Arena
end OnePass.Elf
