import OnePass.Link.Image
import OnePass.Proofs.Arena
import OnePass.Proofs.Effect

/-! # Symbols before a link

Tentative definitions get room at the end of the zeroed section and undefined symbols are looked up.
Both steps write symbol records and the zeroed section and nothing else, so that sections, relocations
and names are those of the arena that the link began with. -/
namespace OnePass

open Elf SectionIndex Section UInt64 UInt16

namespace Elf.Section

/-- The section with another alignment and size, and more zeros behind its store. -/
def wider (sec : Section) (align : UInt64) (size zeros : Nat) : Section :=
  { sec with align, store := sec.store ++ Array.replicate zeros 0, size }

section Wider

variable (sec : Section) (align : UInt64) (size zeros : Nat)

@[simp] theorem wider_number : (sec.wider align size zeros).number = sec.number := rfl
@[simp] theorem wider_align : (sec.wider align size zeros).align = align := rfl
@[simp] theorem wider_size : (sec.wider align size zeros).size = size := rfl

end Wider

theorem wider_same (sec : Section) : sec.wider sec.align sec.size 0 = sec := by simp [wider]

theorem wider_wider (sec : Section) (align align' : UInt64) (size size' zeros zeros' : Nat) :
    (sec.wider align size zeros).wider align' size' zeros' = sec.wider align' size' (zeros + zeros') := by
  simp [wider]

theorem resize_eq (sec : Section) (size : Nat) : ∃ zeros, sec.resize size = sec.wider sec.align size zeros := by
  unfold resize reserveTo
  split
  · exact ⟨0,by simp [wider]⟩
  · exact ⟨_,rfl⟩

theorem alignTo_eq (sec : Section) (align : UInt64) :
    ∃ size zeros, sec.size ≤ size ∧ (sec.alignTo align).2 = sec.wider sec.align size zeros := by
  unfold alignTo
  simp only
  split
  next grown =>
    obtain ⟨zeros,eq⟩ := sec.resize_eq (alignUp (ofNat sec.size) align).toNat
    exact ⟨_,zeros,by omega,eq⟩
  next => exact ⟨sec.size,0,le_refl _,sec.wider_same.symm⟩

theorem grow?_eq (sec grown : Section) (more offset : Nat) (grows : sec.grow? more = some (offset,grown)) :
    offset = sec.size ∧ sec.size + more ≤ sec.limit ∧
      ∃ zeros, grown = sec.wider sec.align (sec.size + more) zeros := by
  unfold grow? at grows
  simp only at grows
  split at grows
  next fits =>
    obtain ⟨zeros,eq⟩ := sec.resize_eq (sec.size + more)
    obtain ⟨rfl,rfl⟩ := grows
    exact ⟨rfl,fits,zeros,eq⟩
  next => contradiction

end Elf.Section

namespace Elf.Arena

/-- What every operation on an arena keeps: a section has one number, and the symbol table holds its
records, apart from the sections that grow or that describe it. -/
structure Sound (arena : Arena) : Prop where
  distinct : arena.listed.toList.Nodup
  present : arena.symtab < arena.sections.size
  zeroed : arena.bss < arena.sections.size
  number : 0 < (arena.get arena.bss).number ∧ (arena.get arena.bss).number < 2 ^ 16
  stored : (arena.get arena.symtab).size ≤ (arena.get arena.symtab).store.size
  apart : arena.symtab ≠ arena.bss
  strings : ∀ id, (arena.get arena.symtab).link = some id → id ≠ arena.bss ∧ id ≠ arena.symtab
  relocs : ∀ id rela, (arena.get id).reloc = some rela → rela ≠ arena.bss ∧ rela ≠ arena.symtab

theorem Sound.bss_defined (sound : Sound arena) : UInt16.ofNat (arena.get arena.bss).number ≠ undef := by
  intro zero
  have := congrArg UInt16.toNat zero
  rw [UInt16.toNat_ofNat',Nat.mod_eq_of_lt sound.number.2] at this
  have := sound.number.1
  simp [undef] at *
  omega

/-- Arenas that differ in symbol records and in the extent of the zeroed section. -/
structure Kept (before after : Arena) : Prop where
  listed : after.listed = before.listed
  bss : after.bss = before.bss
  symtab : after.symtab = before.symtab
  size : after.sections.size = before.sections.size
  others : ∀ id, id ≠ before.bss → id ≠ before.symtab → after.get id = before.get id
  zeroed : ∃ align size zeros, (before.get before.bss).size ≤ size ∧
    after.get before.bss = (before.get before.bss).wider align size zeros
  records : ∃ store, store.size = (before.get before.symtab).store.size ∧
    after.get before.symtab = { before.get before.symtab with store }

namespace Kept

theorem refl (arena : Arena) : Kept arena arena :=
  ⟨rfl,rfl,rfl,rfl,fun _ _ _ => rfl,⟨_,_,0,le_refl _,by rw [wider_same]⟩,⟨_,rfl,rfl⟩⟩

theorem trans (first : Kept before middle) (second : Kept middle after) : Kept before after := by
  refine ⟨second.listed.trans first.listed,second.bss.trans first.bss,second.symtab.trans first.symtab,
    second.size.trans first.size,?_,?_,?_⟩
  · intro id notBss notSymtab
    rw [second.others id (by rwa [first.bss]) (by rwa [first.symtab]),first.others id notBss notSymtab]
  · obtain ⟨_,size,zeros,le,eq⟩ := first.zeroed
    obtain ⟨align,size',zeros',le',eq'⟩ := second.zeroed
    rw [first.bss,eq] at le' eq'
    exact ⟨align,size',zeros + zeros',le_trans le le',by rw [eq',wider_wider]⟩
  · obtain ⟨_,same,eq⟩ := first.records
    obtain ⟨store,same',eq'⟩ := second.records
    rw [first.symtab,eq] at same' eq'
    exact ⟨store,same'.trans same,eq'⟩

theorem extend (arena : Arena) (apart : arena.symtab ≠ arena.bss) (align : UInt64) (size zeros : Nat)
    (grows : (arena.get arena.bss).size ≤ size) :
    Kept arena (arena.update arena.bss fun _ => (arena.get arena.bss).wider align size zeros) := by
  refine ⟨rfl,rfl,rfl,update_size,fun id notBss _ => get_update_other notBss,?_,
    ⟨(arena.get arena.symtab).store,rfl,get_update_other apart⟩⟩
  rw [get_update]
  split
  next => exact ⟨align,size,zeros,grows,rfl⟩
  next => exact ⟨(arena.get arena.bss).align,_,0,le_refl _,by rw [wider_same]⟩

theorem setSymbol (arena : Arena) (apart : arena.symtab ≠ arena.bss) (i : Nat) (sym : Symbol) :
    Kept arena (arena.setSymbol arena.symtab i sym) := by
  refine ⟨rfl,rfl,rfl,by simp [Arena.setSymbol],fun id _ notSymtab => get_update_other notSymtab,
    ⟨_,_,0,le_refl _,by rw [wider_same]; exact get_update_other (Ne.symm apart)⟩,?_⟩
  rw [Arena.setSymbol,get_update]
  split
  · exact ⟨_,by simp,rfl⟩
  · exact ⟨_,rfl,rfl⟩

variable (kept : Kept before after)

include kept

theorem count : after.symbolCount after.symtab = before.symbolCount before.symtab := by
  obtain ⟨_,_,eq⟩ := kept.records
  simp only [symbolCount,kept.symtab,eq]

theorem symbolName (sound : Sound before)
    (same : (after.symbol after.symtab i).nameOffset = (before.symbol before.symtab i).nameOffset) :
    after.symbolName after.symtab i = before.symbolName before.symtab i := by
  obtain ⟨_,_,eq⟩ := kept.records
  have link : (after.get after.symtab).link = (before.get before.symtab).link := by rw [kept.symtab,eq]
  simp only [Arena.symbolName,link]
  split
  next strings found =>
    obtain ⟨notBss,notSymtab⟩ := sound.strings strings found
    simp only [string,kept.others strings notBss notSymtab,same]
  next => rfl

theorem stored {id : SectionId} (other : id ≠ before.bss) : ∃ store, after.get id = { before.get id with store } := by
  by_cases table : id = before.symtab
  · obtain ⟨store,_,eq⟩ := kept.records
    exact ⟨store,by rw [table,eq]⟩
  · exact ⟨_,kept.others id other table⟩

/-- A section keeps what it is but for its alignment and its bytes, of which there are no fewer. -/
theorem wider (id : SectionId) : ∃ align store size, (before.get id).size ≤ size ∧
    after.get id = { before.get id with align, store, size } := by
  by_cases zeroed : id = before.bss
  · obtain ⟨align,size,_,more,eq⟩ := kept.zeroed
    exact ⟨align,_,size,zeroed ▸ more,by rw [zeroed,eq]; rfl⟩
  · obtain ⟨store,eq⟩ := kept.stored zeroed
    exact ⟨_,store,_,le_refl _,eq⟩

theorem longer (id : SectionId) : (before.get id).size ≤ (after.get id).size := by
  obtain ⟨_,_,_,more,eq⟩ := kept.wider id
  rwa [eq]

theorem align {id : SectionId} (other : id ≠ before.bss) : (after.get id).align = (before.get id).align := by
  obtain ⟨_,eq⟩ := kept.stored other
  rw [eq]

theorem number (id : SectionId) : (after.get id).number = (before.get id).number := by
  obtain ⟨_,_,_,_,eq⟩ := kept.wider id
  rw [eq]

theorem limit (id : SectionId) : (after.get id).limit = (before.get id).limit := by
  obtain ⟨_,_,_,_,eq⟩ := kept.wider id
  rw [eq]
  rfl

theorem reloc (id : SectionId) : (after.get id).reloc = (before.get id).reloc := by
  obtain ⟨_,_,_,_,eq⟩ := kept.wider id
  rw [eq]

theorem relocations (sound : Sound before) (id : SectionId) : after.relocations id = before.relocations id := by
  simp only [Arena.relocations,kept.reloc id]
  split
  next rela found =>
    obtain ⟨notBss,notSymtab⟩ := sound.relocs id rela found
    rw [kept.others rela notBss notSymtab]
  next => rfl

theorem flags (id : SectionId) : (after.get id).flags = (before.get id).flags := by
  obtain ⟨_,_,_,_,eq⟩ := kept.wider id
  rw [eq]

theorem sound (sound : Sound before) : Sound after := by
  obtain ⟨store,same,eq⟩ := kept.records
  refine ⟨by simpa [kept.listed] using sound.distinct,by simpa [kept.symtab,kept.size] using sound.present,
    by simpa [kept.bss,kept.size] using sound.zeroed,?_,?_,
    by simpa [kept.symtab,kept.bss] using sound.apart,?_,?_⟩
  · rw [kept.bss,kept.number]
    exact sound.number
  · simpa [kept.symtab,eq,same] using sound.stored
  · intro id link
    rw [kept.symtab,eq] at link
    simpa [kept.symtab,kept.bss] using sound.strings id link
  · intro id rela found
    rw [kept.reloc] at found
    simpa [kept.symtab,kept.bss] using sound.relocs id rela found

end Kept
end Elf.Arena

namespace Link

open Elf.Arena

/-- Room for one tentative definition behind the zeroed section. -/
def roomFor? (bss : Section) (sym : Symbol) : Option (Nat × Section) :=
  (alignTo { bss with align := max bss.align (max sym.value 1) } (max sym.value 1)).2.grow? sym.size.toNat

theorem roomFor?_eq {bss : Section} (room : roomFor? bss sym = some (offset,sec)) :
    bss.size ≤ offset ∧ offset + sym.size.toNat ≤ bss.limit ∧
      ∃ zeros, sec = bss.wider (max bss.align (max sym.value 1)) (offset + sym.size.toNat) zeros := by
  obtain ⟨size,zeros,forward,aligned⟩ :=
    alignTo_eq { bss with align := max bss.align (max sym.value 1) } (max sym.value 1)
  rw [roomFor?,aligned] at room
  obtain ⟨rfl,fits,zeros',rfl⟩ := grow?_eq _ _ _ _ room
  exact ⟨forward,fits,zeros + zeros',wider_wider _ _ _ _ _ _ _⟩

theorem placeCommon_other (other : (arena.symbol arena.symtab i).index ≠ common) :
    placeCommon i arena = .ok ⟨⟩ arena := by
  simp [placeCommon,bind_run,other]

theorem placeCommon_ok_iff (tentative : (arena.symbol arena.symtab i).index = common) :
    placeCommon i arena = .ok ⟨⟩ after ↔ ∃ offset sec,
      roomFor? (arena.get arena.bss) (arena.symbol arena.symtab i) = some (offset,sec) ∧
      after = (arena.update arena.bss fun _ => sec).setSymbol arena.symtab i
        { arena.symbol arena.symtab i with index := UInt16.ofNat sec.number, value := UInt64.ofNat offset } := by
  simp only [placeCommon,bind_run,get_run,tentative,bne_self_eq_false,Bool.false_eq_true,if_false]
  cases room : roomFor? (arena.get arena.bss) (arena.symbol arena.symtab i) with
  | none =>
    rw [roomFor?] at room
    simp [room]
  | some placed =>
    rw [roomFor?] at room
    simp only [room,bind_run,get_run,set_run,EStateM.Result.ok.injEq,true_and,Option.some.injEq,update_update]
    constructor
    · rintro rfl
      exact ⟨placed.1,placed.2,rfl,rfl⟩
    · rintro ⟨_,_,rfl,rfl⟩
      rfl

/-- Placing a tentative definition extends the zeroed section and writes its record, no other. -/
theorem placeCommon_cases (sound : Sound arena)
    (bound : i < arena.symbolCount arena.symtab) (run : placeCommon i arena = .ok ⟨⟩ after) :
    ((arena.symbol arena.symtab i).index ≠ common ∧ after = arena) ∨
    ((arena.symbol arena.symtab i).index = common ∧ Kept arena after ∧
      (∀ j, j ≠ i → after.symbol arena.symtab j = arena.symbol arena.symtab j) ∧
      ∃ offset, roomFor? (arena.get arena.bss) (arena.symbol arena.symtab i) = some (offset,after.get arena.bss) ∧
        after.symbol arena.symtab i =
          { arena.symbol arena.symtab i with
            index := ofNat (arena.get arena.bss).number, value := ofNat offset }) := by
  by_cases tentative : (arena.symbol arena.symtab i).index = common
  · obtain ⟨offset,sec,found,rfl⟩ := (placeCommon_ok_iff tentative).mp run
    obtain ⟨behind,_,zeros,wide⟩ := roomFor?_eq found
    have grown : Kept arena (arena.update arena.bss fun _ => sec) :=
      wide ▸ Kept.extend arena sound.apart _ _ zeros (by omega)
    have later := grown.sound sound
    refine .inr ⟨tentative,grown.trans (Kept.setSymbol _ later.apart i _),fun j different => ?_,offset,?_,?_⟩
    · rw [symbol_setSymbol_other different,symbol,get_update_other sound.apart,symbol]
    · rw [setSymbol,get_update_other (Ne.symm sound.apart),get_update_same sound.zeroed,found]
    · rw [show (arena.get arena.bss).number = sec.number by rw [wide,wider_number]]
      exact symbol_setSymbol_same later.present later.stored (lt_of_lt_of_eq bound grown.count.symm)
  · rw [placeCommon_other tentative] at run
    cases run
    exact .inl ⟨tentative,rfl⟩

/-- The record of a symbol once tentative definitions have their room in the zeroed section. -/
def PlacedRecord (before after : Arena) (i : Nat) : Prop :=
  let sym := before.symbol before.symtab i
  if sym.index = common then
    ∃ offset, (before.get before.bss).size ≤ offset ∧
      offset + sym.size.toNat ≤ (after.get before.bss).size ∧
      after.symbol before.symtab i =
        { sym with index := ofNat (before.get before.bss).number, value := ofNat offset }
  else after.symbol before.symtab i = sym

structure CommonsPlaced (before after : Arena) (done : List Nat) : Prop where
  kept : Kept before after
  extent : (after.get before.bss).size = (before.get before.bss).size ∨
    (after.get before.bss).size ≤ (before.get before.bss).limit
  alignment : ∀ bound : UInt64, 1 ≤ bound → (before.get before.bss).align ≤ bound →
    (∀ i ∈ done, (before.symbol before.symtab i).index = common →
      (before.symbol before.symtab i).value ≤ bound) → (after.get before.bss).align ≤ bound
  placed : ∀ i ∈ done, PlacedRecord before after i
  waiting : ∀ i, i ∉ done → after.symbol before.symtab i = before.symbol before.symtab i

theorem max_le_iff_both (a b bound : UInt64) : max a b ≤ bound ↔ a ≤ bound ∧ b ≤ bound := by
  rw [show max a b = if a ≤ b then b else a from rfl]
  split
  next h => exact ⟨fun le => ⟨UInt64.le_trans h le,le⟩,fun le => le.2⟩
  next h => exact ⟨fun le => ⟨le,UInt64.le_trans (UInt64.le_of_lt (UInt64.not_le.mp h)) le⟩,fun le => le.1⟩

theorem PlacedRecord.mono (placed : PlacedRecord before middle i)
    (same : after.symbol before.symtab i = middle.symbol before.symtab i)
    (grows : (middle.get before.bss).size ≤ (after.get before.bss).size) : PlacedRecord before after i := by
  simp only [PlacedRecord] at placed ⊢
  split at placed
  next =>
    obtain ⟨offset,behind,fits,eq⟩ := placed
    rw [if_pos ‹_›]
    exact ⟨offset,behind,by omega,same.trans eq⟩
  next => rw [if_neg ‹_›,same,placed]

/-- One more symbol is handled. Its room lies behind all room given before. -/
theorem placeCommon_placed (sound : Sound before) (bound : i < before.symbolCount before.symtab) (fresh : i ∉ done)
    (state : CommonsPlaced before arena done) (run : placeCommon i arena = .ok ⟨⟩ after) :
    CommonsPlaced before after (done ++ [i]) := by
  have unread := state.waiting i fresh
  have now := state.kept.sound sound
  obtain ⟨align,size,store,forward,zeroed⟩ := state.kept.zeroed
  have cases := placeCommon_cases now (by rwa [state.kept.count]) run
  rw [state.kept.symtab,state.kept.bss,unread] at cases
  rcases cases with ⟨other,rfl⟩ | ⟨tentative,kept,others,offset,found,new⟩
  · refine ⟨state.kept,state.extent,fun limit one first each => state.alignment limit one first
      fun j member => each j (List.mem_append_left _ member),?_,fun j absent => state.waiting j fun h =>
        absent (List.mem_append_left _ h)⟩
    intro j member
    rcases List.mem_append.mp member with old | new
    · exact state.placed j old
    · obtain rfl := List.mem_singleton.mp new
      simp only [PlacedRecord,if_neg other,unread]
  · obtain ⟨behind,fits,store',room⟩ := roomFor?_eq found
    refine ⟨state.kept.trans kept,Or.inr (by rwa [room,← state.kept.limit]),?_,?_,?_⟩
    · intro limit one first each
      rw [room]
      simp only [wider_align,max_le_iff_both]
      exact ⟨state.alignment limit one first fun j member => each j (List.mem_append_left _ member),
        each i (List.mem_append_right _ (List.mem_singleton.mpr rfl)) tentative,one⟩
    · intro j member
      by_cases same : j = i
      · subst same
        simp only [PlacedRecord,if_pos tentative]
        refine ⟨offset,?_,by rw [room]; exact le_refl _,?_⟩
        · rw [zeroed] at behind
          exact le_trans forward behind
        · simp [new,zeroed]
      · have old : j ∈ done := by simpa [same] using member
        refine (state.placed j old).mono (others j same) ?_
        rw [room]
        exact Nat.le_trans behind (Nat.le_add_right _ _)
    · intro j absent
      rw [List.mem_append,List.mem_singleton,not_or] at absent
      rw [others j absent.2,state.waiting j absent.1]

theorem mem_symbolIndexes : i ∈ symbolIndexes before ↔ 0 < i ∧ i < before.symbolCount before.symtab := by
  rw [symbolIndexes,List.mem_range'_1]
  omega

theorem symbolIndexes_split (parts : symbolIndexes arena = done ++ i :: rest) :
    i ∉ done ∧ i < arena.symbolCount arena.symtab := by
  have distinct : (symbolIndexes arena).Nodup := List.nodup_range'
  have member : i ∈ symbolIndexes arena := by simp [parts]
  rw [parts,List.nodup_append] at distinct
  exact ⟨fun h => distinct.2.2 i h i List.mem_cons_self rfl,(mem_symbolIndexes.mp member).2⟩

theorem CommonsPlaced.refl (before : Arena) : CommonsPlaced before before [] :=
  ⟨.refl before,.inl rfl,fun _ _ first _ => first,by simp,fun _ _ => rfl⟩

/-- What placing one symbol more keeps holds behind all of them. -/
theorem placeCommons_keeps {P : Arena → List Nat → Prop} (sound : Sound before) (start : P before [])
    (each : ∀ {arena after done i}, i ∈ symbolIndexes before → i < before.symbolCount before.symtab → i ∉ done →
      CommonsPlaced before arena done → placeCommon i arena = .ok ⟨⟩ after → P arena done → P after (done ++ [i]))
    (run : placeCommons before = .ok ⟨⟩ after) :
    CommonsPlaced before after (symbolIndexes before) ∧ P after (symbolIndexes before) := by
  refine forM_keeps (fun now done => CommonsPlaced before now done ∧ P now done) ?_ ⟨.refl before,start⟩
    (show (symbolIndexes before).forM placeCommon before = _ from run)
  rintro arena later done i rest parts ⟨state,holds⟩ step
  obtain ⟨fresh,bound⟩ := symbolIndexes_split parts
  exact ⟨placeCommon_placed sound bound fresh state step,each (by simp [parts]) bound fresh state step holds⟩

theorem placeCommons_placed (sound : Sound before)
    (run : placeCommons before = .ok ⟨⟩ after) : CommonsPlaced before after (symbolIndexes before) :=
  (placeCommons_keeps (P := fun _ _ => True) sound trivial (fun _ _ _ _ _ _ => trivial) run).1

/-- The zeroed section is aligned like the coarsest symbol placed in it. -/
theorem placeCommons_align {A : UInt64 → Prop} (sound : Sound before) (start : A (before.get before.bss).align)
    (each : ∀ i ∈ symbolIndexes before, (before.symbol before.symtab i).index = common →
      ∀ align, A align → A (max align (max (before.symbol before.symtab i).value 1)))
    (run : placeCommons before = .ok ⟨⟩ after) : A (after.get before.bss).align := by
  refine (placeCommons_keeps (P := fun now _ => A (now.get before.bss).align) sound start ?_ run).2
  intro arena after done i member bound fresh state step holds
  have cases := placeCommon_cases (state.kept.sound sound) (by rwa [state.kept.count]) step
  rw [state.kept.symtab,state.kept.bss,state.waiting i fresh] at cases
  rcases cases with ⟨_,rfl⟩ | ⟨tentative,_,_,offset,found,_⟩
  · exact holds
  · obtain ⟨_,_,_,room⟩ := roomFor?_eq found
    rw [room]
    exact each i member tentative _ holds

/-! ## Resolution -/

theorem resolveSymbol_cases (run : resolveSymbol lookup i arena = .ok none after) :
    (((arena.symbol arena.symtab i).index ≠ undef ∨ (arena.symbol arena.symtab i).isLocal = true) ∧
      after = arena) ∨
    ((arena.symbol arena.symtab i).index = undef ∧ (arena.symbol arena.symtab i).isLocal = false ∧
      ((∃ address, lookup (arena.symbolName arena.symtab i) = some address ∧
        after = arena.setSymbol arena.symtab i
          { arena.symbol arena.symtab i with index := abs, value := address }) ∨
      (lookup (arena.symbolName arena.symtab i) = none ∧
        (arena.symbol arena.symtab i).binding = Binding.weak ∧ after = arena))) := by
  simp only [resolveSymbol,bind_run,get_run] at run
  split at run
  next other =>
    cases run
    exact Or.inl ⟨by simpa using other,rfl⟩
  next undefined =>
    simp only [bne_iff_ne,Bool.or_eq_true,not_or,Bool.not_eq_true,Decidable.not_not] at undefined
    refine Or.inr ⟨undefined.1,undefined.2,?_⟩
    cases found : lookup (arena.symbolName arena.symtab i) with
    | some address =>
      rw [found] at run
      cases run
      exact Or.inl ⟨address,rfl,rfl⟩
    | none =>
      rw [found] at run
      simp only [pure_run,EStateM.Result.ok.injEq] at run
      obtain ⟨weak,rfl⟩ := run
      exact Or.inr ⟨rfl,by simpa using weak,rfl⟩

def ResolvedRecord (lookup : String → Option UInt64) (before after : Arena) (i : Nat) : Prop :=
  let sym := before.symbol before.symtab i
  if sym.index = undef ∧ sym.isLocal = false then
    match lookup (before.symbolName before.symtab i) with
    | some address => after.symbol before.symtab i = { sym with index := abs, value := address }
    | none => sym.binding = Binding.weak ∧ after.symbol before.symtab i = sym
  else after.symbol before.symtab i = sym

structure SymbolsResolved (lookup : String → Option UInt64) (before after : Arena) (done : List Nat) : Prop where
  kept : Kept before after
  zeroed : after.get before.bss = before.get before.bss
  resolved : ∀ i ∈ done, ResolvedRecord lookup before after i
  waiting : ∀ i, i ∉ done → after.symbol before.symtab i = before.symbol before.symtab i

theorem resolveSymbol_resolved (sound : Sound before) (bound : i < before.symbolCount before.symtab) (fresh : i ∉ done)
    (state : SymbolsResolved lookup before arena done) (run : resolveSymbol lookup i arena = .ok none after) :
    SymbolsResolved lookup before after (done ++ [i]) := by
  have unread := state.waiting i fresh
  have now := state.kept.sound sound
  have name : arena.symbolName arena.symtab i = before.symbolName before.symtab i :=
    state.kept.symbolName sound (by rw [state.kept.symtab,unread])
  have cases := resolveSymbol_cases run
  rw [name,state.kept.symtab,unread] at cases
  -- A step that leaves the arena as it is only has to account for symbol `i`.
  have unchanged (record : ResolvedRecord lookup before arena i) :
      SymbolsResolved lookup before arena (done ++ [i]) := by
    refine ⟨state.kept,state.zeroed,fun j member => ?_,fun j absent => state.waiting j fun h =>
      absent (List.mem_append_left _ h)⟩
    rcases List.mem_append.mp member with old | new
    · exact state.resolved j old
    · obtain rfl := List.mem_singleton.mp new
      exact record
  rcases cases with ⟨other,rfl⟩ | ⟨undefined,shared,⟨address,found,rfl⟩ | ⟨found,weak,rfl⟩⟩
  · apply unchanged
    rw [ResolvedRecord,if_neg,unread]
    rintro ⟨undefined,shared⟩
    simp [undefined,shared] at other
  · have written := Kept.setSymbol arena now.apart i
      { before.symbol before.symtab i with index := abs, value := address }
    rw [state.kept.symtab] at written
    have new : (arena.setSymbol arena.symtab i { before.symbol before.symtab i with
        index := abs, value := address }).symbol arena.symtab i =
        { before.symbol before.symtab i with index := abs, value := address } :=
      symbol_setSymbol_same now.present now.stored (lt_of_lt_of_eq bound state.kept.count.symm)
    rw [state.kept.symtab] at new
    refine ⟨state.kept.trans written,?_,?_,?_⟩
    · rw [setSymbol,get_update_other (Ne.symm sound.apart),state.zeroed]
    · intro j member
      by_cases same : j = i
      · subst same
        simp only [ResolvedRecord,if_pos (And.intro undefined shared),found,new]
      · have old := state.resolved j (by simpa [same] using member)
        simp only [ResolvedRecord,symbol_setSymbol_other same] at old ⊢
        exact old
    · intro j absent
      rw [List.mem_append,List.mem_singleton,not_or] at absent
      rw [symbol_setSymbol_other absent.2,state.waiting j absent.1]
  · apply unchanged
    simp only [ResolvedRecord,if_pos (And.intro undefined shared),found]
    exact ⟨weak,unread⟩

theorem resolve_resolved (sound : Sound before) (run : resolve lookup before = .ok ⟨⟩ after) :
    SymbolsResolved lookup before after (symbolIndexes before) := by
  simp only [resolve,bind_eq_ok] at run
  obtain ⟨_,_,same,missing,_,search,finish⟩ := run
  cases same
  split at finish
  next => cases finish
  next none =>
    cases finish
    obtain rfl : missing = [] := by simpa using none
    refine filterMapM_keeps (SymbolsResolved lookup before) ?_ ?_ search
    · intro arena later done i rest parts state step
      obtain ⟨fresh,bound⟩ := symbolIndexes_split parts
      exact resolveSymbol_resolved sound bound fresh state step
    · exact ⟨Kept.refl before,rfl,by simp,fun _ _ => rfl⟩

/-! ## Final records -/

def FinalRecord (lookup : String → Option UInt64) (before after : Arena) (i : Nat) : Prop :=
  let sym := before.symbol before.symtab i
  if sym.index = common then
    ∃ offset, (before.get before.bss).size ≤ offset ∧
      offset + sym.size.toNat ≤ (after.get before.bss).size ∧
      after.symbol before.symtab i =
        { sym with index := ofNat (before.get before.bss).number, value := ofNat offset }
  else if sym.index = undef ∧ sym.isLocal = false then
    match lookup (before.symbolName before.symtab i) with
    | some address => after.symbol before.symtab i = { sym with index := abs, value := address }
    | none => sym.binding = Binding.weak ∧ after.symbol before.symtab i = sym
  else after.symbol before.symtab i = sym

theorem finalRecord (sound : Sound before) (member : i ∈ symbolIndexes before)
    (commons : CommonsPlaced before middle (symbolIndexes before))
    (resolved : SymbolsResolved lookup middle after (symbolIndexes middle)) : FinalRecord lookup before after i := by
  have record := commons.placed i member
  have later := resolved.resolved i (by simpa only [symbolIndexes,commons.kept.count] using member)
  have extent : after.get before.bss = middle.get before.bss := by
    rw [← commons.kept.bss,resolved.zeroed]
  simp only [PlacedRecord] at record
  simp only [ResolvedRecord,commons.kept.symtab] at later
  simp only [FinalRecord,extent]
  split at record
  next tentative =>
    obtain ⟨offset,behind,fits,eq⟩ := record
    rw [if_pos tentative]
    refine ⟨offset,behind,fits,?_⟩
    -- The zeroed section has a number, so the symbol is not looked up again.
    rwa [if_neg (fun h => sound.bss_defined (by rw [eq] at h; exact h.1)),eq] at later
  next other =>
    have name : middle.symbolName before.symtab i = before.symbolName before.symtab i := by
      have := commons.kept.symbolName sound (by rw [commons.kept.symtab,record])
      rwa [commons.kept.symtab] at this
    rw [if_neg other]
    rwa [record,name] at later

end Link
end OnePass
