import OnePass.Proofs.TableKept

/-! # The storage of tentative definitions

Several tentative definitions of one name share the entry of the first one. Only sizes are joined, and only
those of definitions in the common block: the alignment, and the room that is reserved already, are those of
the first. -/
namespace OnePass

open Elf SectionIndex SymbolEntry Binding
open Arena (initial)

variable {entry : SymbolEntry}

namespace Elf

/-- A definition and the power of two that its object is to be aligned to. -/
structure Demand where
  entry : SymbolEntry
  power : Nat
  deriving DecidableEq, Repr

/-- What becomes of an entry when another tentative definition of the name comes. -/
def SymbolEntry.join (old new : SymbolEntry) : SymbolEntry :=
  if old.index = common ∧ new.index = common ∧ old.size < new.size
  then { old with size := new.size } else old

namespace SymbolEntry

variable (old new : SymbolEntry)

@[simp] theorem join_index : (old.join new).index = old.index := by
  rw [join]
  split <;> rfl

@[simp] theorem join_info : (old.join new).info = old.info := by
  rw [join]
  split <;> rfl

@[simp] theorem join_value : (old.join new).value = old.value := by
  rw [join]
  split <;> rfl

end SymbolEntry

namespace Arena

/-- A tentative definition that is neither local nor weak: it is in the common block, or its room in the zeroed section
is reserved at its alignment. -/
structure Tentative (arena : Arena) (d : Demand) : Prop where
  shared : d.entry.isLocal = false
  strong : d.entry.binding ≠ weak
  asks : (d.entry.index = common ∧ d.entry.value.toNat = 2 ^ d.power) ∨
    (d.entry.index.toNat = (arena.get arena.bss).number ∧ 2 ^ d.power ∣ d.entry.value.toNat ∧
      d.entry.value.toNat + d.entry.size.toNat ≤ (arena.get arena.bss).size)

/-- A symbol has storage in the zeroed section that is as large and as aligned as a definition asks for. -/
structure Serves (arena : Arena) (sym : Symbol) (d : Demand) : Prop where
  zeroed : sym.index.toNat = (arena.get arena.bss).number
  within : sym.value.toNat + sym.size.toNat ≤ (arena.get arena.bss).size
  large : d.entry.size ≤ sym.size
  aligned : 2 ^ d.power ∣ sym.value.toNat

variable {start arena after : Arena} {strings hash : SectionId}

theorem Tentative.isTentative (tentative : Tentative start d) : start.isTentative d.entry.index = true := by
  rcases tentative.asks with ⟨common,_⟩ | ⟨zeroed,_⟩
  · simp [Arena.isTentative,common]
  · simp [Arena.isTentative,zeroed]

theorem Tentative.defined (sound : Sound start) (tentative : Tentative start d) :
    d.entry.index ≠ undef := by
  rcases tentative.asks with ⟨common,_⟩ | ⟨zeroed,_⟩
  · rw [common]
    decide
  · intro undefined
    have positive := sound.number.1
    rw [← zeroed,undefined] at positive
    exact absurd positive (by decide)

/-! ## Joining -/

/-- The table has an entry for the name, which says what the definitions so far come to. -/
structure Claimed (start : Arena) (strings hash : SectionId) (name : String) (entry : SymbolEntry) (arena : Arena) : Prop where
  tabled : Tabled arena start.symtab strings hash
  framed : Framed [start.symtab,strings,hash] start arena
  found : arena.findSymbol start.symtab name ≠ 0
  record : ∃ nameOffset, arena.symbol start.symtab (arena.findSymbol start.symtab name) = entry.withName nameOffset

theorem claimed_put (tabled : Tabled start start.symtab strings hash) (absent : start.findSymbol start.symtab name = 0)
    (small : (start.get strings).size < 2 ^ 32) (few : start.symbolCount start.symtab + 1 < 2 ^ 32)
    (free : 0 ∉ Bytes.ofString name) (shared : entry.isLocal = false) :
    Claimed start strings hash name entry (start.mention start.symtab ⟨name,entry⟩) := by
  obtain ⟨_,tabled',extended,framed⟩ := tabled.putSymbol small few entry free
  have added : start.mention start.symtab ⟨name,entry⟩ = (start.putSymbol start.symtab entry name).2 := by
    simp [mention,addSymbol,absent]
  rw [added]
  generalize (start.putSymbol start.symtab entry name).2 = after at *
  obtain ⟨nameOffset,new⟩ := extended.newSymbol
  have count := extended.count
  have present : after.findSymbol start.symtab name ≠ 0 := fun none =>
    tabled'.findSymbol_none none (by omega) (by rwa [new]) extended.newName
  obtain ⟨below,own,named⟩ := tabled'.findSymbol_some present
  -- an older symbol of the name would have been found before
  have last : after.findSymbol start.symtab name = start.symbolCount start.symtab := by
    by_contra older
    have inside : after.findSymbol start.symtab name < start.symbolCount start.symtab := by omega
    rw [extended.symbol _ inside] at own
    rw [extended.symbolName _ inside] at named
    exact tabled.findSymbol_none absent inside own named
  exact ⟨tabled',framed,present,nameOffset,by rw [last,new]⟩

theorem merge_tentative (defined : old.index ≠ undef)
    (strong : old.binding ≠ weak) (defined' : new.index ≠ undef) (strong' : new.binding ≠ weak)
    (tentative : arena.isTentative new.index = true) :
    arena.merge table old new =
      if old.index = common ∧ new.index = common ∧ old.size < new.size then .widen else .keep := by
  simp [merge,defined,strong,defined',strong',tentative,and_assoc]

theorem Claimed.mention (claimed : Claimed start strings hash name entry arena) (sound : Sound start)
    (defined : entry.index ≠ undef) (strong : entry.binding ≠ weak) (tentative : Tentative start d) :
    Claimed start strings hash name (entry.join d.entry) (arena.mention start.symtab ⟨name,d.entry⟩) := by
  obtain ⟨tabled,framed,found,nameOffset,record⟩ := claimed
  obtain ⟨below,shared,named⟩ := tabled.findSymbol_some found
  have merged : arena.merge start.symtab (arena.symbol start.symtab (arena.findSymbol start.symtab name)) d.entry =
      if entry.index = common ∧ d.entry.index = common ∧ entry.size < d.entry.size
      then .widen else .keep := by
    rw [record]
    exact merge_tentative defined strong (tentative.defined sound) tentative.strong
      (by rw [framed.isTentative]; exact tentative.isTentative)
  rw [join]
  split at merged
  next grows =>
    have told : arena.mention start.symtab ⟨name,d.entry⟩ = arena.setSymbol start.symtab (arena.findSymbol start.symtab name)
        { arena.symbol start.symtab (arena.findSymbol start.symtab name) with size := d.entry.size } := by
      simp [Arena.mention,addSymbol,tentative.shared,found,merged]
    have nameOffset' : ({ arena.symbol start.symtab (arena.findSymbol start.symtab name) with
        size := d.entry.size } : Symbol).nameOffset =
        (arena.symbol start.symtab (arena.findSymbol start.symtab name)).nameOffset := rfl
    obtain ⟨tabled',names,count,framed'⟩ := tabled.setSymbol (Nat.pos_of_ne_zero found) below nameOffset' rfl
    have symbols := tabled.symbol_setSymbol below
    rw [told,if_pos grows]
    have same := tabled.findSymbol_congr tabled' count (fun j _ => names j) (fun j _ => by
      rw [symbols]
      split
      next here => rw [here]; rfl
      next => rfl) name
    refine ⟨tabled',framed.trans (framed'.mono (by simp)),by rwa [same],nameOffset,?_⟩
    rw [same,symbols,if_pos rfl,record]
    rfl
  next =>
    have told : arena.mention start.symtab ⟨name,d.entry⟩ = arena := by
      simp [Arena.mention,addSymbol,tentative.shared,found,merged]
    rw [told,if_neg ‹_›]
    exact ⟨tabled,framed,found,nameOffset,record⟩

theorem Claimed.mentionAll (claimed : Claimed start strings hash name entry arena) (sound : Sound start)
    (defined : entry.index ≠ undef) (strong : entry.binding ≠ weak) {rest : List Demand}
    (tentative : ∀ d ∈ rest, Tentative start d) :
    Claimed start strings hash name (rest.foldl (fun e d => e.join d.entry) entry)
      (arena.mentionAll start.symtab (rest.map fun d => ⟨name,d.entry⟩)) := by
  induction rest generalizing arena entry with
  | nil => exact claimed
  | cons d rest ih =>
    have next := claimed.mention sound defined strong (tentative d (by simp))
    refine ih next ?_ ?_ (fun d member => tentative d (by simp [member]))
    · rwa [join_index]
    · rwa [binding,join_info]

end Arena

namespace SymbolEntry

variable {rest : List Demand}

theorem joined_keeps (entry : SymbolEntry) (rest : List Demand) :
    (rest.foldl (fun e d => e.join d.entry) entry).index = entry.index ∧
      (rest.foldl (fun e d => e.join d.entry) entry).value = entry.value := by
  induction rest generalizing entry with
  | nil => exact ⟨rfl,rfl⟩
  | cons d rest ih => simpa using ih (entry.join d.entry)

theorem joined_zeroed (zeroed : entry.index ≠ common) :
    rest.foldl (fun e d => e.join d.entry) entry = entry := by
  induction rest with
  | nil => rfl
  | cons d rest ih => rw [List.foldl_cons,join,if_neg fun both => zeroed both.1,ih]

theorem join_size (common : entry.index = common) (new : SymbolEntry) :
    entry.size ≤ (entry.join new).size ∧ (new.index = SectionIndex.common → new.size ≤ (entry.join new).size) ∧
      ((entry.join new).size = entry.size ∨ new.index = SectionIndex.common ∧ (entry.join new).size = new.size) := by
  rw [join]
  split
  next grows => exact ⟨UInt64.le_of_lt grows.2.2,fun _ => UInt64.le_refl _,.inr ⟨grows.2.1,rfl⟩⟩
  next stays =>
    exact ⟨UInt64.le_refl _,fun common' => UInt64.not_lt.mp fun less => stays ⟨common,common',less⟩,.inl rfl⟩

theorem joined_common (common : entry.index = common) (rest : List Demand) :
    entry.size ≤ (rest.foldl (fun e d => e.join d.entry) entry).size ∧
      (∀ d ∈ rest, d.entry.index = SectionIndex.common →
        d.entry.size ≤ (rest.foldl (fun e d => e.join d.entry) entry).size) ∧
      ((rest.foldl (fun e d => e.join d.entry) entry).size = entry.size ∨
        ∃ d ∈ rest, d.entry.index = SectionIndex.common ∧
          (rest.foldl (fun e d => e.join d.entry) entry).size = d.entry.size) := by
  induction rest generalizing entry with
  | nil => exact ⟨UInt64.le_refl _,by simp,.inl rfl⟩
  | cons d rest ih =>
    obtain ⟨least,own,which⟩ := join_size common d.entry
    have index : (entry.join d.entry).index = SectionIndex.common := by rw [join_index,common]
    obtain ⟨first,each,last⟩ := ih index
    rw [List.foldl_cons]
    refine ⟨UInt64.le_trans least first,fun d' member common' => ?_,?_⟩
    · rcases List.mem_cons.mp member with rfl | later
      · exact UInt64.le_trans (own common') first
      · exact each d' later common'
    · rcases last with same | ⟨d',member,common',same⟩
      · rw [same]
        exact which.imp_right fun ⟨common',same⟩ => ⟨d,by simp,common',same⟩
      · exact .inr ⟨d',by simp [member],common',same⟩

end SymbolEntry
end Elf

namespace Link

open Elf.Arena

variable {strings hash : SectionId}

/-! ## The storage of a name -/

theorem commonAlign_power (power : (before.symbol before.symtab i).value.toNat = 2 ^ k) :
    (commonAlign before i).toNat = 2 ^ k := by
  rw [commonAlign,max_power power (show (1 : UInt64).toNat = 2 ^ 0 from rfl),Nat.max_zero]

/-- What placing leaves of the entry of a name. -/
structure Placement (start after : Arena) (entry : SymbolEntry) (sym : Symbol) : Prop where
  bss : after.bss = start.bss
  number : (after.get after.bss).number = (start.get start.bss).number
  grown : (start.get start.bss).size ≤ (after.get after.bss).size
  size : sym.size = entry.size
  common : entry.index = common → sym.index = UInt16.ofNat (start.get start.bss).number ∧
    ∀ k, entry.value.toNat = 2 ^ k → 2 ^ k ∣ sym.value.toNat ∧
      sym.value.toNat + sym.size.toNat ≤ (after.get after.bss).size ∧ entry.value ≤ (after.get after.bss).align
  zeroed : entry.index ≠ SectionIndex.common → sym.index = entry.index ∧ sym.value = entry.value

theorem placeCommons_placement (sound : start.Sound)
    (aside : start.bss ∉ [start.symtab,strings,hash]) (claimed : Claimed start strings hash name entry before)
    (run : placeCommons before = .ok ⟨⟩ after) :
    Placement start after entry (after.symbol after.symtab (after.findSymbol after.symtab name)) := by
  obtain ⟨tabled,framed,found,nameOffset,record⟩ := claimed
  have symtab : before.symtab = start.symtab := framed.symtab
  have bss : before.bss = start.bss := framed.bss
  have sound' : before.Sound := sound.framed framed tabled.named.records.stored
  have same : before.get start.bss = start.get start.bss := framed.others _ aside
  rw [← symtab] at tabled found record
  rw [← bss] at same
  rw [← bss,← symtab] at aside
  have kept := placeCommons_tableKept tabled aside run
  have commons := placeCommons_placed sound' run
  obtain ⟨align,size,zeros,grown,zeroed⟩ := commons.kept.zeroed
  obtain ⟨below,shared,_⟩ := tabled.findSymbol_some found
  have member : before.findSymbol before.symtab name ∈ symbolIndexes before :=
    List.mem_range'_1.mpr ⟨Nat.pos_of_ne_zero found,by omega⟩
  have placed := commons.placed _ member
  rw [kept.findSymbol tabled,kept.symtab]
  generalize before.findSymbol before.symtab name = i at *
  have index : (before.symbol before.symtab i).index = entry.index := by rw [record]; rfl
  have value : (before.symbol before.symtab i).value = entry.value := by rw [record]; rfl
  have extent : (before.symbol before.symtab i).size = entry.size := by rw [record]; rfl
  simp only [PlacedRecord,index] at placed
  refine ⟨kept.bss.trans bss,?_,?_,?_,fun common => ?_,fun other => ?_⟩
  · rw [kept.bss,zeroed,Section.wider_number,same,bss]
  · rwa [kept.bss,zeroed,← bss,← same]
  · split at placed
    next =>
      obtain ⟨offset,_,_,eq⟩ := placed
      rwa [eq]
    next => rw [placed,extent]
  · rw [if_pos common] at placed
    obtain ⟨offset,_,_,eq⟩ := placed
    refine ⟨by rw [eq,← bss,← same],fun k power => ?_⟩
    have asked : (before.symbol before.symtab i).value.toNat = 2 ^ k := by rw [value,power]
    have housed := placeCommons_housed sound' member (by rw [index,common]) (commonAlign_power asked) run
    have finer := housed.finer
    rw [commonAlign,max_le_iff_both,value] at finer
    rw [kept.bss]
    refine ⟨housed.aligned,?_,finer.1⟩
    have within := housed.within
    rwa [eq] at within ⊢
  · rw [if_neg other] at placed
    rw [placed]
    exact ⟨index,value⟩

/-- The storage of a name with tentative definitions is that of the first one. It serves every definition that asks
for no more alignment than the first one and for no more room than there is. There is as much room as the largest
definition in the common block asks for, if the first one is there, and otherwise as much as the first one asks for. -/
theorem first_tentative_decides {start : Arena} (tabled : Tabled start start.symtab strings hash) (sound : start.Sound)
    (aside : start.bss ∉ [start.symtab,strings,hash]) (ordinary : (start.get start.bss).number ≠ SectionIndex.common.toNat)
    {name : String} (absent : start.findSymbol start.symtab name = 0) (free : 0 ∉ Bytes.ofString name)
    (small : (start.get strings).size < 2 ^ 32) (few : start.symbolCount start.symtab + 1 < 2 ^ 32)
    {first : Demand} {rest : List Demand} (tentative : ∀ d ∈ first :: rest, Tentative start d)
    (placed : placeCommons (start.mentionAll start.symtab ((first :: rest).map fun d => ⟨name,d.entry⟩)) = .ok ⟨⟩ after) :
    let sym := after.symbol after.symtab (after.findSymbol after.symtab name)
    (∀ d ∈ first :: rest, d.power ≤ first.power → d.entry.size ≤ sym.size → Serves after sym d) ∧
    (first.entry.index = SectionIndex.common →
      (∀ d ∈ first :: rest, d.entry.index = SectionIndex.common → d.entry.size ≤ sym.size) ∧
      (∃ d ∈ first :: rest, d.entry.index = SectionIndex.common ∧ sym.size = d.entry.size) ∧
      first.entry.value ≤ (after.get after.bss).align) ∧
    (first.entry.index ≠ SectionIndex.common → sym.value = first.entry.value ∧ sym.size = first.entry.size) := by
  intro sym
  have own := tentative first (by simp)
  have claimed := (claimed_put tabled absent small few free own.shared).mentionAll sound (own.defined sound) own.strong
    (fun d member => tentative d (by simp [member]) : ∀ d ∈ rest, Tentative start d)
  obtain ⟨index,value⟩ := first.entry.joined_keeps rest
  have placement := placeCommons_placement sound aside claimed placed
  change Placement start after _ sym at placement
  refine ⟨fun d member coarser fits => ?_,fun common => ?_,fun other => ?_⟩
  · rcases own.asks with ⟨common,power⟩ | ⟨zeroed,multiple,reserved⟩
    · obtain ⟨here,storage⟩ := placement.common (index.trans common)
      obtain ⟨aligned,within,_⟩ := storage first.power (by rw [value,power])
      refine ⟨?_,within,fits,Nat.dvd_trans (Nat.pow_dvd_pow 2 coarser) aligned⟩
      rw [here,placement.number,UInt16.toNat_ofNat',Nat.mod_eq_of_lt sound.number.2]
    · have other : first.entry.index ≠ SectionIndex.common := fun common => ordinary (by rw [← zeroed,common])
      obtain ⟨here,there⟩ := placement.zeroed (by rwa [index])
      have size := placement.size
      rw [SymbolEntry.joined_zeroed other] at here there size
      refine ⟨by rw [here,placement.number,zeroed],?_,fits,?_⟩
      · rw [there,size]
        exact Nat.le_trans reserved placement.grown
      · rw [there]
        exact Nat.dvd_trans (Nat.pow_dvd_pow 2 coarser) multiple
  · obtain ⟨least,each,one⟩ := SymbolEntry.joined_common common rest
    rw [← placement.size] at least each one
    refine ⟨fun d member common' => ?_,?_,?_⟩
    · rcases List.mem_cons.mp member with rfl | later
      · exact least
      · exact each d later common'
    · rcases one with same | ⟨d,member,common',same⟩
      · exact ⟨first,by simp,common,same⟩
      · exact ⟨d,by simp [member],common',same⟩
    · rcases own.asks with ⟨_,power⟩ | ⟨zeroed,_⟩
      · have finer := ((placement.common (index.trans common)).2 first.power (by rw [value,power])).2.2
        rwa [value] at finer
      · exact absurd (by rw [← zeroed,common]) ordinary
  · obtain ⟨_,there⟩ := placement.zeroed (by rwa [index])
    have size := placement.size
    rw [SymbolEntry.joined_zeroed other] at there size
    exact ⟨there,size⟩

/-- Two definitions in the common block, the larger one not first. -/
def growing : List Demand :=
  [⟨{ info := 0x11, index := common, value := 16, size := 4 },4⟩,
    ⟨{ info := 0x11, index := common, value := 4, size := 8 },2⟩]

theorem first_tentative_decides_growing : (∀ d ∈ growing, Tentative initial d) ∧
    ∃ after, placeCommons (initial.mentionAll initial.symtab (growing.map fun d => ⟨"c",d.entry⟩)) = .ok ⟨⟩ after ∧
      ∀ d ∈ growing, Serves after (after.symbol after.symtab (after.findSymbol after.symtab "c")) d := by
  have asks : ∀ d ∈ growing, Tentative initial d := by
    intro d member
    simp only [growing,List.mem_cons,List.not_mem_nil,or_false] at member
    rcases member with rfl | rfl
    · exact ⟨by decide,by decide,.inl ⟨rfl,rfl⟩⟩
    · exact ⟨by decide,by decide,.inl ⟨rfl,rfl⟩⟩
  have runs : succeeds (fun _ => true) (placeCommons (initial.mentionAll initial.symtab
      (growing.map fun d => ⟨"c",d.entry⟩))) = true := by decide +kernel
  obtain ⟨_,after,run,_⟩ := succeeds_iff.mp runs
  obtain ⟨serves,common,_⟩ := first_tentative_decides tabled_initial standing_initial.toSound (by decide +kernel) (by decide +kernel)
    (by decide +kernel) (by decide +kernel) (by decide +kernel) (by decide +kernel) asks run
  refine ⟨asks,after,run,fun d member => serves d member ?_ ((common rfl).1 d member ?_)⟩
  all_goals
    simp only [growing,List.mem_cons,List.not_mem_nil,or_false] at member
    rcases member with rfl | rfl <;> decide

/-- The alignment of a definition that comes second is forgotten. -/
theorem second_alignment_forgotten : let start := initial.update initial.bss (·.resize 4)
    let first : Demand := ⟨{ info := 0x11, index := common, value := 4, size := 4 },2⟩
    let second : Demand := ⟨{ info := 0x11, index := common, value := 16, size := 4 },4⟩
    Tentative start first ∧ Tentative start second ∧
      ∃ after, placeCommons (start.mentionAll start.symtab [⟨"c",first.entry⟩,⟨"c",second.entry⟩]) = .ok ⟨⟩ after ∧
        ¬Serves after (after.symbol after.symtab (after.findSymbol after.symtab "c")) second := by
  intro start first second
  have placed : leaves (fun after => (after.symbol after.symtab (after.findSymbol after.symtab "c")).value == 4)
      (placeCommons (start.mentionAll start.symtab [⟨"c",first.entry⟩,⟨"c",second.entry⟩])) = true := by decide +kernel
  obtain ⟨_,after,run,value⟩ := leaves_iff.mp placed
  refine ⟨⟨by decide,by decide,.inl ⟨rfl,rfl⟩⟩,⟨by decide,by decide,.inl ⟨rfl,rfl⟩⟩,after,run,fun serves => ?_⟩
  have aligned := serves.aligned
  rw [eq_of_beq value] at aligned
  exact absurd aligned (by decide)

end Link
end OnePass
