import OnePass.Proofs.LoadedArena

/-! # Loading an object keeps an arena safe to link

Each section of the file is appended to a section with contents, each symbol is added or merged, and each
relocation is moved to where its section and its symbol went. -/
namespace OnePass

open List Option

/-- A sequence of steps keeps what every step keeps of the state, of the items that it took and of their results. -/
theorem mapM_keeps {ε σ β γ : Type} {step : γ → EStateM ε σ β} (keeps : σ → List γ → List β → Prop) {all : List γ}
    {s s' : σ} {out : List β}
    (each : ∀ c ∈ all, ∀ s s' items done b, keeps s items done → step c s = .ok b s' →
      keeps s' (items ++ [c]) (done ++ [b]))
    (start : keeps s [] []) (run : all.mapM step s = .ok out s') : keeps s' all out := by
  suffices ∀ rest ⊆ all, ∀ items done s out, keeps s items done → rest.mapM step s = .ok out s' →
      keeps s' (items ++ rest) (done ++ out) by
    simpa using this all (List.Subset.refl _) [] [] s out start run
  intro rest
  induction rest with
  | nil =>
    intro _ items done s out holds run
    cases run
    simpa using holds
  | cons c rest ih =>
    intro subset items done s out holds run
    rw [mapM_cons,bind_eq_ok] at run
    obtain ⟨b,t,first,run⟩ := run
    obtain ⟨bs,u,later,run⟩ := bind_eq_ok.mp run
    cases run
    have next := ih (subset_of_cons_subset subset) (items ++ [c]) (done ++ [b]) t bs
      (each c (subset mem_cons_self) s t items done b holds first) later
    simpa using next

namespace Elf

open SectionIndex
open SectionFlag

structure File.AsksPowers (file : File) : Prop where
  sections : ∀ header ∈ file.sections.toList, Object.isLoadable header = true → IsAlignment (max header.align 1)
  tentative : ∀ view, file.symbols SectionType.symtab = .ok view → ∀ sym ∈ view.symbols,
    sym.index = common → IsAlignment (max sym.value 1)

instance decidableForallOk {ε α : Type} (read : Except ε α) (p : α → Prop) [DecidablePred p] :
    Decidable (∀ a, read = .ok a → p a) :=
  match read with
  | .ok a => decidable_of_iff (p a) ⟨fun holds _ same => Except.ok.inj same ▸ holds,fun all => all a rfl⟩
  | .error _ => isTrue fun _ same => by cases same

instance (file : File) : Decidable file.AsksPowers :=
  decidable_of_iff (_ ∧ _) ⟨fun ⟨sections,tentative⟩ => ⟨sections,tentative⟩,fun asks => ⟨asks.sections,asks.tentative⟩⟩

namespace Object

open Arena (Safe Carries)

variable {arena middle after : Arena}

structure Holds (arena : Arena) (place : Placed) : Prop where
  content : Section.IsContent (arena.get place.target).type
  inside : place.offset + place.size ≤ (arena.get place.target).size
  small : place.offset + place.size < 2 ^ 32
  number : (arena.get place.target).number < arena.listed.size

theorem Holds.carry (holds : Holds arena place) (carries : Carries arena after) : Holds after place where
  content := carries.content holds.content
  inside := le_trans holds.inside (carries.longer _ holds.content)
  small := holds.small
  number := by
    rw [carries.number _ (Arena.isContent_bound holds.content)]
    exact lt_of_lt_of_le holds.number carries.listed

theorem isContent_of_loadable (loadable : isLoadable header = true) : Section.IsContent header.type := by
  simp only [isLoadable,Bool.and_eq_true,contains_iff_mem] at loadable
  exact loadable.2

/-! ## Sections -/

theorem targetSection_safe (safe : Safe arena) (run : targetSection name header arena = .ok target middle) :
    Safe middle ∧ Carries arena middle ∧ middle.listed.size ≤ arena.listed.size + 1 ∧
      (middle.get target).type = header.type ∧ (middle.get target).number < middle.listed.size := by
  simp only [targetSection,bind_run,get_run] at run
  cases found : arena.find? name with
  | some id =>
    simp only [found] at run
    obtain ⟨_,_,same,run⟩ := bind_eq_ok.mp run
    cases same
    by_cases other : (arena.get id).type = header.type
    · simp only [other,bne_self_eq_false] at run
      cases run
      refine ⟨safe,.refl _,Nat.le_succ _,other,?_⟩
      obtain ⟨k,at_⟩ := mem_iff_getElem?.mp (mem_of_mem_drop (mem_of_find?_eq_some found))
      rw [Array.getElem?_toList] at at_
      rw [(safe.numbered k _ at_).2]
      exact (Array.getElem?_eq_some_iff.mp at_).1
    · rw [if_pos (bne_iff_ne.mpr other)] at run
      cases run
  | none =>
    simp only [found,LoadM.change] at run
    cases run
    have counted : header.flags.toUInt32 &&& (alloc ||| write ||| exec) &&&
        unlisted = 0 := by
      rw [UInt32.and_assoc]
      exact UInt32.and_zero
    obtain ⟨index,listed,bss,same⟩ := Arena.made_listed arena name header.type _ counted
      (f := fun sec => { sec with align := 1 }) fun _ => rfl
    refine ⟨safe.extend listed bss same rfl ⟨0,by decide,rfl⟩ rfl,.extend safe listed same,?_⟩
    rw [index] at listed ⊢
    rw [listed.made,listed.listed,Array.size_push]
    exact ⟨Nat.le_refl _,rfl,Nat.lt_succ_self _⟩

theorem placeSection_safe (safe : Safe arena) (asks : isLoadable header = true → IsAlignment (max header.align 1))
    (run : placeSection file header arena = .ok result after) :
    Safe after ∧ Carries arena after ∧ after.listed.size ≤ arena.listed.size + 1 ∧
      ∀ place ∈ result, Holds after place := by
  unfold placeSection at run
  by_cases loadable : isLoadable header = true
  case neg =>
    simp only [loadable] at run
    cases run
    exact ⟨safe,.refl _,Nat.le_succ _,by simp⟩
  simp only [loadable] at run
  obtain ⟨target,middle,found,run⟩ := bind_eq_ok.mp run
  obtain ⟨safe',carries,listed,type,number⟩ := targetSection_safe safe found
  have content : Section.IsContent (middle.get target).type := type ▸ isContent_of_loadable loadable
  have bound := Arena.isContent_bound content
  obtain ⟨bytes,unread,read,run⟩ := bind_eq_ok.mp run
  obtain rfl : middle = unread := by
    cases contents : file.contents header with
    | error fault => simp [LoadM.format,contents] at read
    | ok _ =>
      simp only [contents] at read
      cases read
      rfl
  simp only [bind_run,modify_run,get_run] at run
  rw [Arena.get_update_same bound] at run
  cases grows : (Section.alignTo { middle.get target with align := max (middle.get target).align (max header.align 1) }
      (max header.align 1)).2.grow? header.size.toNat with
  | none =>
    simp only [grows] at run
    cases run
  | some room =>
    obtain ⟨offset,grown⟩ := room
    simp only [grows,bind_run,modify_run] at run
    cases run
    obtain ⟨size,zeros,padded,aligned⟩ := Section.alignTo_eq { middle.get target with
      align := max (middle.get target).align (max header.align 1) } (max header.align 1)
    obtain ⟨start,fits,more,wide⟩ := Section.grow?_eq _ _ _ _ grows
    have limit := Link.Linkable.limit_le (Section.alignTo { middle.get target with
      align := max (middle.get target).align (max header.align 1) } (max header.align 1)).2
    rw [aligned] at start fits wide limit
    have filled : (middle.get target).Filled (grown.patch offset bytes.toList) := by
      rw [wide]
      dsimp only [Section.patch]
      exact ⟨rfl,rfl,rfl,rfl,Nat.le_trans padded (Nat.le_add_right _ _)⟩
    -- The padding and the contents are one change of the section.
    have once : (middle.update target fun sec => (Section.alignTo { sec with
        align := max sec.align (max header.align 1) } (max header.align 1)).2).update target
          (fun _ => grown.patch offset bytes.toList) = middle.update target fun _ => grown.patch offset bytes.toList := by
      rw [Arena.update_update]
      rfl
    rw [once]
    have safe'' := safe'.fill content filled (by rw [wide]; exact (safe'.powers target bound).max (asks loadable)) fun _ => by
      rwa [wide]
    have carries' : Carries middle (middle.update target fun _ => grown.patch offset bytes.toList) :=
      .update (safe'.apart content).1 filled.type filled.number filled.longer
    refine ⟨safe'',carries.trans carries',listed,fun place there => ?_⟩
    obtain rfl := some.inj there
    refine ⟨carries'.content content,?_,?_,?_⟩
    · rw [Arena.get_update_same bound,wide,start]
      exact le_refl _
    · rw [start]
      exact lt_of_le_of_lt (le_trans fits limit) (by decide)
    · rw [carries'.number _ bound]
      exact lt_of_lt_of_le number carries'.listed

def AllHeld (arena : Arena) (placed : List (Option Placed)) : Prop := ∀ place, some place ∈ placed → Holds arena place

theorem AllHeld.carry (held : AllHeld arena placed) (carries : Carries arena after) :
    AllHeld after placed := fun place member => (held place member).carry carries

theorem AllHeld.at (held : AllHeld arena placed) (found : placedAt? placed i = some place) : Holds arena place := by
  refine held place (mem_of_getElem? (i := i) ?_)
  rwa [placedAt?,join_eq_some_iff] at found

theorem placeSections_safe (safe : Safe arena) (asks : file.AsksPowers)
    (run : placeSections file arena = .ok placed after) :
    Safe after ∧ after.listed.size ≤ arena.listed.size + file.sections.size ∧ AllHeld after placed := by
  unfold placeSections at run
  rw [← file.sections.length_toList]
  cases sections : file.sections.toList with
  | nil =>
    simp only [sections] at run
    cases run
    exact ⟨safe,Nat.le_add_right _ _,fun _ member => by cases member⟩
  | cons null rest =>
    simp only [sections] at run
    obtain ⟨found,last,run,finish⟩ := bind_eq_ok.mp run
    cases finish
    have all := mapM_keeps (fun s items placed => Safe s ∧ s.listed.size ≤ arena.listed.size + items.length ∧
      AllHeld s placed) ?_ ⟨safe,le_refl _,fun _ member => by cases member⟩ run
    · obtain ⟨safe',listed,held⟩ := all
      exact ⟨safe',Nat.le_succ_of_le listed,fun place member => held place (by simpa using member)⟩
    · rintro header member s s' items done result ⟨safe,listed,held⟩ step
      obtain ⟨safe',carries,more,holds⟩ := placeSection_safe safe
        (asks.sections header (by rw [sections]; exact mem_cons_of_mem _ member)) step
      refine ⟨safe',?_,fun place inside => ?_⟩
      · rw [length_append]
        exact Nat.le_trans more (Nat.succ_le_succ listed)
      · rcases mem_append.mp inside with old | new
        · exact (held place old).carry carries
        · exact holds place (mem_singleton.mp new).symm

/-! ## Symbols -/

section

variable (few : arena.listed.size ≤ reserved.toNat)

include few

theorem moved_asks (held : AllHeld arena placed)
    (asks : sym.index = common → IsAlignment (max sym.value 1))
    (run : moved placed name sym arena = .ok result middle) :
    arena = middle ∧ ∀ sym' ∈ result, sym'.index = common → IsAlignment (max sym'.value 1) := by
  unfold moved at run
  by_cases special : (sym.index == undef || decide (sym.index ≥ reserved)) = true
  · rw [if_pos special] at run
    cases run
    exact ⟨rfl,fun sym' same => some.inj same ▸ asks⟩
  rw [if_neg special] at run
  cases found : placedAt? placed sym.index.toNat with
  | none =>
    simp only [found] at run
    by_cases own : sym.isLocal = true
    · rw [if_pos own] at run
      cases run
      exact ⟨rfl,fun _ none => by cases none⟩
    · rw [if_neg own] at run
      cases run
  | some place =>
    simp only [found] at run
    obtain ⟨_,_,same,run⟩ := bind_eq_ok.mp run
    cases same
    cases run
    refine ⟨rfl,fun sym' same common => ?_⟩
    obtain rfl := some.inj same
    -- The section has an ordinary number.
    have number := (held.at found).number
    have value := congrArg UInt16.toNat common
    rw [UInt16.toNat_ofNat',Nat.mod_eq_of_lt (Nat.lt_of_lt_of_le number (Nat.le_trans few (by decide)))] at value
    rw [value] at number
    exact absurd (lt_of_lt_of_le number few) (by decide)

theorem mergeSymbol_safe (safe : Safe arena) (held : AllHeld arena placed)
    (asks : sym.index = common → IsAlignment (max sym.value 1))
    (run : mergeSymbol file view placed sym arena = .ok index after) :
    Safe after ∧ Carries arena after ∧ after.listed = arena.listed ∧ after.allocated = arena.allocated ∧
      index < after.symbolCount after.symtab := by
  unfold mergeSymbol at run
  generalize (if sym.type == SymbolType.section_ then ""
    else File.textAt file.data view.strings sym.nameOffset.toNat) = name at run
  obtain ⟨result,middle,moves,run⟩ := bind_eq_ok.mp run
  obtain ⟨rfl,asks'⟩ := moved_asks few held asks moves
  cases result with
  | none =>
    cases run
    exact ⟨safe,.refl _,rfl,rfl,safe.null⟩
  | some sym' =>
    have asks'' : (entryOf sym').index = common → IsAlignment (max (entryOf sym').value 1) := asks' sym' rfl
    dsimp only at run
    by_cases own : sym'.isLocal = true
    · rw [if_pos own] at run
      simp only [LoadM.change] at run
      obtain ⟨rfl,rfl⟩ := run
      obtain ⟨safe',index,count⟩ := safe.putSymbol asks'' name
      have framed := Arena.putSymbol_framed arena (entryOf sym') name
      refine ⟨safe',.framed safe framed (by omega),framed.listed,framed.allocated,?_⟩
      rw [framed.symtab]
      omega
    · rw [if_neg own] at run
      obtain ⟨_,_,same,run⟩ := bind_eq_ok.mp run
      cases same
      cases added : arena.addSymbol arena.symtab (entryOf sym') name with
      | error _ =>
        simp only [added] at run
        cases run
      | ok both =>
        simp only [added] at run
        cases run
        have shared : (entryOf sym').isLocal = false := Bool.eq_false_iff.mpr own
        obtain ⟨safe',below,count,framed⟩ := safe.addSymbol asks'' shared added
        refine ⟨safe',.framed safe framed count,framed.listed,framed.allocated,?_⟩
        rwa [framed.symtab]

theorem mergeSymbols_safe (safe : Safe arena) (held : AllHeld arena placed) (asks : file.AsksPowers)
    (run : mergeSymbols file placed arena = .ok symbols after) :
    Safe after ∧ Carries arena after ∧ after.allocated = arena.allocated ∧
      ∀ index ∈ symbols, index < after.symbolCount after.symtab := by
  obtain ⟨view,unread,read,run⟩ := bind_eq_ok.mp run
  cases viewed : file.symbols SectionType.symtab with
  | error fault =>
    simp only [viewed] at read
    cases read
  | ok found =>
    simp only [viewed] at read
    cases read
    cases listing : view.symbols with
    | nil =>
      simp only [listing] at run
      cases run
      exact ⟨safe,.refl _,rfl,by simp⟩
    | cons null rest =>
      simp only [listing] at run
      obtain ⟨indices,last,run,finish⟩ := bind_eq_ok.mp run
      cases finish
      have all := mapM_keeps (fun s _ indices => Safe s ∧ Carries arena s ∧ s.listed = arena.listed ∧
        s.allocated = arena.allocated ∧ ∀ index ∈ indices, index < s.symbolCount s.symtab) ?_
        ⟨safe,.refl _,rfl,rfl,by simp⟩ run
      · obtain ⟨safe',carries,_,allocated,below⟩ := all
        refine ⟨safe',carries,allocated,fun index member => ?_⟩
        rcases mem_cons.mp (mem_toArray.mp member) with rfl | old
        · exact safe'.null
        · exact below index old
      · rintro sym member s s' _ done index ⟨safe,carries,listed,allocated,below⟩ step
        obtain ⟨safe',carries',listed',allocated',new⟩ := mergeSymbol_safe (listed ▸ few) safe (held.carry carries)
          (asks.tentative view viewed sym (by rw [listing]; exact mem_cons_of_mem _ member)) step
        refine ⟨safe',carries.trans carries',listed'.trans listed,allocated'.trans allocated,fun i inside => ?_⟩
        rcases mem_append.mp inside with old | last
        · rw [carries'.symtab]
          exact lt_of_lt_of_le (below i old) carries'.count
        · rwa [mem_singleton.mp last]

end

/-! ## Relocations -/

theorem mergeRelocation_safe (safe : Safe arena) (holds : Holds arena target)
    (below : ∀ index ∈ symbols, index < arena.symbolCount arena.symtab)
    (run : mergeRelocation table target symbols position rel arena = .ok ⟨⟩ after) :
    Safe after ∧ Carries arena after ∧ after.allocated = arena.allocated := by
  unfold mergeRelocation at run
  by_cases outside : rel.offset.toNat + (relocWidth? rel.type).getD 1 > target.size
  · rw [if_pos outside] at run
    cases run
  rw [if_neg outside] at run
  cases found : symbols[rel.symbol.toNat]? with
  | none =>
    simp only [found] at run
    cases run
  | some symbol =>
    simp only [found] at run
    by_cases lost : (decide (symbol = 0) && rel.symbol != 0) = true
    · rw [if_pos lost] at run
      cases run
    rw [if_neg lost] at run
    cases run
    refine safe.putRelocation holds.content (fun width known => ?_) ?_
    · have inside := holds.inside
      have wide : (relocWidth? rel.type).getD 1 = width := by rw [mem_def.mp known,getD_some]
      have offset : (rel.offset + UInt64.ofNat target.offset).toNat ≤ rel.offset.toNat + target.offset := by
        exact Nat.le_trans (Nat.mod_le _ _) (Nat.add_le_add_left (Nat.mod_le _ _) _)
      show (rel.offset + UInt64.ofNat target.offset).toNat + width ≤ _
      omega
    · exact Nat.lt_of_le_of_lt (Nat.mod_le _ _) (below symbol (Array.mem_of_getElem? found))

theorem mergeRelocations_safe (safe : Safe arena)
    (held : AllHeld arena placed) (below : ∀ index ∈ symbols, index < arena.symbolCount arena.symtab)
    (run : mergeRelocations file placed symbols header arena = .ok ⟨⟩ after) :
    Safe after ∧ Carries arena after ∧ after.allocated = arena.allocated := by
  unfold mergeRelocations at run
  by_cases other : (header.type != SectionType.rela && header.type != SectionType.rel) = true
  · rw [if_pos other] at run
    cases run
    exact ⟨safe,.refl _,rfl⟩
  rw [if_neg other] at run
  cases found : placedAt? placed header.info.toNat with
  | none =>
    simp only [found] at run
    cases run
    exact ⟨safe,.refl _,rfl⟩
  | some target =>
    simp only [found] at run
    by_cases rel : (header.type == SectionType.rel) = true
    · rw [if_pos rel] at run
      cases run
    rw [if_neg rel] at run
    obtain ⟨bytes,unread,read,run⟩ := bind_eq_ok.mp run
    cases records : file.records header Relocation.recordSize with
    | error fault =>
      simp only [records] at read
      cases read
    | ok found' =>
      simp only [records] at read
      cases read
      refine forM_keeps (fun s _ => Safe s ∧ Carries arena s ∧ s.allocated = arena.allocated) ?_ ⟨safe,.refl _,rfl⟩ run
      rintro s s' done ⟨rel,position⟩ rest _ ⟨safe,carries,allocated⟩ step
      obtain ⟨safe',carries',allocated'⟩ := mergeRelocation_safe safe ((held.at found).carry carries)
        (fun index member => carries.symtab ▸ lt_of_lt_of_le (below index member) carries.count) step
      exact ⟨safe',carries.trans carries',allocated'.trans allocated⟩

/-! ## The whole object -/

/-- An object that asks for powers of two, and for no more sections than there are ordinary numbers, leaves the
arena safe to link. -/
theorem load_keeps_safe (safe : Safe arena) (asks : ∀ file, File.parse data = .ok file → file.AsksPowers)
    (few : ∀ file, File.parse data = .ok file → arena.listed.size + file.sections.size ≤ reserved.toNat)
    (run : load data arena = .ok ⟨⟩ after) : Safe after ∧ after.allocated.length ≤ reserved.toNat := by
  obtain ⟨file,unread,read,run⟩ := bind_eq_ok.mp run
  cases parsed : File.parse data with
  | error fault =>
    simp only [LoadM.parse,parsed] at read
    cases read
  | ok found =>
    simp only [LoadM.parse,parsed] at read
    cases read
    by_cases type : file.type ≠ File.typeRelocatable
    · rw [if_pos type] at run
      cases run
    rw [if_neg type] at run
    by_cases twice : file.sections.toList.countP (·.type == SectionType.symtab) > 1
    · rw [if_pos twice] at run
      cases run
    rw [if_neg twice] at run
    obtain ⟨placed,s,places,run⟩ := bind_eq_ok.mp run
    obtain ⟨symbols,t,merges,run⟩ := bind_eq_ok.mp run
    obtain ⟨safe₁,listed,held⟩ := placeSections_safe safe (asks file parsed) places
    obtain ⟨safe₂,carries,kept,below⟩ := mergeSymbols_safe (le_trans listed (few file parsed)) safe₁ held
      (asks file parsed) merges
    have all := forM_keeps (fun u _ => Safe u ∧ Carries t u ∧ u.allocated = t.allocated) ?_ ⟨safe₂,.refl _,rfl⟩ run
    · obtain ⟨safe₃,_,kept'⟩ := all
      refine ⟨safe₃,?_⟩
      rw [kept',kept]
      have part : s.allocated.length ≤ s.listed.size := by
        rw [← s.listed.length_toList]
        exact le_trans (length_filter_le _ _) (by rw [Arena.numbered,length_drop]; omega)
      exact le_trans part (le_trans listed (few file parsed))
    · rintro u u' done header rest _ ⟨safe,carries',kept⟩ step
      obtain ⟨safe',more,kept'⟩ := mergeRelocations_safe safe (held.carry (carries.trans carries'))
        (fun index member => carries'.symtab ▸ lt_of_lt_of_le (below index member) carries'.count) step
      exact ⟨safe',carries'.trans more,kept'.trans kept⟩

end Object
end Elf
end OnePass
