import OnePass.Proofs.TableKept

/-! # Repairing a link

A failed link has given the tentative definitions their room and the symbols that were found their
addresses. Writes to different records commute, and a symbol that is defined later is none that the failed
link has written, so the definition may as well come first. -/
namespace OnePass

open Elf SectionIndex UInt16 Elf.Symbol List Arena

variable {before after : Arena} {new : SymbolEntry} {m : Mention}

def outcome {ε σ α : Type} : EStateM.Result ε σ α → Except ε α
  | .ok a _ => .ok a
  | .error e _ => .error e

theorem forM_follows {ε σ γ : Type} {step : γ → EStateM ε σ PUnit} (like : σ → σ → Prop) {items : List γ}
    (each : ∀ c ∈ items, ∀ s t s', like s t → step c s = .ok ⟨⟩ s' → ∃ t', step c t = .ok ⟨⟩ t' ∧ like s' t')
    {s t s' : σ} (start : like s t) (run : items.forM step s = .ok ⟨⟩ s') :
    ∃ t', items.forM step t = .ok ⟨⟩ t' ∧ like s' t' := by
  induction items generalizing s t with
  | nil =>
    cases run
    exact ⟨t,rfl,start⟩
  | cons c rest ih =>
    obtain ⟨_,mid,first,later⟩ := bind_eq_ok.mp (show (step c >>= fun _ => rest.forM step) s = _ from run)
    obtain ⟨mid',first',alike⟩ := each c (by simp) s t mid start first
    obtain ⟨t',later',alike'⟩ := ih (fun c member => each c (by simp [member])) alike later
    exact ⟨t',bind_eq_ok.mpr ⟨⟨⟩,mid',first',later'⟩,alike'⟩

/-! ## Writes that commute -/

theorem overwrite_setIfInBounds (data : Array UInt8) (offset i : Nat) (b : UInt8) (bytes : Bytes)
    (outside : i < offset ∨ offset + bytes.length ≤ i) :
    overwrite (data.setIfInBounds i b) offset bytes = (overwrite data offset bytes).setIfInBounds i b := by
  induction bytes generalizing data offset with
  | nil => rfl
  | cons first rest ih =>
    simp only [length_cons] at outside
    rw [overwrite,overwrite,Array.setIfInBounds_comm _ _ (by omega),ih _ _ (by omega)]

theorem overwrite_comm (data : Array UInt8) (offset offset' : Nat) (bytes bytes' : Bytes)
    (apart : offset + bytes.length ≤ offset' ∨ offset' + bytes'.length ≤ offset) :
    overwrite (overwrite data offset bytes) offset' bytes' =
      overwrite (overwrite data offset' bytes') offset bytes := by
  induction bytes generalizing data offset with
  | nil => rfl
  | cons b rest ih =>
    simp only [length_cons] at apart
    rw [overwrite,overwrite,ih _ _ (by omega),overwrite_setIfInBounds _ _ _ _ _ (by omega)]

namespace Elf.Arena

variable {arena : Arena} {table other : SectionId}

theorem update_comm (apart : other ≠ table) (f g : Section → Section) :
    (arena.update table f).update other g = (arena.update other g).update table f := by
  simp only [update]
  congr 1
  apply Array.ext_getElem?
  intro i
  simp only [Array.getElem?_modify]
  by_cases first : table = i
  · subst first
    rw [if_neg apart,if_neg apart]
  · rw [if_neg first,if_neg first]

theorem setSymbol_comm (different : j ≠ i) (first second : Symbol) :
    (arena.setSymbol table i first).setSymbol table j second =
      (arena.setSymbol table j second).setSymbol table i first := by
  have patches (sec : Section) :
      (sec.patch (i * recordSize) first.encode).patch (j * recordSize) second.encode =
      (sec.patch (j * recordSize) second.encode).patch (i * recordSize) first.encode := by
    simp only [Section.patch]
    rw [overwrite_comm]
    rw [length_encode,length_encode,recordSize]
    omega
  simp only [setSymbol,update_update]
  exact congrArg (arena.update table) (funext patches)

end Elf.Arena

namespace Link

open Elf.Arena

variable {lookup : String → Option UInt64} {strings hash : SectionId}

/-! ## A record that a link passes over -/

theorem symbolIndexes_setSymbol (apart : before.symtab ≠ before.bss) (k : Nat) (sym : Symbol) :
    symbolIndexes (before.setSymbol before.symtab k sym) = symbolIndexes before := by
  rw [symbolIndexes,symbolIndexes,(Kept.setSymbol before apart k sym).count]

/-- Placing tentative definitions has nothing to do with the record of another symbol. -/
theorem placeCommons_setSymbol (tabled : Tabled before before.symtab strings hash)
    (aside : before.bss ∉ [before.symtab,strings,hash]) (below : k < before.symbolCount before.symtab)
    (other : (before.symbol before.symtab k).index ≠ common) (other' : sym.index ≠ common)
    (run : placeCommons before = .ok ⟨⟩ after) :
    placeCommons (before.setSymbol before.symtab k sym) = .ok ⟨⟩ (after.setSymbol before.symtab k sym) := by
  have apart : before.symtab ≠ before.bss := fun same => aside (by simp [same])
  let like s t : Prop := TableKept strings hash before s ∧
    (s.symbol before.symtab k).index ≠ common ∧ t = s.setSymbol before.symtab k sym
  have each : ∀ i ∈ symbolIndexes before, ∀ s t s', like s t → placeCommon i s = .ok ⟨⟩ s' →
      ∃ t', placeCommon i t = .ok ⟨⟩ t' ∧ like s' t' := by
    rintro i member s _ s' ⟨kept,passed,rfl⟩ step
    have symbols := kept.tabled.symbol_setSymbol (by rwa [kept.count]) sym
    by_cases here : i = k
    · subst here
      rw [placeCommon_other (by rwa [kept.symtab])] at step
      cases step
      refine ⟨_,placeCommon_other ?_,kept,passed,rfl⟩
      rw [setSymbol_symtab,kept.symtab,symbols,if_pos rfl]
      exact other'
    · have same := symbols i
      rw [if_neg here] at same
      by_cases common : (s.symbol s.symtab i).index = common
      · rw [← kept.symbolIndexes] at member
        have kept' := kept.trans (placeCommon_tableKept kept.now (kept.aside aside) member step)
        obtain ⟨offset,sec,room,rfl⟩ := (placeCommon_ok_iff common).mp step
        rw [kept.symtab] at common room
        rw [kept.bss] at room
        have bss : (s.setSymbol before.symtab k sym).get before.bss = s.get before.bss := get_update_other apart.symm
        refine ⟨_,(placeCommon_ok_iff ?_).mpr ⟨offset,sec,?_,rfl⟩,kept',?_,?_⟩
        · rw [setSymbol_symtab,kept.symtab,same,common]
        · rw [setSymbol_symtab,setSymbol_bss,kept.symtab,kept.bss,bss,same,room]
        · rwa [kept.symtab,symbol_setSymbol_other (Ne.symm here),kept.bss,symbol_congr (get_update_other apart)]
        · rw [setSymbol_symtab,setSymbol_bss,kept.symtab,kept.bss,same,setSymbol_comm (Ne.symm here)]
          congr 1
          exact update_comm apart.symm _ _
      · rw [placeCommon_other common] at step
        cases step
        refine ⟨_,placeCommon_other ?_,kept,passed,rfl⟩
        rwa [setSymbol_symtab,kept.symtab,same,← kept.symtab]
  obtain ⟨last,run',_,_,rfl⟩ := forM_follows like each ⟨.refl tabled,other,rfl⟩
    (show (symbolIndexes before).forM placeCommon before = _ from run)
  rw [← symbolIndexes_setSymbol apart k sym] at run'
  exact run'

/-- A symbol that is defined or local stays, and one whose name is not found. -/
def Idle (lookup : String → Option UInt64) (name : String) (sym : Symbol) : Prop :=
  sym.index ≠ undef ∨ sym.isLocal = true ∨ lookup name = none

theorem Idle.passed {α : Type} (idle : Idle lookup name sym) (stays : α) (binds : UInt64 → α) :
    (if sym.index = undef ∧ sym.isLocal = false then
      match lookup name with
      | some address => binds address
      | none => stays
    else stays) = stays := by
  split
  next searched =>
    rcases idle with defined | own | unknown
    · exact absurd searched.1 defined
    · rw [own] at searched
      cases searched.2
    · rw [unknown]
  next => rfl

theorem bindSymbol_idle (idle : Idle lookup (before.symbolName before.symtab i) (before.symbol before.symtab i)) :
    bindSymbol lookup before i = before := idle.passed _ _

theorem bindSymbol_tableKept (lookup : String → Option UInt64) (tabled : Tabled before before.symtab strings hash)
    (member : i ∈ symbolIndexes before) : TableKept strings hash before (bindSymbol lookup before i) := by
  obtain ⟨positive,below⟩ := mem_symbolIndexes.mp member
  simp only [bindSymbol]
  split
  · split
    · exact .setSymbol tabled positive below rfl rfl
    · exact .refl tabled
  · exact .refl tabled

/-- A record that may be written before a link as well as after it. -/
structure Mends (lookup : String → Option UInt64) (arena : Arena) (k : Nat) (sym : Symbol) : Prop where
  positive : 0 < k
  below : k < arena.symbolCount arena.symtab
  nameOffset : sym.nameOffset = (arena.symbol arena.symtab k).nameOffset
  own : sym.isLocal = (arena.symbol arena.symtab k).isLocal
  absolute : sym.index = abs
  unknown : lookup (arena.symbolName arena.symtab k) = none

section

variable (mends : Mends lookup before k sym)

include mends

theorem Mends.kept (kept : TableKept strings hash before after) : Mends lookup after k sym := by
  obtain ⟨positive,below,nameOffset,own,absolute,unknown⟩ := mends
  refine ⟨positive,?_,?_,?_,absolute,?_⟩
  · rwa [kept.symtab,kept.count]
  · rw [kept.symtab,kept.offsets,nameOffset]
  · rw [kept.symtab,kept.own,own]
  · rw [kept.symtab,kept.names,unknown]

theorem Mends.tableKept (tabled : Tabled before before.symtab strings hash) :
    TableKept strings hash before (before.setSymbol before.symtab k sym) :=
  .setSymbol tabled mends.positive mends.below mends.nameOffset mends.own

theorem bindSymbol_setSymbol (tabled : Tabled before before.symtab strings hash) :
    bindSymbol lookup (before.setSymbol before.symtab k sym) i =
      (bindSymbol lookup before i).setSymbol before.symtab k sym := by
  have symbols := tabled.symbol_setSymbol mends.below sym
  by_cases here : i = k
  · subst here
    rw [bindSymbol_idle (.inr (.inr mends.unknown)),bindSymbol_idle (.inl ?_)]
    rw [setSymbol_symtab,symbols,if_pos rfl,mends.absolute]
    decide
  · have same := symbols i
    rw [if_neg here] at same
    simp only [bindSymbol,setSymbol_symtab,same,(mends.tableKept tabled).names]
    split
    · split
      · exact setSymbol_comm here _ _
      · rfl
    · rfl

/-- Binding the symbols has nothing to do with the record of a name that is not found. -/
theorem bindAll_setSymbol (tabled : Tabled before before.symtab strings hash) (apart : before.symtab ≠ before.bss) :
    bindAll lookup (before.setSymbol before.symtab k sym) = (bindAll lookup before).setSymbol before.symtab k sym := by
  rw [bindAll,symbolIndexes_setSymbol apart]
  let like t s : Prop := TableKept strings hash before s ∧ t = s.setSymbol before.symtab k sym
  have start : like (before.setSymbol before.symtab k sym) before := ⟨.refl tabled,rfl⟩
  refine (foldl_rel start ?_).2
  rintro i member _ s ⟨kept,rfl⟩
  rw [← kept.symbolIndexes] at member
  refine ⟨kept.trans (bindSymbol_tableKept lookup kept.now member),?_⟩
  rw [← kept.symtab]
  exact bindSymbol_setSymbol (mends.kept kept) kept.now

end

/-! ## What a link has done to the records -/

def boundSymbol (lookup : String → Option UInt64) (name : String) (sym : Symbol) : Symbol :=
  if sym.index = undef ∧ sym.isLocal = false then
    match lookup name with
    | some address => { sym with index := abs, value := address }
    | none => sym
  else sym

theorem boundSymbol_idle (idle : Idle lookup name sym) : boundSymbol lookup name sym = sym :=
  idle.passed _ _

theorem bindSymbol_symbol (tabled : Tabled before before.symtab strings hash)
    (below : i < before.symbolCount before.symtab) (j : Nat) : (bindSymbol lookup before i).symbol before.symtab j =
      if j = i then boundSymbol lookup (before.symbolName before.symtab i) (before.symbol before.symtab i)
      else before.symbol before.symtab j := by
  have same : before.symbol before.symtab j =
      if j = i then before.symbol before.symtab i else before.symbol before.symtab j := by
    split
    next here => rw [here]
    next => rfl
  simp only [bindSymbol,boundSymbol]
  split
  · cases lookup (before.symbolName before.symtab i) with
    | some address => exact tabled.symbol_setSymbol below _ j
    | none => exact same
  · exact same

theorem bindSymbol_bss (apart : before.symtab ≠ before.bss) :
    (bindSymbol lookup before i).get before.bss = before.get before.bss := by
  simp only [bindSymbol]
  split
  · split
    · exact get_update_other apart.symm
    · rfl
  · rfl

theorem bindAll_records (lookup : String → Option UInt64) (tabled : Tabled before before.symtab strings hash)
    (apart : before.symtab ≠ before.bss) :
    TableKept strings hash before (bindAll lookup before) ∧
      (bindAll lookup before).get before.bss = before.get before.bss ∧
      ∀ i ∈ symbolIndexes before, (bindAll lookup before).symbol before.symtab i =
        boundSymbol lookup (before.symbolName before.symtab i) (before.symbol before.symtab i) := by
  suffices ∀ (items : List Nat) s, items.Nodup → (∀ i ∈ items, i ∈ symbolIndexes before) →
      TableKept strings hash before s → TableKept strings hash before (items.foldl (bindSymbol lookup) s) ∧
      (items.foldl (bindSymbol lookup) s).get before.bss = s.get before.bss ∧
      ∀ i, (items.foldl (bindSymbol lookup) s).symbol before.symtab i =
        if i ∈ items then boundSymbol lookup (before.symbolName before.symtab i) (s.symbol before.symtab i)
        else s.symbol before.symtab i by
    obtain ⟨kept,bss,records⟩ := this _ before nodup_range' (fun _ member => member) (.refl tabled)
    exact ⟨kept,bss,fun i member => (records i).trans (if_pos member)⟩
  intro items
  induction items with
  | nil => exact fun s _ _ kept => ⟨kept,rfl,fun _ => by simp⟩
  | cons i rest ih =>
    intro s distinct members kept
    rw [nodup_cons] at distinct
    have inside : i ∈ symbolIndexes s := by
      rw [kept.symbolIndexes]
      exact members i (by simp)
    obtain ⟨kept',bss,records⟩ := ih (bindSymbol lookup s i) distinct.2 (fun j member => members j (by simp [member]))
      (kept.trans (bindSymbol_tableKept lookup kept.now inside))
    have step j : (bindSymbol lookup s i).symbol s.symtab j = _ :=
      bindSymbol_symbol kept.now (mem_symbolIndexes.mp inside).2 j
    have first : (bindSymbol lookup s i).get s.bss = s.get s.bss :=
      bindSymbol_bss (by rwa [kept.symtab,kept.bss])
    rw [kept.symtab] at step
    rw [kept.bss] at first
    refine ⟨kept',bss.trans first,fun j => ?_⟩
    rw [foldl_cons,records,step,kept.names]
    by_cases here : j = i
    · subst here
      rw [if_neg distinct.1,if_pos rfl,if_pos (by simp)]
    · rw [if_neg here]
      simp only [mem_cons,here,false_or]

/-- What has become of a record by placing and binding: it is the same and stays so, or the symbol has room now, or it
has an address. -/
inductive Advanced (lookup : String → Option UInt64) (before after : Arena) (i : Nat) : Prop
  | same (record : after.symbol before.symtab i = before.symbol before.symtab i)
      (other : (before.symbol before.symtab i).index ≠ common)
      (idle : Idle lookup (before.symbolName before.symtab i) (before.symbol before.symtab i))
  | placed (common : (before.symbol before.symtab i).index = common)
      (index : (after.symbol before.symtab i).index = ofNat (before.get before.bss).number)
      (info : (after.symbol before.symtab i).info = (before.symbol before.symtab i).info)
  | bound (undefined : (before.symbol before.symtab i).index = undef)
      (known : lookup (before.symbolName before.symtab i) ≠ none)
      (index : (after.symbol before.symtab i).index = abs)

/-- An arena that a link has left. -/
structure InPart (lookup : String → Option UInt64) (strings hash : SectionId) (before after : Arena) : Prop where
  kept : TableKept strings hash before after
  number : (after.get before.bss).number = (before.get before.bss).number
  records : ∀ i ∈ symbolIndexes before, Advanced lookup before after i

theorem inPart_of_placed (lookup : String → Option UInt64) (tabled : Tabled before before.symtab strings hash)
    (sound : before.Sound) (aside : before.bss ∉ [before.symtab,strings,hash])
    (placed : placeCommons before = .ok ⟨⟩ middle) : InPart lookup strings hash before (bindAll lookup middle) := by
  have kept := placeCommons_tableKept tabled aside placed
  have commons := placeCommons_placed sound placed
  obtain ⟨kept',bss,records⟩ := bindAll_records lookup kept.now (by rw [kept.symtab,kept.bss]; exact sound.apart)
  refine ⟨kept.trans kept',?_,fun i member => ?_⟩
  · rw [← kept.bss,bss,commons.kept.number]
  · have record := records i (by rwa [kept.symbolIndexes])
    have room := commons.placed i member
    rw [kept.symtab,kept.names] at record
    simp only [PlacedRecord] at room
    split at room
    next common =>
      obtain ⟨offset,_,_,eq⟩ := room
      rw [eq,boundSymbol_idle (.inl sound.bss_defined)] at record
      exact .placed common (by rw [record]) (by rw [record])
    next other =>
      rw [room] at record
      by_cases idle : Idle lookup (before.symbolName before.symtab i) (before.symbol before.symtab i)
      · rw [boundSymbol_idle idle] at record
        exact .same record other idle
      · simp only [Idle,not_or,Classical.not_not,Bool.not_eq_true] at idle
        obtain ⟨undefined,own,known⟩ := idle
        refine .bound undefined known ?_
        obtain ⟨address,found⟩ := Option.ne_none_iff_exists'.mp known
        rw [record,boundSymbol,if_pos ⟨undefined,own⟩,found]

theorem reported_defined (defined : (before.symbol before.symtab i).index ≠ undef) :
    reported lookup before i = none := if_neg fun missing => defined missing.1

theorem reported_known (known : lookup (before.symbolName before.symtab i) ≠ none) : reported lookup before i = none :=
  if_neg fun missing => known missing.2.2.2

namespace InPart

variable (part : InPart lookup strings hash before after)

include part

theorem reported (sound : before.Sound)
    (member : i ∈ Link.symbolIndexes before) : reported lookup after i = reported lookup before i := by
  have symtab := part.kept.symtab
  rcases part.records i member with ⟨record,_,_⟩ | ⟨common,index,_⟩ | ⟨_,known,index⟩
  · simp only [Link.reported,symtab,record,part.kept.names]
  · rw [reported_defined (by rw [symtab,index]; exact sound.bss_defined),reported_defined (by rw [common]; decide)]
  · rw [reported_defined (by rw [symtab,index]; decide),reported_known known]

theorem missingNames (sound : before.Sound) : missingNames lookup after = missingNames lookup before := by
  rw [Link.missingNames,part.kept.symbolIndexes]
  exact filterMap_congr fun i member => part.reported sound member

theorem placed (ordinary : ofNat (before.get before.bss).number ≠ common) :
    placeCommons after = .ok ⟨⟩ after := by
  suffices ∀ items : List Nat, (∀ i ∈ items, i ∈ Link.symbolIndexes before) →
      items.forM placeCommon after = .ok ⟨⟩ after from
    this _ fun i member => by rwa [← part.kept.symbolIndexes]
  intro items
  induction items with
  | nil => exact fun _ => rfl
  | cons i rest ih =>
    intro members
    have other : (after.symbol after.symtab i).index ≠ common := by
      rw [part.kept.symtab]
      rcases part.records i (members i (by simp)) with ⟨record,other,_⟩ | ⟨_,index,_⟩ | ⟨_,_,index⟩
      · rwa [record]
      · rwa [index]
      · rw [index]
        decide
    exact bind_eq_ok.mpr ⟨⟨⟩,after,placeCommon_other other,ih fun j member => members j (by simp [member])⟩

theorem bound (sound : before.Sound) : bindAll lookup after = after := by
  refine foldlRecOn (motive := (· = after)) _ _ rfl fun _ same i member => ?_
  rw [part.kept.symbolIndexes] at member
  rw [same]
  refine bindSymbol_idle ?_
  rw [part.kept.symtab,part.kept.names]
  rcases part.records i member with ⟨record,_,idle⟩ | ⟨_,index,_⟩ | ⟨_,_,index⟩
  · rwa [record]
  · exact .inl (by rw [index]; exact sound.bss_defined)
  · exact .inl (by rw [index]; decide)

end InPart

/-! ## Absolute definitions -/

theorem merge_absolute (absolute : new.index = abs) :
    before.merge table old new =
      if old.index = undef then .replace
      else if new.binding = Binding.weak then .keep
      else if old.binding = Binding.weak then .replace
      else if before.isTentative abs then .keep
      else if before.isTentative old.index then .replace
      else if table = before.dynsymtab then .keep
      else .clash := by
  have other : (abs == undef) = false := by decide
  have apart : (abs == common) = false := by decide
  simp [Arena.merge,absolute,other,apart]

section

variable (part : InPart lookup strings hash before after)

include part

/-- A name that is not found merges with an absolute definition as it did before the link. -/
theorem InPart.merge (sound : before.Sound)
    (member : k ∈ Link.symbolIndexes before) (unknown : lookup (before.symbolName before.symtab k) = none)
    (absolute : new.index = abs) :
    after.merge before.symtab (after.symbol before.symtab k) new =
      before.merge before.symtab (before.symbol before.symtab k) new := by
  have tentative index : after.isTentative index = before.isTentative index := by
    rw [isTentative,isTentative,part.kept.bss,part.number]
  rw [merge_absolute absolute,merge_absolute absolute,tentative,tentative,part.kept.dynsymtab]
  rcases part.records k member with ⟨record,_,_⟩ | ⟨common,index,info⟩ | ⟨_,known,_⟩
  · rw [record]
  · have room : before.isTentative (ofNat (before.get before.bss).number) = true := by
      rw [isTentative,toNat_ofNat',Nat.mod_eq_of_lt sound.number.2]
      simp
    have block : before.isTentative SectionIndex.common = true := by simp [isTentative]
    have defined : SectionIndex.common ≠ SectionIndex.undef := by decide
    rw [common,index,room,block,if_neg sound.bss_defined,if_neg defined,binding,info,binding]
  · exact absurd unknown known

/-- A definition of a missing name writes the same record before the link and after it, or none. -/
theorem InPart.mention_cases (sound : before.Sound)
    (tabled : Tabled before before.symtab strings hash) (shared : m.entry.isLocal = false)
    (absolute : m.entry.index = abs) (unknown : lookup m.name = none)
    (present : before.findSymbol before.symtab m.name ≠ 0) :
    (before.mention before.symtab m = before ∧ after.mention before.symtab m = after) ∨
      ∃ sym, Mends lookup before (before.findSymbol before.symtab m.name) sym ∧
        before.mention before.symtab m = before.setSymbol before.symtab (before.findSymbol before.symtab m.name) sym ∧
        after.mention before.symtab m = after.setSymbol before.symtab (before.findSymbol before.symtab m.name) sym := by
  obtain ⟨below,own,named⟩ := tabled.findSymbol_some present
  have positive := Nat.pos_of_ne_zero present
  have found := part.kept.findSymbol tabled m.name
  rw [part.kept.symtab] at found
  have unknown' : lookup (before.symbolName before.symtab (before.findSymbol before.symtab m.name)) = none := by
    rw [named,unknown]
  have same := part.merge sound (mem_symbolIndexes.mpr ⟨positive,below⟩) unknown' absolute
  let old := before.symbol before.symtab (before.findSymbol before.symtab m.name)
  cases merged : before.merge before.symtab old m.entry with
  | keep | clash =>
    rw [merged] at same
    exact .inl ⟨by simp [mention,addSymbol,shared,present,old,merged],
      by simp [mention,addSymbol,shared,found,present,same]⟩
  | replace =>
    rw [merged] at same
    have shared' : (m.entry.withName old.nameOffset).isLocal = false := shared
    refine .inr ⟨m.entry.withName old.nameOffset,⟨positive,below,rfl,shared'.trans own.symm,absolute,unknown'⟩,?_,?_⟩
    · simp [mention,addSymbol,shared,present,old,merged]
    · simp [mention,addSymbol,shared,found,present,same,old,part.kept.offsets]
  | widen =>
    rw [merge_absolute absolute] at merged
    split_ifs at merged

theorem InPart.setSymbol (sound : before.Sound)
    (tabled : Tabled before before.symtab strings hash) (mends : Mends lookup before k sym) :
    InPart lookup strings hash (before.setSymbol before.symtab k sym) (after.setSymbol before.symtab k sym) := by
  have mends' := mends.kept part.kept
  have first := mends.tableKept tabled
  have second := mends'.tableKept part.kept.now
  rw [part.kept.symtab] at second
  have symbols := tabled.symbol_setSymbol mends.below sym
  have symbols' := part.kept.tabled.symbol_setSymbol (by rw [part.kept.count]; exact mends.below) sym
  have bss : (before.setSymbol before.symtab k sym).get before.bss = before.get before.bss :=
    get_update_other sound.apart.symm
  have bss' : (after.setSymbol before.symtab k sym).get before.bss = after.get before.bss :=
    get_update_other sound.apart.symm
  refine ⟨first.square part.kept second,?_,fun i member => ?_⟩
  · rw [setSymbol_bss,bss,bss',part.number]
  · rw [symbolIndexes_setSymbol sound.apart] at member
    by_cases here : i = k
    · subst here
      refine .same ?_ ?_ (.inl ?_)
      · rw [setSymbol_symtab,symbols,symbols',if_pos rfl,if_pos rfl]
      · rw [setSymbol_symtab,symbols,if_pos rfl,mends.absolute]
        decide
      · rw [setSymbol_symtab,symbols,if_pos rfl,mends.absolute]
        decide
    · have unread := symbols i
      have unread' := symbols' i
      rw [if_neg here] at unread unread'
      rcases part.records i member with ⟨record,other,idle⟩ | ⟨common,index,info⟩ | ⟨undefined,known,index⟩
      · refine .same ?_ ?_ ?_
        · rw [setSymbol_symtab,unread,unread',record]
        · rwa [setSymbol_symtab,unread]
        · rwa [setSymbol_symtab,unread,first.names]
      · refine .placed ?_ ?_ ?_
        · rw [setSymbol_symtab,unread,common]
        · rw [setSymbol_symtab,setSymbol_bss,unread',bss,index]
        · rw [setSymbol_symtab,unread,unread',info]
      · refine .bound ?_ ?_ ?_
        · rw [setSymbol_symtab,unread,undefined]
        · rwa [setSymbol_symtab,first.names]
        · rw [setSymbol_symtab,unread',index]

end

def Linked (lookup : String → Option UInt64) (before after : Arena) : Prop :=
  ∃ middle, placeCommons before = .ok ⟨⟩ middle ∧ after = bindAll lookup middle

/-- A record that is written before the link can as well be written after it. -/
theorem Linked.setSymbol (linked : Linked lookup before after) (tabled : Tabled before before.symtab strings hash)
    (aside : before.bss ∉ [before.symtab,strings,hash]) (mends : Mends lookup before k sym)
    (other : (before.symbol before.symtab k).index ≠ common) :
    Linked lookup (before.setSymbol before.symtab k sym) (after.setSymbol before.symtab k sym) := by
  obtain ⟨middle,placed,rfl⟩ := linked
  have kept := placeCommons_tableKept tabled aside placed
  have absolute : sym.index ≠ common := by
    rw [mends.absolute]
    decide
  refine ⟨_,placeCommons_setSymbol tabled aside mends.below other absolute placed,?_⟩
  rw [← kept.symtab]
  refine (bindAll_setSymbol (mends.kept kept) kept.now ?_).symm
  rw [kept.symtab,kept.bss]
  exact fun same => aside (by simp [same])

/-- How far the definitions of some names have come, in an arena and in the one that its link has left. -/
structure Mended (lookup : String → Option UInt64) (strings hash : SectionId) (names : List String)
    (start before after : Arena) : Prop where
  kept : TableKept strings hash start before
  frame : Arena.Kept start before
  zeroed : before.get start.bss = start.get start.bss
  part : InPart lookup strings hash before after
  records : ∀ i, before.symbol start.symtab i = start.symbol start.symtab i ∨
    (before.symbol start.symtab i).index = abs ∧ ∃ name ∈ names, start.findSymbol start.symtab name = i
  linked : (∀ name ∈ names,
      (start.symbol start.symtab (start.findSymbol start.symtab name)).index ≠ common) →
    Linked lookup before after

section

variable (mended : Mended lookup strings hash names start before after)
  (tabled : Tabled start start.symtab strings hash) (sound : start.Sound)
  (aside : start.bss ∉ [start.symtab,strings,hash])
  (missing : ∀ name ∈ names, lookup name = none ∧ start.findSymbol start.symtab name ≠ 0)

include mended tabled sound aside missing

theorem Mended.mention (shared : m.entry.isLocal = false) (absolute : m.entry.index = abs) (named : m.name ∈ names) :
    Mended lookup strings hash names start (before.mention start.symtab m) (after.mention start.symtab m) := by
  obtain ⟨kept,frame,zeroed,part,records,linked⟩ := mended
  obtain ⟨unknown,present⟩ := missing m.name named
  have symtab := kept.symtab
  have bss := kept.bss
  have sound' := frame.sound sound
  have apart := sound'.apart
  have now := kept.now
  have found := kept.findSymbol tabled m.name
  rw [← found] at present
  rcases part.mention_cases sound' now shared absolute unknown present with ⟨same,same'⟩ | ⟨sym,mends,told,told'⟩
  · rw [symtab] at same same'
    rw [same,same']
    exact ⟨kept,frame,zeroed,part,records,linked⟩
  · rw [symtab] at told told'
    rw [told,told',← symtab]
    have symbols := now.symbol_setSymbol mends.below sym
    refine ⟨kept.trans (mends.tableKept now),frame.trans (Kept.setSymbol before apart _ _),?_,
      part.setSymbol sound' now mends,fun i => ?_,fun others => ?_⟩
    · rw [← zeroed,← bss]
      exact get_update_other apart.symm
    · rw [← symtab,symbols]
      split
      next here =>
        exact .inr ⟨mends.absolute,m.name,named,by rw [here,found,symtab]⟩
      next =>
        rw [symtab]
        exact records i
    · refine (linked others).setSymbol now (kept.aside aside) mends ?_
      rw [found,symtab]
      rcases records (start.findSymbol start.symtab m.name) with same | ⟨defined,_⟩
      · rw [same]
        exact others m.name named
      · rw [defined]
        decide

theorem Mended.mentionAll
    (defines : ∀ m ∈ defs, m.entry.isLocal = false ∧ m.entry.index = SectionIndex.abs ∧ m.name ∈ names) :
    Mended lookup strings hash names start (before.mentionAll start.symtab defs)
      (after.mentionAll start.symtab defs) := by
  induction defs generalizing before after with
  | nil => exact mended
  | cons m rest ih =>
    obtain ⟨shared,absolute,named⟩ := defines m (by simp)
    exact ih (mended.mention tabled sound aside missing shared absolute named)
      fun m member => defines m (by simp [member])

end

/-! ## Fewer tentative definitions -/

theorem alignUp_mono (power : align.toNat = 2 ^ e)
    (le : small.toNat ≤ large.toNat) (room : large.toNat + align.toNat ≤ 2 ^ 64) : (alignUp small align).toNat ≤ (alignUp large align).toNat := by
  obtain ⟨_,near⟩ := alignUp_bounds small align (by omega)
  obtain ⟨above,_⟩ := alignUp_bounds large align room
  have first := alignUp_dvd small align power
  have second := alignUp_dvd large align power
  by_contra less
  -- two multiples differ by the alignment at least
  have gap := Nat.le_of_dvd (by omega) (Nat.dvd_sub first second)
  omega

theorem alignTo_extent (sec : Section) (align : UInt64) :
    (sec.alignTo align).2.size = max sec.size (alignUp (UInt64.ofNat sec.size) align).toNat ∧
      (sec.alignTo align).2.limit = sec.limit := by
  constructor
  · simp only [Section.alignTo]
    split
    next grown => exact (Nat.max_eq_right (Nat.le_of_lt grown)).symm
    next => omega
  · obtain ⟨_,_,_,eq⟩ := sec.alignTo_eq align
    rw [eq]
    rfl

theorem roomFor?_mono (power : (max sym.value 1).toNat = 2 ^ e)
    (le : small.size ≤ large.size) (limit : small.limit = large.limit) (room : roomFor? large sym = some (offset,sec)) :
    ∃ offset' sec', roomFor? small sym = some (offset',sec') ∧ sec'.size ≤ sec.size := by
  have half : 2 ^ e ≤ 2 ^ 63 := Nat.pow_le_pow_right (by omega) (Nat.le_of_lt_succ (exponent_lt power))
  have limited : large.limit ≤ 2 ^ 32 - 1 := Linkable.limit_le large
  rw [roomFor?] at room ⊢
  generalize max sym.value 1 = align at *
  obtain ⟨size,limit'⟩ := alignTo_extent { large with align := max large.align align } align
  obtain ⟨size',limit''⟩ := alignTo_extent { small with align := max small.align align } align
  obtain ⟨_,fits,_,rfl⟩ := Section.grow?_eq _ _ _ _ room
  change _ = max large.size (alignUp (UInt64.ofNat large.size) align).toNat at size
  change _ = max small.size (alignUp (UInt64.ofNat small.size) align).toNat at size'
  change _ = large.limit at limit'
  change _ = small.limit at limit''
  have word := UInt64.toNat_ofNat_of_lt' (show large.size < 2 ^ 64 by omega)
  have word' := UInt64.toNat_ofNat_of_lt' (show small.size < 2 ^ 64 by omega)
  have mono : (alignUp (UInt64.ofNat small.size) align).toNat ≤ (alignUp (UInt64.ofNat large.size) align).toNat :=
    alignUp_mono power (by omega) (by omega)
  refine ⟨_,_,if_pos ?_,?_⟩
  · omega
  · rw [Section.wider_size]
    change _ + _ ≤ _
    omega

/-- Two runs of the placement: one has placed all that the other has placed, and more. -/
structure Behind (start ahead behind : Arena) : Prop where
  first : Arena.Kept start ahead
  second : Arena.Kept start behind
  size : (behind.get start.bss).size ≤ (ahead.get start.bss).size
  records : ∀ i ∈ symbolIndexes start, behind.symbol start.symtab i = ahead.symbol start.symtab i ∨
    (behind.symbol start.symtab i).index ≠ common
  powers : ∀ i ∈ symbolIndexes start, (ahead.symbol start.symtab i).index = common →
    ∃ e, (max (ahead.symbol start.symtab i).value 1).toNat = 2 ^ e

theorem placeCommon_room (sound : before.Sound) (below : i < before.symbolCount before.symtab)
    (common : (before.symbol before.symtab i).index = common)
    (room : roomFor? (before.get before.bss) (before.symbol before.symtab i) = some (offset,sec)) :
    ∃ after, placeCommon i before = .ok ⟨⟩ after ∧ Arena.Kept before after ∧ after.get before.bss = sec ∧
      (after.symbol before.symtab i).index = ofNat (before.get before.bss).number ∧
      ∀ j, j ≠ i → after.symbol before.symtab j = before.symbol before.symtab j := by
  have run := (placeCommon_ok_iff common).mpr ⟨offset,sec,room,rfl⟩
  rcases placeCommon_cases sound below run with ⟨other,_⟩ | ⟨_,kept,others,_,_,record⟩
  · exact absurd common other
  · refine ⟨_,run,kept,?_,by rw [record],others⟩
    rw [setSymbol,get_update_other sound.apart.symm,get_update_same sound.zeroed]

theorem Behind.placeCommon (state : Behind start ahead behind) (sound : start.Sound)
    (ordinary : ofNat (start.get start.bss).number ≠ common) (member : i ∈ symbolIndexes start)
    (run : placeCommon i ahead = .ok ⟨⟩ ahead') :
    ∃ behind', Link.placeCommon i behind = .ok ⟨⟩ behind' ∧ Behind start ahead' behind' := by
  obtain ⟨first,second,size,records,powers⟩ := state
  have below := (mem_symbolIndexes.mp member).2
  by_cases common : (ahead.symbol start.symtab i).index = common
  · rw [← first.symtab] at common
    obtain ⟨offset,sec,room,_⟩ := (placeCommon_ok_iff common).mp run
    obtain ⟨_,run',kept,zeroed,index,others⟩ := placeCommon_room (first.sound sound) (by rwa [first.count]) common room
    rw [run] at run'
    cases run'
    obtain ⟨forward,_,_,wider⟩ := roomFor?_eq room
    rw [first.symtab] at common room index others
    rw [first.bss] at room zeroed index forward wider
    have index' : (ahead'.symbol start.symtab i).index ≠ SectionIndex.common := by
      rwa [index,first.number]
    have powers' j (inside : j ∈ symbolIndexes start)
        (asks : (ahead'.symbol start.symtab j).index = SectionIndex.common) :
        ∃ e, (max (ahead'.symbol start.symtab j).value 1).toNat = 2 ^ e := by
      have other : j ≠ i := fun same => index' (same ▸ asks)
      rw [others j other] at asks ⊢
      exact powers j inside asks
    rcases records i member with same | placed
    · -- both have it still to place
      obtain ⟨e,power⟩ := powers i member common
      obtain ⟨offset',sec',room',smaller⟩ := roomFor?_mono power size (by rw [first.limit,second.limit]) room
      rw [← same] at common room'
      rw [← second.symtab] at common room'
      rw [← second.bss] at room'
      obtain ⟨behind',run',kept',zeroed',index'',others'⟩ :=
        placeCommon_room (second.sound sound) (by rwa [second.count]) common room'
      rw [second.symtab] at index'' others'
      rw [second.bss] at index'' zeroed'
      refine ⟨behind',run',first.trans kept,second.trans kept',by rwa [zeroed,zeroed'],
        fun j inside => ?_,powers'⟩
      by_cases here : j = i
      · subst here
        refine .inr ?_
        rwa [index'',second.number]
      · rw [others j here,others' j here]
        exact records j inside
    · refine ⟨behind,placeCommon_other (by rwa [second.symtab]),first.trans kept,second,?_,fun j inside => ?_,powers'⟩
      · rw [zeroed,wider,Section.wider_size]
        omega
      · by_cases here : j = i
        · subst here
          exact .inr placed
        · rw [others j here]
          exact records j inside
  · rw [placeCommon_other (by rwa [first.symtab])] at run
    cases run
    refine ⟨behind,placeCommon_other ?_,first,second,size,records,powers⟩
    rw [second.symtab]
    rcases records i member with same | placed
    · rwa [same]
    · exact placed

/-- With some of the tentative definitions gone, there is room for the others. -/
theorem placeCommons_behind (sound : start.Sound) (powers : PowersAsked start)
    (ordinary : ofNat (start.get start.bss).number ≠ common) (kept : Arena.Kept start before)
    (zeroed : before.get start.bss = start.get start.bss)
    (records : ∀ i, before.symbol start.symtab i = start.symbol start.symtab i ∨
      (before.symbol start.symtab i).index ≠ common)
    (placed : placeCommons start = .ok ⟨⟩ middle) : ∃ after, placeCommons before = .ok ⟨⟩ after := by
  have state : Behind start start before :=
    ⟨.refl start,kept,by rw [zeroed],fun i _ => records i,fun i member common => powers i member common⟩
  obtain ⟨after,run,_⟩ := forM_follows (Behind start)
    (fun i member _ _ _ state step => state.placeCommon sound ordinary member step) state
    (show (symbolIndexes start).forM placeCommon start = _ from placed)
  have same : symbolIndexes before = symbolIndexes start := by rw [symbolIndexes,symbolIndexes,kept.count]
  rw [← same] at run
  exact ⟨after,run⟩

/-! ## The two orders -/

theorem relocate_eq (base : UInt64) (lookup : String → Option UInt64) :
    ∃ rest, ∀ {before middle}, placeCommons before = .ok ⟨⟩ middle → relocateIn memory base lookup before = (resolve lookup >>= rest) middle := by
  obtain ⟨rest,eq⟩ : ∃ rest,
    relocateIn memory base lookup = placeCommons >>= fun _ => resolve lookup >>= rest := ⟨_,rfl⟩
  refine ⟨rest,fun placed => ?_⟩
  rw [eq,bind_run,placed]

theorem relocate_missing (base : UInt64) (placed : placeCommons before = .ok ⟨⟩ middle)
    (failed : resolve lookup middle = .error (.undefined missing) after) :
    relocateIn memory base lookup before = .error (.undefined missing) after := by
  obtain ⟨rest,eq⟩ := relocate_eq base lookup
  rw [eq placed,bind_run,failed]

section

variable (base : UInt64) (tabled : Tabled before before.symtab strings hash) (sound : before.Sound)
  (aside : before.bss ∉ [before.symtab,strings,hash])

include tabled sound aside

theorem missingNames_placed (placed : placeCommons before = .ok ⟨⟩ middle) :
    missingNames lookup middle = missingNames lookup before := by
  have kept := placeCommons_tableKept tabled aside placed
  have commons := placeCommons_placed sound placed
  rw [missingNames,kept.symbolIndexes]
  refine filterMap_congr fun i member => ?_
  have record := commons.placed i member
  simp only [PlacedRecord] at record
  split at record
  next common =>
    obtain ⟨_,_,_,eq⟩ := record
    rw [reported_defined (by rw [kept.symtab,eq]; exact sound.bss_defined),reported_defined (by rw [common]; decide)]
  next => simp only [reported,kept.symtab,record,kept.names]

/-- The arena that placing and binding leave links as the one that they began with. -/
theorem Linked.relocate_same (linked : Linked lookup before after)
    (ordinary : ofNat (before.get before.bss).number ≠ common) :
    relocateIn memory base lookup after = relocateIn memory base lookup before := by
  obtain ⟨middle,placed,rfl⟩ := linked
  have part := inPart_of_placed lookup tabled sound aside placed
  have kept := placeCommons_tableKept tabled aside placed
  have same : resolve lookup (bindAll lookup middle) = resolve lookup middle := by
    rw [resolve_run lookup part.kept.now,resolve_run lookup kept.now,part.bound sound,part.missingNames sound,
      missingNames_placed tabled sound aside placed]
  obtain ⟨rest,eq⟩ := relocate_eq base lookup
  rw [eq (part.placed ordinary),eq placed,bind_run,bind_run,same]

theorem InPart.outcome_missing (part : InPart lookup strings hash before after)
    (ordinary : ofNat (before.get before.bss).number ≠ common)
    (placed : placeCommons before = .ok ⟨⟩ middle) (some : Link.missingNames lookup before ≠ []) :
    outcome (relocateIn memory base lookup after) = outcome (relocateIn memory base lookup before) := by
  have kept := placeCommons_tableKept tabled aside placed
  have run := resolve_run lookup kept.now
  have run' := resolve_run lookup part.kept.now
  rw [missingNames_placed tabled sound aside placed,if_neg some] at run
  rw [part.missingNames sound,if_neg some] at run'
  rw [relocate_missing base placed run,relocate_missing base (part.placed ordinary) run',outcome,outcome]

end

theorem present_of_missing (tabled : Tabled before before.symtab strings hash)
    (missing : name ∈ missingNames lookup before) : lookup name = none ∧ before.findSymbol before.symtab name ≠ 0 ∧
      ∃ i ∈ symbolIndexes before, (before.symbol before.symtab i).index = undef ∧
        before.symbolName before.symtab i = name ∧ reported lookup before i = some name := by
  obtain ⟨i,member,reports⟩ := mem_filterMap.mp missing
  have again := reports
  simp only [reported] at reports
  split at reports
  next undefined =>
    obtain ⟨undefined,shared,_,unknown⟩ := undefined
    obtain rfl := Option.some.inj reports
    exact ⟨unknown,fun absent => tabled.findSymbol_none absent (mem_symbolIndexes.mp member).2 shared rfl,
      i,member,undefined,rfl,again⟩
  next => cases reports

/-- Linking what a failed link has left, with absolute definitions of missing names added, gives what linking gives when
the definitions are added first. The names that the failed link reports are those of the undefined symbols that are
neither local nor weak and that are not found, in the order of the table. A missing name that leads to a tentative
definition has two symbols; then the tentative definitions ask for powers of two. -/
theorem failed_link_mends (base : UInt64) (tabled : Tabled start start.symtab strings hash) (sound : start.Sound)
    (aside : start.bss ∉ [start.symtab,strings,hash])
    (ordinary : (start.get start.bss).number ≠ SectionIndex.common.toNat)
    (placed : placeCommons start = .ok ⟨⟩ middle) {missing : List String}
    (failed : resolve lookup middle = .error (.undefined missing) after) {defs : List Mention}
    (defines : ∀ m ∈ defs, m.entry.isLocal = false ∧ m.entry.index = SectionIndex.abs ∧ m.name ∈ missing)
    (clear : (∀ name ∈ missing,
        (start.symbol start.symtab (start.findSymbol start.symtab name)).index ≠ SectionIndex.common) ∨
      PowersAsked start) :
    relocateIn memory base lookup start = .error (.undefined missing) after ∧
      missing = (symbolIndexes start).filterMap (reported lookup start) ∧
      outcome (relocateIn memory base lookup (after.mentionAll after.symtab defs)) =
        outcome (relocateIn memory base lookup (start.mentionAll start.symtab defs)) := by
  have other : UInt16.ofNat (start.get start.bss).number ≠ SectionIndex.common := by
    intro same
    have number := congrArg UInt16.toNat same
    rw [UInt16.toNat_ofNat',Nat.mod_eq_of_lt sound.number.2] at number
    exact ordinary number
  have kept := placeCommons_tableKept tabled aside placed
  have part := inPart_of_placed lookup tabled sound aside placed
  have run := resolve_run lookup (show Tabled middle middle.symtab strings hash by rw [kept.symtab]; exact kept.tabled)
  rw [missingNames_placed tabled sound aside placed,failed] at run
  split at run
  next => cases run
  next =>
    cases run
    refine ⟨relocate_missing base placed failed,rfl,?_⟩
    have mended := (⟨.refl tabled,.refl start,rfl,part,fun _ => .inl rfl,fun _ => ⟨middle,placed,rfl⟩⟩ :
      Mended lookup strings hash (missingNames lookup start) start start _).mentionAll tabled sound aside
        (fun name member => ⟨(present_of_missing tabled member).1,(present_of_missing tabled member).2.1⟩) defines
    rw [part.kept.symtab]
    generalize start.mentionAll start.symtab defs = before at *
    generalize (bindAll lookup middle).mentionAll start.symtab defs = later at *
    have now : Tabled before before.symtab strings hash := by rw [mended.kept.symtab]; exact mended.kept.tabled
    have aside' : before.bss ∉ [before.symtab,strings,hash] := by rwa [mended.kept.symtab,mended.kept.bss]
    have other' : UInt16.ofNat (before.get before.bss).number ≠ SectionIndex.common := by
      rwa [mended.kept.bss,mended.zeroed]
    have sound' := mended.frame.sound sound
    by_cases apart : ∀ name ∈ missingNames lookup start,
        (start.symbol start.symtab (start.findSymbol start.symtab name)).index ≠ SectionIndex.common
    · rw [(mended.linked apart).relocate_same base now sound' aside' other']
    · have powers := clear.resolve_left apart
      obtain ⟨after,placed'⟩ := placeCommons_behind sound powers other mended.frame mended.zeroed
        (fun i => (mended.records i).imp_right fun defined => by rw [defined.1]; decide) placed
      refine mended.part.outcome_missing base now sound' aside' other' placed' ?_
      -- the symbol that is missing under such a name is not the one that is defined
      simp only [not_forall,Classical.not_not] at apart
      obtain ⟨name,member,common⟩ := apart
      obtain ⟨_,_,i,inside,undefined,named,reports⟩ := present_of_missing tabled member
      have same : before.symbol start.symtab i = start.symbol start.symtab i := by
        rcases mended.records i with same | ⟨_,name',member',found⟩
        · exact same
        · obtain ⟨_,_,named'⟩ := tabled.findSymbol_some (present_of_missing tabled member').2.1
          rw [found,named] at named'
          rw [← named'] at found
          rw [found,undefined] at common
          cases common
      refine List.ne_nil_of_mem (List.mem_filterMap.mpr ⟨i,?_,?_⟩ : name ∈ _)
      · rwa [mem_symbolIndexes,mended.kept.symtab,mended.kept.count,← mem_symbolIndexes]
      · rw [← reports]
        simp only [reported,mended.kept.symtab,same,mended.kept.names]

def lacking : List Mention :=
  [⟨"c",{ info := 0x11, index := common, value := 8, size := 4 }⟩,
    ⟨"x",{ info := 0x10, index := undef }⟩,⟨"y",{ info := 0x10, index := undef }⟩]

def knowsY (name : String) : Option UInt64 := if name = "y" then some 16 else none

theorem failed_link_mends_lacking : let start := Arena.initial.mentionAll Arena.initial.symtab lacking
    let defs : List Mention := [⟨"x",{ info := 0x10, index := SectionIndex.abs, value := 4096 }⟩]
    ∃ after, relocate 0x400000 knowsY start = .error (.undefined ["x"]) after ∧
      outcome (relocate 0x400000 knowsY (after.mentionAll after.symtab defs)) =
        outcome (relocate 0x400000 knowsY (start.mentionAll start.symtab defs)) := by
  intro start defs
  have merged := merged_initial.mentionAll (⟨by decide +kernel,by decide +kernel,by decide +kernel⟩ : Proper lacking)
  have defines : ∀ m ∈ defs, m.entry.isLocal = false ∧ m.entry.index = SectionIndex.abs ∧ m.name ∈ ["x"] := by
    decide +kernel
  obtain ⟨aside,ordinary,clear,runs⟩ : start.bss ∉ [start.symtab,5,6] ∧
      (start.get start.bss).number ≠ SectionIndex.common.toNat ∧
      (∀ name ∈ ["x"],
        (start.symbol start.symtab (start.findSymbol start.symtab name)).index ≠ SectionIndex.common) ∧
      leaves (fun middle => match resolve knowsY middle with
        | .error (.undefined names) _ => names == ["x"]
        | _ => false) (placeCommons start) = true := by decide +kernel
  change Merged Arena.initial Arena.initial.symtab 5 6 lacking start at merged
  clear_value start
  have tabled : Tabled start start.symtab 5 6 := by rw [merged.framed.symtab]; exact merged.tabled
  have sound := standing_initial.toSound.framed merged.framed merged.tabled.named.records.stored
  obtain ⟨_,middle,placed,reports⟩ := leaves_iff.mp runs
  split at reports
  next names after failed =>
    obtain rfl := eq_of_beq reports
    obtain ⟨error,_,same⟩ := failed_link_mends 0x400000 tabled sound aside ordinary placed failed defines (.inl clear)
    exact ⟨after,error,same⟩
  next => cases reports

def failsWith {α : Type} (error : LinkError) : Except LinkError α → Bool
  | .ok _ => false
  | .error e => e == error

/-- An undefined symbol and a tentative definition of one name, and a large tentative definition that asks for an
alignment of six. When the name is defined first, the large one comes to lie elsewhere and does not fit. -/
theorem odd_alignment_not_mended : let zeroed := Arena.initial.update Arena.initial.bss (·.resize 5)
    let first := (zeroed.putSymbol zeroed.symtab { info := 0x10, index := SectionIndex.undef } "x").2
    let second := (first.putSymbol first.symtab
      { info := 0x11, index := SectionIndex.common, value := 1, size := 2 } "x").2
    let start := (second.putSymbol second.symtab
      { info := 0x11, index := SectionIndex.common, value := 6, size := 4294967287 } "y").2
    let defs : List Mention := [⟨"x",{ info := 0x10, index := SectionIndex.abs, value := 4096 }⟩]
    (match relocate 0x400000 (fun _ => none) start with
      | .error (.undefined missing) after => missing == ["x"] &&
        failsWith (.undefined ["x"]) (outcome (relocate 0x400000 (fun _ => none) (after.mentionAll after.symtab defs)))
      | _ => false) = true ∧
    failsWith (.tooLarge ".bss")
      (outcome (relocate 0x400000 (fun _ => none) (start.mentionAll start.symtab defs))) = true := by
  decide +kernel

end Link
end OnePass
