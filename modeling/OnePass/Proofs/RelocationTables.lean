import OnePass.Proofs.ArenaForm

/-! # Tables of relocations

Every section has a table of relocations of its own, which is made at the first relocation. -/
namespace OnePass.Elf.Arena

open Relocation
open Section

variable {arena after : Arena} {id symtab sec rela : SectionId}

def Relates (arena : Arena) (rela : SectionId) : Prop := ∃ id, (arena.get id).reloc = some rela

/-- Tables of relocations hold whole records, and no two sections share one. -/
structure Related (arena : Arena) : Prop where
  tables : ∀ rela, arena.Relates rela → rela < arena.sections.size ∧ (arena.get rela).Backed ∧
    (arena.get rela).size % recordSize = 0
  owners : ∀ id other rela, (arena.get id).reloc = some rela → (arena.get other).reloc = some rela → id = other

theorem Framed.relates (framed : Framed touched arena after) (rela : SectionId) :
    after.Relates rela ↔ arena.Relates rela :=
  exists_congr fun id => by rw [(framed.rewritten id).reloc]

theorem get_create (name : String) (type flags : UInt32) (below : id < arena.sections.size) :
    (arena.create name type flags).2.get id = arena.get id := by
  obtain ⟨_,_,eq,_,get,_⟩ := create_spec arena name type flags
  rw [eq,get,if_neg (ne_of_lt below)]

theorem create_reloc (arena : Arena) (name : String) (type flags : UInt32) (id : SectionId) :
    ((arena.create name type flags).2.get id).reloc = (arena.get id).reloc := by
  obtain ⟨_,_,eq,_,get,_⟩ := create_spec arena name type flags
  rw [eq,get]
  split
  next here =>
    rw [here,get_outside (Nat.le_refl arena.sections.size)]
    rfl
  next => rfl

def withTable (arena : Arena) (symtab sec : SectionId) : Arena :=
  (arena.create (".rela" ++ (arena.get sec).name) SectionType.rela
    ((arena.get symtab).flags &&& SectionFlag.unlisted)).2.update arena.sections.size fun r =>
      { r with entrySize := 24, info := UInt32.ofNat (arena.get sec).number, align := 8, link := some symtab }

theorem withTable_made (arena : Arena) (symtab sec : SectionId) :
    (arena.withTable symtab sec).sections.size = arena.sections.size + 1 ∧
      (((arena.withTable symtab sec).get arena.sections.size).Backed ∧
        ((arena.withTable symtab sec).get arena.sections.size).size = 0) ∧
      ∀ id < arena.sections.size, (arena.withTable symtab sec).get id = arena.get id := by
  obtain ⟨_,_,eq,size,get,_⟩ := create_spec arena (".rela" ++ (arena.get sec).name) SectionType.rela
    ((arena.get symtab).flags &&& SectionFlag.unlisted)
  rw [withTable,eq]
  refine ⟨by rw [update_size,size],?_,fun id below => ?_⟩
  · rw [get_update_same (size ▸ Nat.lt_succ_self _),get,if_pos rfl]
    exact ⟨⟨rfl,Nat.zero_le _⟩,rfl⟩
  · rw [get_update_other (ne_of_lt below),get,if_neg (ne_of_lt below)]

theorem withTable_reloc (arena : Arena) (symtab sec id : SectionId) :
    ((arena.withTable symtab sec).get id).reloc = (arena.get id).reloc :=
  (get_update_congr reloc rfl).trans (create_reloc _ _ _ _ id)

theorem withTable_listed (counted : (arena.get symtab).flags &&& SectionFlag.unlisted = 0) :
    Listed { Section.create (".rela" ++ (arena.get sec).name) SectionType.rela 0 with
      number := arena.listed.size, entrySize := 24, info := UInt32.ofNat (arena.get sec).number, align := 8,
      link := some symtab } arena (arena.withTable symtab sec) := by
  obtain ⟨_,listed,_⟩ := create_listed arena (".rela" ++ (arena.get sec).name) SectionType.rela 0 rfl
  rw [withTable,counted]
  refine ⟨listed.symtab,listed.listed,by rw [update_size,listed.size],?_,rfl⟩
  rw [get_update_same (listed.size ▸ Nat.lt_succ_self _),listed.made]

theorem relocSection_none (found : (arena.get sec).reloc = none) : arena.relocSection symtab sec =
    (arena.sections.size,(arena.withTable symtab sec).update sec fun s =>
      { s with reloc := some arena.sections.size }) := by
  obtain ⟨_,_,eq,_⟩ := create_spec arena (".rela" ++ (arena.get sec).name) SectionType.rela
    ((arena.get symtab).flags &&& SectionFlag.unlisted)
  simp only [relocSection,found,withTable,eq]

theorem putRelocation_some (found : (arena.get sec).reloc = some rela) :
    arena.putRelocation symtab sec rel = arena.update rela (·.append rel.encode) := by
  simp only [putRelocation,relocSection,found]

theorem putRelocation_none (found : (arena.get sec).reloc = none) :
    arena.putRelocation symtab sec rel = ((arena.withTable symtab sec).update sec fun s =>
      { s with reloc := some arena.sections.size }).update arena.sections.size (·.append rel.encode) := by
  rw [putRelocation,relocSection_none found]

namespace Related

variable (related : Related arena)

include related

theorem congr (size : arena.sections.size ≤ after.sections.size)
    (reloc : ∀ id, (after.get id).reloc = (arena.get id).reloc)
    (same : ∀ rela, arena.Relates rela → after.get rela = arena.get rela) :
    Related after ∧ ∀ id, after.relocations id = arena.relocations id := by
  have relates {rela : SectionId} : after.Relates rela ↔ arena.Relates rela := by
    simp only [Relates,reloc]
  refine ⟨⟨fun rela found => ?_,fun id other rela => ?_⟩,fun id => relocations_congr (reloc id) fun rela found =>
    same rela ⟨id,found⟩⟩
  · have found' := relates.mp found
    rw [same rela found']
    exact ⟨lt_of_lt_of_le (related.tables rela found').1 size,(related.tables rela found').2⟩
  · rw [reloc,reloc]
    exact related.owners id other rela

theorem framed (framed : Framed touched arena after) (aside : ∀ rela ∈ touched, ¬arena.Relates rela) :
    Related after ∧ ∀ id, after.relocations id = arena.relocations id :=
  related.congr (le_of_eq framed.size.symm) (fun id => (framed.rewritten id).reloc) fun rela found =>
    framed.others rela fun member => aside rela member found

theorem record (found : (arena.get id).reloc = some rela) (rel : Relocation) :
    let after := arena.update rela (·.append rel.encode)
    Related after ∧ ∀ other rel', rel' ∈ after.relocations other ↔
      rel' ∈ arena.relocations other ∨ other = id ∧ rel' = rel := by
  intro after
  obtain ⟨bound,backed,full⟩ := related.tables rela ⟨id,found⟩
  have framed : Framed [rela] arena after := .update arena (List.mem_singleton_self _) (.append _ _)
  have reloc other := (framed.rewritten other).reloc
  have here : after.get rela = (arena.get rela).append rel.encode := get_update_same bound
  have apart other ne : after.get other = arena.get other := get_update_other ne
  refine ⟨⟨fun table there => ?_,fun first second table => ?_⟩,fun other rel' => ?_⟩
  · have there' := (framed.relates table).mp there
    rw [framed.size]
    by_cases same : table = rela
    · subst same
      rw [here,size_append,length_encode,Nat.add_mod_right]
      exact ⟨bound,append_backed backed _,full⟩
    · rw [apart table same]
      exact related.tables table there'
  · rw [reloc,reloc]
    exact related.owners first second table
  · by_cases owns : (arena.get other).reloc = some rela
    · have old : arena.relocations other = decodeAll (arena.get rela).contents := by rw [relocations,owns]
      rw [relocations,reloc,owns]
      simp only [here]
      rw [contents_append backed,decodeAll_append (by rw [backed.size_contents,full]),← old,List.mem_append,
        List.mem_singleton,related.owners other id rela owns found,eq_self,true_and]
    · rw [relocations_congr (reloc other) fun table found' => apart table fun eq => owns (eq ▸ found')]
      exact ⟨.inl,fun either => either.resolve_right fun same => owns (same.1 ▸ found)⟩

theorem attach (none : (arena.get sec).reloc = none) (unowned : ¬arena.Relates rela)
    (bound : rela < arena.sections.size) (backed : (arena.get rela).Backed) (empty : (arena.get rela).size = 0) :
    let after := arena.update sec fun s => { s with reloc := some rela }
    Related after ∧ ∀ id, after.relocations id = arena.relocations id := by
  intro after
  have get id : after.get id =
      if id = sec ∧ sec < arena.sections.size then { arena.get sec with reloc := some rela } else arena.get id :=
    get_update _ _ _
  have size : after.sections.size = arena.sections.size := update_size
  -- Nothing but the link is changed.
  have kept {α : Type} (field : Section → α) (plain : ∀ s, field { s with reloc := some rela } = field s)
      id : field (after.get id) = field (arena.get id) := get_update_congr field (plain _)
  have holds {table : SectionId} (inside : table < arena.sections.size) (backed : (arena.get table).Backed)
      (full : (arena.get table).size % recordSize = 0) : table < after.sections.size ∧
        (after.get table).Backed ∧ (after.get table).size % recordSize = 0 := by
    have bytes := kept Section.size (fun _ => rfl) table
    refine ⟨size ▸ inside,⟨(kept Section.isNobits (fun _ => rfl) table).trans backed.kind,?_⟩,bytes ▸ full⟩
    rw [bytes,kept Section.store (fun _ => rfl)]
    exact backed.stored
  have owned {id table : SectionId} (found : (after.get id).reloc = some table) :
      (arena.get id).reloc = some table ∨ id = sec ∧ table = rela := by
    rw [get] at found
    split at found
    · next here => exact .inr ⟨here.1,(Option.some.inj found).symm⟩
    · exact .inl found
  refine ⟨⟨fun table ⟨id,found⟩ => ?_,fun first second table found found' => ?_⟩,fun id => ?_⟩
  · rcases owned found with old | ⟨_,rfl⟩
    · obtain ⟨inside,backed,full⟩ := related.tables table ⟨id,old⟩
      exact holds inside backed full
    · exact holds bound backed (by rw [empty,Nat.zero_mod])
  · rcases owned found with old | ⟨rfl,rfl⟩
    · rcases owned found' with old' | ⟨_,rfl⟩
      · exact related.owners first second table old old'
      · exact absurd ⟨first,old⟩ unowned
    · rcases owned found' with old' | ⟨rfl,_⟩
      · exact absurd ⟨second,old'⟩ unowned
      · rfl
  · have contents table : (after.get table).contents = (arena.get table).contents :=
      kept Section.contents (fun _ => rfl) table
    have blank : (arena.get rela).contents = #[] := by simp [Section.contents,empty]
    by_cases here : id = sec ∧ sec < arena.sections.size
    · rw [relocations,relocations,get,if_pos here,here.1,none]
      simp only [contents,blank]
      rfl
    · rw [relocations,relocations,get,if_neg here]
      simp only [contents]

theorem putRelocation (symtab sec : SectionId) (rel : Relocation) :
    let after := arena.putRelocation symtab sec rel
    Related after ∧ ∀ id rel', (rel' ∈ after.relocations id → rel' ∈ arena.relocations id ∨ id = sec ∧ rel' = rel) ∧
      (sec < arena.sections.size → rel' ∈ arena.relocations id ∨ id = sec ∧ rel' = rel → rel' ∈ after.relocations id) := by
  cases found : (arena.get sec).reloc with
  | some rela =>
    rw [putRelocation_some found]
    obtain ⟨put,records⟩ := related.record found rel
    exact ⟨put,fun id rel' => ⟨(records id rel').mp,fun _ => (records id rel').mpr⟩⟩
  | none =>
    obtain ⟨size,blank,same⟩ := withTable_made arena symtab sec
    have bound : arena.sections.size < (arena.withTable symtab sec).sections.size := by omega
    have reloc := withTable_reloc arena symtab sec
    obtain ⟨made,relocs⟩ := related.congr (by omega) reloc fun rela owned => same rela (related.tables rela owned).1
    have unowned : ¬(arena.withTable symtab sec).Relates arena.sections.size := by
      rintro ⟨id,owned⟩
      exact lt_irrefl _ (related.tables _ ⟨id,(reloc id).symm.trans owned⟩).1
    obtain ⟨attached,relocs'⟩ := made.attach ((reloc sec).trans found) unowned bound blank.1 blank.2
    rw [putRelocation_none found]
    have owner id := @get_update (arena.withTable symtab sec)
      (fun s => { s with reloc := some arena.sections.size }) sec id
    generalize (arena.withTable symtab sec).update sec (fun s => { s with reloc := some arena.sections.size }) = ready
      at attached relocs' owner
    by_cases inside : sec < (arena.withTable symtab sec).sections.size
    · have owned : (ready.get sec).reloc = some arena.sections.size := by rw [owner,if_pos ⟨rfl,inside⟩]
      obtain ⟨put,records⟩ := attached.record owned rel
      refine ⟨put,fun id rel' => ?_⟩
      have same := records id rel'
      rw [relocs',relocs] at same
      exact ⟨same.mp,fun _ => same.mpr⟩
    · have nowhere : ¬ready.Relates arena.sections.size := by
        rintro ⟨id,owned⟩
        rw [owner,if_neg fun both => inside both.2] at owned
        exact unowned ⟨id,owned⟩
      have framed : Framed [arena.sections.size] ready (ready.update arena.sections.size (·.append rel.encode)) :=
        .update _ (List.mem_singleton_self _) (.append _ _)
      obtain ⟨put,records⟩ := attached.framed framed (List.forall_mem_singleton.mpr nowhere)
      refine ⟨put,fun id rel' => ⟨fun member => .inl ?_,fun bound => absurd (bound.trans (by omega)) inside⟩⟩
      rwa [records,relocs',relocs] at member

end Related

end OnePass.Elf.Arena
