import OnePass.Proofs.LoadedObject

/-! # An arena with loaded objects is linked without overflow

The layout of an image is computed with words. No sum passes the end of the address space when the
alignments are powers of two that a section can have, so it is the layout in numbers without bound. -/
namespace OnePass

open Elf List UInt64 SectionIndex SectionType Object
open Arena hiding data

namespace Link

/-! ## Layouts without bound -/

def roundUp (value align : Nat) : Nat := (value + align - 1) / align * align

def exactLayout (arena : Arena) : Nat → List SectionId → List Nat × Nat
  | size, [] => ([], size)
  | size, id :: rest =>
    let start := roundUp size (max (arena.get id).align 1).toNat
    let (offsets, stop) := exactLayout arena (start + (arena.get id).size) rest
    (start :: offsets, stop)

theorem alignUp_exact (power : align.toNat = 2 ^ k)
    (room : value.toNat + align.toNat ≤ 2 ^ 64) : (alignUp value align).toNat = roundUp value.toNat align.toNat := by
  obtain ⟨behind,near⟩ := alignUp_bounds value align room
  obtain ⟨q,multiple⟩ := alignUp_dvd value align power
  rw [← power] at multiple
  have positive : 0 < align.toNat := by
    rw [power]
    exact Nat.two_pow_pos k
  have quotient : (value.toNat + align.toNat - 1) / align.toNat = q := by
    apply Nat.div_eq_of_lt_le
    · rw [Nat.mul_comm]
      omega
    · rw [Nat.succ_mul,Nat.mul_comm q]
      omega
  rw [roundUp,quotient,multiple,mul_comm]

theorem max_one_align (power : IsAlignment align) : max align 1 = align := by
  obtain ⟨k,_,eq⟩ := power
  have positive : 0 < align.toNat := by
    rw [eq]
    exact Nat.two_pow_pos k
  rw [show max align 1 = if align ≤ 1 then 1 else align from rfl]
  split
  next least =>
    exact (UInt64.toNat_inj.mp (le_antisymm least positive)).symm
  next => rfl

theorem layout_exact (size : UInt64) (ids : List SectionId) (powers : ∀ id ∈ ids, IsAlignment (arena.get id).align)
    (room : size.toNat + span arena ids < 2 ^ 64) :
    (layout arena size ids).1.map toNat = (exactLayout arena size.toNat ids).1 ∧
      (layout arena size ids).2.toNat = (exactLayout arena size.toNat ids).2 := by
  induction ids generalizing size with
  | nil => exact ⟨rfl,rfl⟩
  | cons id ids ih =>
    rw [span_cons] at room
    have power := powers id mem_cons_self
    have same := max_one_align power
    obtain ⟨k,small,eq⟩ := power
    have start : (alignUp size (arena.get id).align).toNat = roundUp size.toNat (arena.get id).align.toNat :=
      alignUp_exact eq (by omega)
    have near := alignUp_bounds size (arena.get id).align (by omega)
    have stop : (alignUp size (arena.get id).align + ofNat (arena.get id).size).toNat =
        roundUp size.toNat (arena.get id).align.toNat + (arena.get id).size := by
      rw [UInt64.toNat_add,UInt64.toNat_ofNat',Nat.mod_eq_of_lt (by omega : (arena.get id).size < 2 ^ 64),start]
      exact Nat.mod_eq_of_lt (by omega)
    have rest := ih (alignUp size (arena.get id).align + ofNat (arena.get id).size)
      (fun other member => powers other (mem_cons_of_mem _ member)) (by omega)
    rw [stop] at rest
    simp only [layout,exactLayout,same,map_cons,start]
    exact ⟨congrArg _ rest.1,rest.2⟩

/-! ## Images of safe arenas -/

/-- The sums of the layout are exact, its parts lie inside the image, its tables name symbols that exist, and every
section is at a multiple of its alignment. -/
structure LaidSafely (arena : Arena) : Prop where
  offsets : (layout arena 0 arena.allocated).1.map toNat = (exactLayout arena 0 arena.allocated).1
  stop : (sectionsStop arena).toNat = (exactLayout arena 0 arena.allocated).2
  entriesAt : (entriesOffset arena).toNat = roundUp (sectionsStop arena).toNat 8
  jumpsAt : (jumpsOffset arena).toNat = roundUp ((entriesOffset arena).toNat + 8 * (entries arena).length) 16
  size : (imageSize arena).toNat = max ((jumpsOffset arena).toNat + 8 * (jumps arena).length) 1
  inside : ∀ spot ∈ spots arena, spot.2.toNat + (arena.get spot.1).size ≤ (entriesOffset arena).toNat
  between : (entriesOffset arena).toNat + 8 * (entries arena).length ≤ (jumpsOffset arena).toNat
  aligned : ∀ spot ∈ spots arena, (arena.get spot.1).align.toNat ∣ spot.2.toNat
  fields : ∀ id, ∀ rel ∈ arena.relocations id, ∀ width ∈ relocWidth? rel.type,
    rel.offset.toNat + width ≤ (arena.get id).size
  targets : ∀ id, ∀ rel ∈ arena.relocations id, rel.symbol.toNat < arena.symbolCount arena.symtab
  named : ∀ symbol ∈ entries arena, symbol < arena.symbolCount arena.symtab
  slotted : ∀ symbol ∈ jumps arena, symbol ∈ entries arena

structure Layable (arena : Arena) : Prop where
  powers : ∀ id ∈ arena.allocated, IsAlignment (arena.get id).align
  sizes : ∀ id ∈ arena.allocated, (arena.get id).size ≤ (arena.get id).limit
  fields : ∀ id, ∀ rel ∈ arena.relocations id, ∀ width ∈ relocWidth? rel.type,
    rel.offset.toNat + width ≤ (arena.get id).size
  targets : ∀ id, ∀ rel ∈ arena.relocations id, rel.symbol.toNat < arena.symbolCount arena.symtab
  few : arena.allocated.length ≤ reserved.toNat

theorem Layable.span (layable : Layable arena) : Link.span arena arena.allocated ≤ 2 ^ 50 := by
  have each := span_le arena arena.allocated (2 ^ 33) fun id member => by
    obtain ⟨k,small,power⟩ := layable.powers id member
    have := le_trans (layable.sizes id member) (Linkable.limit_le (arena.get id))
    have : 2 ^ k ≤ 2 ^ 32 := Nat.pow_le_pow_right (by decide) small
    omega
  have few : arena.allocated.length * 2 ^ 33 ≤ 2 ^ 17 * 2 ^ 33 :=
    Nat.mul_le_mul_right _ (Nat.le_trans layable.few (by decide))
  omega

theorem Layable.laid (layable : Layable arena) : LaidSafely arena := by
  have room := layable.span
  obtain ⟨short,short'⟩ : (entries arena).length ≤ 2 ^ 32 ∧ (jumps arena).length ≤ 2 ^ 32 :=
    tables_length arena arena.allocated fun _ _ rel _ => rel.symbol.toNat_lt
  have zero : (0 : UInt64).toNat = 0 := rfl
  obtain ⟨offsets,stop⟩ := layout_exact 0 arena.allocated layable.powers (by omega)
  have laid := layout_laid arena 0 arena.allocated (by omega)
  have last : (sectionsStop arena).toNat ≤ 2 ^ 50 := le_trans laid.bounded (by omega)
  have entriesAt : (entriesOffset arena).toNat = roundUp (sectionsStop arena).toNat 8 :=
    alignUp_exact (k := 3) rfl (by have : (8 : UInt64).toNat = 8 := rfl; omega)
  obtain ⟨entriesNear,words,jumpsNear⟩ := tables_near (le_trans last (by decide)) (by omega)
  have jumpsAt : (jumpsOffset arena).toNat = roundUp ((entriesOffset arena).toNat + 8 * (entries arena).length) 16 := by
    rw [← words]
    exact alignUp_exact (k := 4) rfl (by have : (16 : UInt64).toNat = 16 := rfl; omega)
  have size : (imageSize arena).toNat = max ((jumpsOffset arena).toNat + 8 * (jumps arena).length) 1 := by
    rw [← words_stop (jumpsOffset arena) (jumps arena).length (by omega)]
    exact toNat_max _ _
  refine ⟨offsets,stop,entriesAt,jumpsAt,size,fun spot member => ?_,by omega,fun spot member => ?_,layable.fields,
    layable.targets,fun symbol member => ?_,fun symbol member => ?_⟩
  · exact le_trans (laid.inside spot member).2 entriesNear.1
  · have power := layable.powers spot.1 (of_mem_zip member).1
    have same := max_one_align power
    obtain ⟨k,_,eq⟩ := power
    rw [eq]
    exact layout_aligned arena 0 arena.allocated spot member k (by rw [same,eq])
  · obtain ⟨id,_,rel,inside,_,rfl⟩ := ((tables_spec arena arena.allocated).2.1 symbol).mp member
    exact layable.targets id rel inside
  · obtain ⟨id,here,rel,inside,needs,same⟩ := ((tables_spec arena arena.allocated).2.2 symbol).mp member
    exact ((tables_spec arena arena.allocated).2.1 symbol).mpr ⟨id,here,rel,inside,.inr needs,same⟩

/-! ## Reaching the layout -/

variable {before middle after : Arena} {lookup : String → Option UInt64}

theorem layable (safe : before.Safe) (few : before.allocated.length ≤ reserved.toNat)
    (commons : placeCommons before = .ok ⟨⟩ middle) (resolved : resolve lookup middle = .ok ⟨⟩ arena) :
    Layable arena ∧ before.Kept arena := by
  have state := placeCommons_placed safe.sound commons
  have power : IsAlignment (middle.get before.bss).align := placeCommons_align safe.sound (safe.powers _ safe.sound.zeroed)
    (fun i member tentative _ power => power.max (safe.tentative i (mem_symbolIndexes.mp member).2 tentative)) commons
  have bound := resolve_resolved (state.kept.sound safe.sound) resolved
  have kept := state.kept.trans bound.kept
  have zeroed : arena.get before.bss = middle.get before.bss := by
    rw [← state.kept.bss]
    exact bound.zeroed
  have allocated := allocated_congr kept.listed kept.flags
  have relocations := kept.relocations safe.sound
  refine ⟨⟨fun id member => ?_,fun id member => ?_,fun id rel member width known => ?_,fun id rel member => ?_,
    by rwa [allocated]⟩,kept⟩
  · by_cases here : id = before.bss
    · rwa [here,zeroed]
    · rw [kept.align here]
      exact safe.powers id (kept.size ▸ allocated_bound member)
  · rw [allocated] at member
    by_cases here : id = before.bss
    · rw [here] at member ⊢
      rw [zeroed,state.kept.limit]
      rcases state.extent with same | fits
      · rw [same]
        exact safe.sizes _ member
      · exact fits
    · have table : id ≠ before.symtab := by
        rintro rfl
        have image := (mem_filter.mp member).2
        rw [Section.isAllocated,safe.table.2] at image
        cases image
      rw [kept.others id here table]
      exact safe.sizes id member
  · rw [relocations] at member
    exact le_trans (safe.fields id rel member width known) (kept.longer id)
  · rw [relocations] at member
    rw [kept.count]
    exact safe.targets id rel member

/-- Every section of an image is at a multiple of its alignment behind the start, and every part lies inside. -/
structure WellPlaced (base : UInt64) (before after : Arena) (image : Image) : Prop where
  sections : ∀ id ∈ before.allocated, ∃ offset : UInt64, (after.get id).address = base + offset ∧
    (after.get id).align.toNat ∣ offset.toNat ∧ offset.toNat + (after.get id).size ≤ image.size
  parts : ∀ part ∈ image.parts, part.offset + part.bytes.size ≤ image.size

theorem relocate_wellPlaced (safe : before.Safe)
    (few : before.allocated.length ≤ reserved.toNat) (run : relocateIn memory base lookup before = .ok image after) :
    WellPlaced base before after image := by
  obtain ⟨middle,arena,parts,commons,resolved,placed,found,rfl⟩ := relocate_steps run
  obtain ⟨able,kept⟩ := layable safe few commons resolved
  have laid := able.laid
  have size := laid.size
  have between := laid.between
  have firsts := map_fst_spots arena
  have moved := (Moved.refl arena).place base (spots arena)
  refine ⟨fun id member => ?_,fun part member => ?_⟩
  · rw [← allocated_congr kept.listed kept.flags] at member
    obtain ⟨⟨_,offset⟩,spot,rfl⟩ : ∃ spot ∈ spots arena, spot.1 = id := List.mem_map.mp (firsts ▸ member)
    have there := place_get base arena (spots arena) _ offset
      (firsts ▸ allocated_nodup (kept.sound safe.sound).distinct) (allocated_bound member) spot
    have inside := laid.inside _ spot
    rw [placed,there]
    exact ⟨offset,rfl,laid.aligned _ spot,by dsimp only at inside ⊢; omega⟩
  · rcases List.mem_append.mp member with ours | table
    · obtain ⟨k,at_⟩ := List.getElem?_of_mem ours
      obtain ⟨length,each⟩ := mapM_ok found
      obtain ⟨⟨id,offset⟩,spot⟩ : ∃ spot, (spots arena)[k]? = some spot := by
        have bound := (List.getElem?_eq_some_iff.mp at_).1
        rw [length] at bound
        exact ⟨_,List.getElem?_eq_getElem bound⟩
      obtain ⟨other,same,ok⟩ := each k _ spot
      obtain rfl : part = other := Option.some.inj (at_.symm.trans same)
      obtain ⟨start,applied⟩ := relocatedPart_ok ok
      have bytes := applyAll_size applied
      have most := size_loaded (after.get id)
      obtain ⟨_,eq⟩ := moved.section_ id
      have inside := laid.inside _ (List.mem_of_getElem? spot)
      rw [placed,eq] at most bytes
      dsimp only at inside most bytes ⊢
      omega
    · simp only [List.mem_cons,List.not_mem_nil,or_false] at table
      rcases table with rfl | rfl
      · rw [Linking.size_gotBytes]
        dsimp only [planFor]
        omega
      · rw [Linking.size_pltBytes]
        dsimp only [planFor]
        omega

/-! ## Loaded objects -/

theorem safe_initial : initial.Safe := by
  have strings : (initial.get initial.symtab).link = some 5 := by decide +kernel
  have chains : (initial.get initial.symtab).hash = some 6 := by decide +kernel
  -- The hash table has one bucket and one chain word, and nothing behind them.
  have words : ∀ k < 2, (initial.get 6).word ((2 + k) * 4) < initial.symbolCount initial.symtab := by
    decide +kernel
  have stored : (initial.get 6).store.size = 16 := by decide +kernel
  refine ⟨⟨standing_initial.numbered,standing_initial.inImage,standing_initial.ordinary,⟨?_,⟨?_,?_⟩,?_,?_,?_⟩,?_,?_,
    fun id link => ?_,fun id chain => ?_,fun id chain k => ?_,by simp [reloc_initial],by simp [reloc_initial]⟩,
    ⟨?_,by simp [relocations_initial],by simp [relocations_initial],?_,?_⟩⟩
  any_goals decide +kernel
  · obtain rfl := Option.some.inj (strings.symm.trans link)
    decide +kernel
  · obtain rfl := Option.some.inj (chains.symm.trans chain)
    exact ⟨by decide +kernel,by decide +kernel,reloc_initial _⟩
  · obtain rfl := Option.some.inj (chains.symm.trans chain)
    by_cases first : k < 2
    · exact words k first
    · have empty : (initial.get 6).store.extract ((2 + k) * 4) ((2 + k) * 4 + 4) = #[] := by
        apply Array.extract_empty_of_size_le_start
        omega
      rw [Section.word,readLE,empty]
      decide +kernel

/-- A loaded object leaves an arena that is wired and regular, and whose links lay the sections out without
overflow, read no table outside its bounds and place every section at a multiple of its alignment. -/
theorem loaded_object_links_safely {data : Array UInt8} (wired : before.Wired) (regular : before.Regular)
    (asks : ∀ file, File.parse data = .ok file → file.AsksPowers)
    (few : ∀ file, File.parse data = .ok file → before.listed.size + file.sections.size ≤ SectionIndex.reserved.toNat)
    (run : load data before = .ok ⟨⟩ after) :
    after.Wired ∧ after.Regular ∧
    (∀ lookup middle arena, placeCommons after = .ok ⟨⟩ middle → resolve lookup middle = .ok ⟨⟩ arena →
      LaidSafely arena) ∧
    ∀ base lookup image final, relocateIn memory base lookup after = .ok image final → WellPlaced base after final image := by
  obtain ⟨safe,short⟩ := load_keeps_safe ⟨wired,regular⟩ asks few run
  refine ⟨safe.toWired,safe.toRegular,fun lookup middle arena commons resolved => ?_,
    fun base lookup image final linked => relocate_wellPlaced safe short linked⟩
  exact (layable safe short commons resolved).1.laid

/-- An object with a byte of code and a section `.x` of one byte. -/
def twoBytes (align : UInt64) : Array UInt8 :=
  let headers : List ObjectFile.Header := [
    { name := 1, type := progbits, flags := 2, offset := 64, size := 1 },
    { name := 7, type := progbits, flags := 2, offset := 65, size := 1, align },
    { name := 0, type := strtab, offset := 66, size := 10 }]
  (ObjectFile.fileHeader 76 4 3 ++ ([0x90,0x90] : Bytes) ++ Bytes.ofString "\x00.text\x00.x\x00" ++ Bytes.zeros 64 ++
    headers.flatMap ObjectFile.Header.encode).toArray

def linksTo (data : Array UInt8) (test : Arena → Arena → Bool) : Bool :=
  match load data initial with
  | .ok _ after => match relocate 0 (fun _ => none) after with
    | .ok _ final => test after final
    | .error _ _ => false
  | .error _ _ => false

theorem linksTo_ends (links : linksTo data test = true) :
    ∃ after image final, load data initial = .ok ⟨⟩ after ∧
      relocate 0 (fun _ => none) after = .ok image final ∧ test after final = true := by
  unfold linksTo at links
  split at links
  next after loads =>
    split at links
    next image final linked => exact ⟨after,image,final,loads,linked,links⟩
    next => cases links
  next => cases links

/-- An object with a function `f` that calls itself. -/
def selfCalling : Array UInt8 :=
  let call : Relocation := { offset := 1, type := RelocType.plt32.code, symbol := 1, addend := -4 }
  let f : Elf.Symbol := { nameOffset := 18, info := 0x12, index := 1, size := 5 }
  let headers : List ObjectFile.Header := [
    { name := 1, type := progbits, flags := 6, offset := 64, size := 5, align := 64 },
    { name := 7, type := rela, offset := 69, size := 24, link := 3, info := 1 },
    { name := 0, type := SectionType.symtab, offset := 93, size := 48, link := 4 },
    { name := 0, type := strtab, offset := 141, size := 20 }]
  (ObjectFile.fileHeader 161 5 4 ++ ([0xe8,0,0,0,0] : Bytes) ++ call.encode ++ Bytes.zeros 24 ++ f.encode ++
    Bytes.ofString "\x00.text\x00.rela.text\x00f\x00" ++ Bytes.zeros 64 ++
    headers.flatMap ObjectFile.Header.encode).toArray

theorem loaded_object_links_safely_calling : ∃ after image final, load selfCalling Arena.initial = .ok ⟨⟩ after ∧
    relocate 0 (fun _ => none) after = .ok image final ∧ after.relocations after.text ≠ [] ∧ after.Wired ∧
    after.Regular ∧ WellPlaced 0 after final image := by
  obtain ⟨linked,asks,few⟩ :
      linksTo selfCalling (fun after _ => decide (after.relocations after.text ≠ [])) = true ∧
      (∀ file, File.parse selfCalling = .ok file → file.AsksPowers) ∧
      ∀ file, File.parse selfCalling = .ok file →
        Arena.initial.listed.size + file.sections.size ≤ SectionIndex.reserved.toNat := by decide +kernel
  obtain ⟨after,image,final,loads,links,called⟩ := linksTo_ends linked
  obtain ⟨wired,regular,_,placed⟩ := loaded_object_links_safely safe_initial.toWired safe_initial.toRegular asks few loads
  exact ⟨after,image,final,loads,links,of_decide_eq_true called,wired,regular,placed 0 _ image final links⟩

/-- Nothing rejects an alignment that is no power of two: the section is placed where its alignment does not
divide its address. -/
theorem odd_alignment_misplaced : Arena.initial.Wired ∧ Arena.initial.Regular ∧ ∃ after image final,
    load (twoBytes 3) Arena.initial = .ok ⟨⟩ after ∧ relocate 0 (fun _ => none) after = .ok image final ∧
      ∃ id ∈ after.allocated, (final.get id).align = 3 ∧ (final.get id).address = 32 := by
  have linked : linksTo (twoBytes 3) (fun after final =>
      decide (∃ id ∈ after.allocated, (final.get id).align = 3 ∧ (final.get id).address = 32)) = true := by decide +kernel
  obtain ⟨after,image,final,loads,links,found⟩ := linksTo_ends linked
  exact ⟨safe_initial.toWired,safe_initial.toRegular,after,image,final,loads,links,of_decide_eq_true found⟩

end Link
end OnePass
