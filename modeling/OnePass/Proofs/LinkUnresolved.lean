import OnePass.Proofs.LinkFaithful
import OnePass.Session

/-! # Symbols that a link leaves undefined

Local symbols are passed over when undefined symbols are looked up: one that its unit declares and never
defines keeps the address zero. -/
namespace OnePass.Link

open Elf Elf.Arena SectionIndex

/-- A symbol that has to be found and is not. -/
def Missing (lookup : String → Option UInt64) (arena : Arena) (i : Nat) : Prop :=
  let sym := arena.symbol arena.symtab i
  sym.index = undef ∧ sym.isLocal = false ∧ sym.binding ≠ Binding.weak ∧
    lookup (arena.symbolName arena.symtab i) = none

/-- An undefined symbol that a link passes over. -/
def PassedOver (lookup : String → Option UInt64) (arena : Arena) (i : Nat) : Prop :=
  let sym := arena.symbol arena.symtab i
  sym.index = undef ∧
    (sym.isLocal = true ∨ sym.binding = Binding.weak ∧ lookup (arena.symbolName arena.symtab i) = none)

section Records

theorem FinalRecord.not_missing (record : FinalRecord lookup before after i) : ¬Missing lookup before i := by
  rintro ⟨undefined,shared,strong,absent⟩
  have other : (before.symbol before.symtab i).index ≠ common := by
    rw [undefined]
    decide
  simp only [FinalRecord,if_neg other,if_pos (And.intro undefined shared),absent] at record
  exact strong record.1

theorem FinalRecord.undefined_iff (sound : Sound before) (record : FinalRecord lookup before after i) :
    (after.symbol before.symtab i).index = undef ↔ PassedOver lookup before i := by
  simp only [FinalRecord] at record
  simp only [PassedOver]
  split at record
  next tentative =>
    obtain ⟨offset,_,_,eq⟩ := record
    rw [eq,tentative]
    exact ⟨fun h => absurd h sound.bss_defined,fun h => absurd h.1 (by decide)⟩
  next =>
    split at record
    next searched =>
      cases found : lookup (before.symbolName before.symtab i) with
      | some address =>
        rw [found] at record
        simp [record,searched.2,SectionIndex.abs,undef]
      | none =>
        rw [found] at record
        simp [record.2,record.1]
    next kept =>
      rw [record]
      refine ⟨fun undefined => ⟨undefined,Or.inl ?_⟩,And.left⟩
      cases ownFile : (before.symbol before.symtab i).isLocal with
      | true => rfl
      | false => exact absurd ⟨undefined,ownFile⟩ kept

end Records

theorem relocate_finalRecord (sound : Sound before) (member : i ∈ symbolIndexes before)
    (run : relocateIn memory base lookup before = .ok image after) :
    after.symtab = before.symtab ∧ ∃ arena, FinalRecord lookup before arena i ∧
      after.symbol before.symtab i = arena.symbol before.symtab i := by
  obtain ⟨middle,arena,parts,commons,resolve,rfl,_,_⟩ := relocate_steps run
  have commons := placeCommons_placed sound commons
  have resolved := resolve_resolved (commons.kept.sound sound) resolve
  have moved := (Moved.refl arena).place base (spots arena)
  refine ⟨?_,arena,finalRecord sound member commons resolved,moved.symbol before.symtab i⟩
  rw [moved.symtab,resolved.kept.symtab,commons.kept.symtab]

/-- A link fails when a symbol is missing that is neither weak nor local. In an image that it returns
the symbols without a definition are weak or local ones, and all of these stand for address zero. -/
theorem relocate_undefined (base : UInt64) (lookup : String → Option UInt64) (before : Arena)
    (sound : Sound before) (i : Nat) (member : i ∈ symbolIndexes before) :
    (Missing lookup before i → ∃ e after, relocateIn memory base lookup before = .error e after) ∧
    ∀ image after, relocateIn memory base lookup before = .ok image after →
      ((after.symbol after.symtab i).index = SectionIndex.undef ↔ PassedOver lookup before i) ∧
      (PassedOver lookup before i → symbolAddress after i = 0) := by
  constructor
  · intro missing
    cases run : relocateIn memory base lookup before with
    | error e after => exact ⟨e,after,rfl⟩
    | ok image after =>
      obtain ⟨_,_,record,_⟩ := relocate_finalRecord sound member run
      exact absurd missing record.not_missing
  · intro image after run
    obtain ⟨symtab,_,record,same⟩ := relocate_finalRecord sound member run
    have final : (after.symbol after.symtab i).index = SectionIndex.undef ↔ PassedOver lookup before i := by
      rw [symtab,same]
      exact record.undefined_iff sound
    refine ⟨final,fun passed => ?_⟩
    simp [symbolAddress,final.mpr passed]

/-- The function that `caller` calls is missing when nobody supplies it. -/
theorem relocate_undefined_caller : Sound caller ∧ 2 ∈ symbolIndexes caller ∧ Missing (fun _ => none) caller 2 ∧
    ∃ e after, relocate 0x400000 (fun _ => none) caller = .error e after := by
  obtain ⟨linkable,member,missing⟩ : Linkable caller ∧ 2 ∈ symbolIndexes caller ∧ Missing (fun _ => none) caller 2 := by
    simp only [Missing]
    decide +kernel
  exact ⟨linkable.toSound,member,missing,
    (relocate_undefined 0x400000 (fun _ => none) caller linkable.toSound 2 member).1 missing⟩

/-- The relocations of an arena against symbols that are undefined and not weak. -/
def unresolved (arena : Arena) : List Relocation :=
  (arena.allocated.flatMap arena.relocations).filter fun rel =>
    let sym := arena.symbol arena.symtab rel.symbol.toNat
    sym.index == undef && sym.binding != Binding.weak

/-- A pointer to a static function without a body links, and points to nothing. -/
theorem relocate_undefined_static : (match Session.compileText "static int f(void);\nint (*p)(void) = f;"
        { fuel := 1000, base := 0x400000 } {} with
      | .ok _ s => (match relocate 0x400000 (fun _ => none) s.arena with
        | .ok image after => some (unresolved after,image.bytes.toList.take 8)
        | .error _ _ => none)
      | .error _ _ => none) =
    some ([⟨0,3,RelocType.abs64.code,0⟩],List.replicate 8 0) := by
  decide +kernel

end OnePass.Link
