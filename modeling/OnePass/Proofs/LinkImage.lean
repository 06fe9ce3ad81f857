import OnePass.Proofs.LinkLayout
import OnePass.Proofs.LinkSymbols
import OnePass.Proofs.LinkTables

/-! # How an image is put together

An image is zeros under its parts, which follow each other. The steps of `relocate` give every section
its place, arrange the two tables behind the sections and relocate the contents of each section. -/
namespace OnePass.Link

open Elf Elf.Arena
open List hiding after lookup

/-! ## Parts of an image -/

def paint (parts : List ImagePart) (bytes : Array UInt8) : Array UInt8 :=
  parts.foldl (fun out part => overwrite out part.offset part.bytes.toList) bytes

def place (base : UInt64) (arena : Arena) (spots : List (SectionId × UInt64)) : Arena :=
  spots.foldl (fun arena (id, offset) =>
    arena.update id fun sec => { sec with address := base + offset }) arena

structure Moved (before after : Arena) : Prop where
  listed : after.listed = before.listed
  symtab : after.symtab = before.symtab
  bss : after.bss = before.bss
  section_ : ∀ id, ∃ address, after.get id = { before.get id with address }

namespace Moved

theorem refl (arena : Arena) : Moved arena arena := ⟨rfl,rfl,rfl,fun id => ⟨(arena.get id).address,rfl⟩⟩

section

variable (moved : Moved before after)

include moved

theorem update (id : SectionId) (address : UInt64) :
    Moved before (after.update id fun sec => { sec with address }) := by
  refine ⟨moved.listed,moved.symtab,moved.bss,fun other => ?_⟩
  obtain ⟨old,eq⟩ := moved.section_ other
  rw [get_update]
  split
  next same => exact ⟨address,by rw [← same.1,eq]⟩
  next => exact ⟨old,eq⟩

theorem place (base : UInt64) (spots : List (SectionId × UInt64)) : Moved before (place base after spots) := by
  induction spots generalizing after with
  | nil => exact moved
  | cons spot rest ih => exact ih (moved.update spot.1 (base + spot.2))

theorem symbol (table i : Nat) : after.symbol table i = before.symbol table i := by
  obtain ⟨_,eq⟩ := moved.section_ table
  rw [Arena.symbol,Arena.symbol,eq]

theorem count (table : Nat) : after.symbolCount table = before.symbolCount table := by
  obtain ⟨_,eq⟩ := moved.section_ table
  rw [symbolCount,symbolCount,eq]

theorem relocations (id : SectionId) : after.relocations id = before.relocations id := by
  obtain ⟨_,eq⟩ := moved.section_ id
  simp only [Arena.relocations,eq]
  split
  next rela _ =>
    obtain ⟨_,eq⟩ := moved.section_ rela
    rw [eq]
    rfl
  next => rfl

theorem allocated : after.allocated = before.allocated :=
  allocated_congr moved.listed fun id => by
    obtain ⟨_,eq⟩ := moved.section_ id
    rw [eq]

end

end Moved

theorem place_get_other (base : UInt64) (arena : Arena) (spots : List (SectionId × UInt64)) (id : SectionId)
    (absent : id ∉ spots.map (·.1)) : (place base arena spots).get id = arena.get id := by
  induction spots generalizing arena with
  | nil => rfl
  | cons spot rest ih =>
    simp only [map_cons,mem_cons,not_or] at absent
    rw [place,foldl_cons,← place,ih _ absent.2,get_update_other absent.1]

theorem place_get (base : UInt64) (arena : Arena) (spots : List (SectionId × UInt64)) (id : SectionId)
    (offset : UInt64) (distinct : (spots.map (·.1)).Nodup) (bound : id < arena.sections.size)
    (member : (id,offset) ∈ spots) :
    (place base arena spots).get id = { arena.get id with address := base + offset } := by
  induction spots generalizing arena with
  | nil => simp at member
  | cons spot rest ih =>
    rw [map_cons,nodup_cons] at distinct
    rw [place,foldl_cons,← place]
    rcases mem_cons.mp member with rfl | later
    · rw [place_get_other _ _ _ _ distinct.1,get_update_same bound]
    · have different : id ≠ spot.1 := fun same =>
        distinct.1 (mem_map.mpr ⟨(id,offset),later,same⟩)
      rw [ih _ distinct.2 (by simpa using bound) later,get_update_other different]

/-! ## The arrangement of sections and tables -/

def spots (arena : Arena) : List (SectionId × UInt64) :=
  arena.allocated.zip (layout arena 0 arena.allocated).1

def sectionsStop (arena : Arena) : UInt64 := (layout arena 0 arena.allocated).2

def entries (arena : Arena) : List Nat := (tables arena arena.allocated).1
def jumps (arena : Arena) : List Nat := (tables arena arena.allocated).2

def entriesOffset (arena : Arena) : UInt64 := alignUp (sectionsStop arena) 8

def jumpsOffset (arena : Arena) : UInt64 :=
  alignUp (entriesOffset arena + 8 * UInt64.ofNat (entries arena).length) 16

def imageSize (arena : Arena) : UInt64 := max (jumpsOffset arena + 8 * UInt64.ofNat (jumps arena).length) 1

def planFor (base : UInt64) (arena after : Arena) : Plan where
  base := base
  got := entries arena
  gotOffset := entriesOffset arena
  plt := jumps arena
  pltOffset := jumpsOffset arena
  addresses := (Array.range (after.symbolCount after.symtab)).map (symbolAddress after)

theorem reserve_unchanged (run : reserve memory size arena = .ok u after) : arena = after := by
  simp only [reserve] at run
  split at run
  next => cases run
  next =>
    split at run
    next => cases run
    next =>
      cases run
      rfl

theorem parts_ok {parts : Except LinkError (List ImagePart)} {whole : List ImagePart → Image} {arena after : Arena}
    (run : (match parts with
      | .error e => throw e
      | .ok parts => pure (whole parts) : LinkM Image) arena = .ok image after) :
    ∃ found, parts = .ok found ∧ image = whole found ∧ after = arena := by
  cases parts with
  | error e => cases run
  | ok found =>
    cases run
    exact ⟨found,rfl,rfl,rfl⟩

theorem relocate_steps (run : relocateIn memory base lookup before = .ok image after) :
    ∃ middle arena parts, placeCommons before = .ok ⟨⟩ middle ∧ resolve lookup middle = .ok ⟨⟩ arena ∧
      after = place base arena (spots arena) ∧
      (spots arena).mapM (fun (id, offset) => relocatedPart after (planFor base arena after) id offset) = .ok parts ∧
      image = {
        base
        size := (imageSize arena).toNat
        parts := parts ++
          [⟨(entriesOffset arena).toNat,(planFor base arena after).gotBytes.toArray⟩,
            ⟨(jumpsOffset arena).toNat,(planFor base arena after).pltBytes.toArray⟩]
        symbols := ((after.globals after.symtab).filter fun (index, _) =>
            (after.symbol after.symtab index).index != SectionIndex.undef).map fun (index, name) =>
              (name,(planFor base arena after).address index) } := by
  simp only [relocateIn,bind_eq_ok] at run
  obtain ⟨_,middle,commons,_,arena,resolved,_,_,same,_,_,reserved,_,_,placed,_,_,same',finish⟩ := run
  cases same
  obtain rfl := reserve_unchanged reserved
  cases placed
  cases same'
  obtain ⟨parts,found,rfl,rfl⟩ := parts_ok finish
  exact ⟨middle,arena,parts,commons,resolved,rfl,found,rfl⟩

/-- Sections, entries and jump slots follow each other, and every slot is near every entry. -/
structure Arranged (arena : Arena) : Prop where
  laid : Laid arena 0 arena.allocated (layout arena 0 arena.allocated).1 (sectionsStop arena)
  behind : (sectionsStop arena).toNat ≤ (entriesOffset arena).toNat
  between : (entriesOffset arena).toNat + 8 * (entries arena).length ≤ (jumpsOffset arena).toNat
  near : (jumpsOffset arena).toNat + 8 * (jumps arena).length + 6 ≤ (entriesOffset arena).toNat + 2 ^ 31
  whole : (jumpsOffset arena).toNat + 8 * (jumps arena).length ≤ (imageSize arena).toNat

theorem words_stop (offset : UInt64) (count : Nat) (room : offset.toNat + 8 * count < 2 ^ 64) :
    (offset + 8 * UInt64.ofNat count).toNat = offset.toNat + 8 * count := by
  rw [UInt64.toNat_add,UInt64.toNat_mul,UInt64.toNat_ofNat',Nat.mod_eq_of_lt (by omega : count < 2 ^ 64)]
  rw [show (8 : UInt64).toNat = 8 from rfl,Nat.mod_eq_of_lt (by omega : 8 * count < 2 ^ 64)]
  exact Nat.mod_eq_of_lt room

/-- Each table begins at the next multiple of its alignment. -/
theorem tables_near (stop : (sectionsStop arena).toNat ≤ 2 ^ 63) (few : 8 * (entries arena).length ≤ 2 ^ 62) :
    ((sectionsStop arena).toNat ≤ (entriesOffset arena).toNat ∧
      (entriesOffset arena).toNat ≤ (sectionsStop arena).toNat + 7) ∧
    (entriesOffset arena + 8 * UInt64.ofNat (entries arena).length).toNat =
      (entriesOffset arena).toNat + 8 * (entries arena).length ∧
    (entriesOffset arena).toNat + 8 * (entries arena).length ≤ (jumpsOffset arena).toNat ∧
      (jumpsOffset arena).toNat ≤ (entriesOffset arena).toNat + 8 * (entries arena).length + 15 := by
  have entriesAt : (sectionsStop arena).toNat ≤ (entriesOffset arena).toNat ∧
      (entriesOffset arena).toNat ≤ (sectionsStop arena).toNat + 7 :=
    alignUp_bounds (sectionsStop arena) 8 (by simp; omega)
  have entriesStop := words_stop (entriesOffset arena) (entries arena).length (by omega)
  refine ⟨entriesAt,entriesStop,?_⟩
  rw [← entriesStop]
  exact alignUp_bounds _ 16 (by rw [entriesStop]; simp; omega)

theorem arranged (arena : Arena) (room : span arena arena.allocated ≤ 2 ^ 63)
    (few : 8 * ((entries arena).length + (jumps arena).length) + 22 ≤ 2 ^ 31) : Arranged arena := by
  have laid := layout_laid arena 0 arena.allocated (by simp; omega)
  have stop : (sectionsStop arena).toNat ≤ 2 ^ 63 := by
    have := laid.bounded
    simp at this
    exact Nat.le_trans this room
  obtain ⟨entriesAt,-,jumpsAt⟩ := tables_near stop (by omega)
  have jumpsStop := words_stop (jumpsOffset arena) (jumps arena).length (by omega)
  refine ⟨laid,entriesAt.1,jumpsAt.1,by omega,?_⟩
  rw [← jumpsStop,← UInt64.le_iff_toNat_le]
  exact (max_le_iff_both _ _ _).mp (UInt64.le_refl _) |>.1

/-! ## The parts of a link -/

theorem mapM_ok {α β ε : Type} {f : α → Except ε β} {items : List α} {out : List β} (ok : items.mapM f = .ok out) :
    out.length = items.length ∧ ∀ (k : Nat) (a : α), items[k]? = some a → ∃ b, out[k]? = some b ∧ f a = .ok b := by
  induction items generalizing out with
  | nil =>
    cases ok
    simp
  | cons a rest ih =>
    rw [mapM_cons] at ok
    simp only [bind,Except.bind] at ok
    split at ok
    next => cases ok
    next b first =>
      split at ok
      next => cases ok
      next later tail =>
        cases ok
        obtain ⟨length,each⟩ := ih tail
        refine ⟨by simp [length],fun k other at_ => ?_⟩
        cases k with
        | zero =>
          obtain rfl : a = other := by simpa using at_
          exact ⟨b,by simp,first⟩
        | succ k => simpa using each k other (by simpa using at_)

def loaded (sec : Section) : Array UInt8 := if sec.isNobits then #[] else sec.contents

theorem size_loaded (sec : Section) : (loaded sec).size ≤ sec.size := by
  unfold loaded
  split
  · simp
  · simp only [Section.contents,Array.size_extract]
    omega

theorem relocatedPart_ok {id : SectionId}
    (ok : relocatedPart arena plan id offset = .ok part) :
    part.offset = offset.toNat ∧
      applyAll arena plan (arena.get id).address (loaded (arena.get id)) (arena.relocations id) = .ok part.bytes := by
  simp only [relocatedPart,bind,Except.bind] at ok
  split at ok
  next => cases ok
  next bytes applied =>
    cases ok
    exact ⟨rfl,applied⟩

end OnePass.Link
