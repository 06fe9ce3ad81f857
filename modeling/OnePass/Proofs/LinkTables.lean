import OnePass.Proofs.LinkFields

/-! # The tables behind the sections

Every symbol that some relocation reads through the global offset table has one entry there, and every
absolute symbol that is called has one jump slot and an entry. -/
namespace OnePass.Link

open Elf RelocType List SectionIndex

/-- A call whose target is outside the image. -/
def NeedsSlot (arena : Arena) (rel : Relocation) : Prop :=
  rel.type = plt32.code ∧ (arena.symbol arena.symtab rel.symbol.toNat).index = abs

def NeedsEntry (arena : Arena) (rel : Relocation) : Prop := relocUsesGot rel.type = true ∨ NeedsSlot arena rel

theorem mem_addOnce : other ∈ addOnce slots symbol ↔ other ∈ slots ∨ other = symbol := by
  unfold addOnce
  split
  next known =>
    have member : symbol ∈ slots := by simpa using known
    exact ⟨Or.inl,fun h => h.elim id fun same => same ▸ member⟩
  next => simp

theorem nodup_addOnce (distinct : slots.Nodup) : (addOnce slots symbol).Nodup := by
  unfold addOnce
  split
  next => exact distinct
  next fresh =>
    have absent : symbol ∉ slots := by simpa using fresh
    rw [nodup_append]
    refine ⟨distinct,by simp,?_⟩
    intro a member b single same
    obtain rfl := mem_singleton.mp single
    exact absent (same ▸ member)

def enter (arena : Arena) (slots : List Nat × List Nat) (rel : Relocation) : List Nat × List Nat :=
  let symbol := rel.symbol.toNat
  if relocUsesGot rel.type then (addOnce slots.1 symbol,slots.2)
  else if rel.type == plt32.code &&
      (arena.symbol arena.symtab symbol).index == abs then
    (addOnce slots.1 symbol,addOnce slots.2 symbol)
  else slots

theorem tables_eq (arena : Arena) (sections : List SectionId) :
    tables arena sections = (sections.flatMap arena.relocations).foldl (enter arena) ([],[]) := rfl

theorem call_usesGot {rel : Relocation} (call : rel.type = plt32.code) : relocUsesGot rel.type = false := by
  rw [call]
  rfl

open Classical in
/-- A relocation enters its symbol in the tables that it needs. -/
theorem enter_eq (slots : List Nat × List Nat) (rel : Relocation) : enter arena slots rel =
    (if NeedsEntry arena rel then addOnce slots.1 rel.symbol.toNat else slots.1,
      if NeedsSlot arena rel then addOnce slots.2 rel.symbol.toNat else slots.2) := by
  by_cases got : relocUsesGot rel.type = true
  · have other : rel.type ≠ plt32.code := fun call => by simp [call_usesGot call] at got
    simp [enter,NeedsEntry,NeedsSlot,got,other]
  · have call : (rel.type == plt32.code &&
        (arena.symbol arena.symtab rel.symbol.toNat).index == abs) = true ↔ NeedsSlot arena rel := by
      simp [NeedsSlot]
    simp only [enter,NeedsEntry,got,call,Bool.false_eq_true,false_or,if_false]
    split <;> rfl

theorem fold_spec (rels : List Relocation) (slots : List Nat × List Nat) (distinct : slots.1.Nodup ∧ slots.2.Nodup) :
    ((rels.foldl (enter arena) slots).1.Nodup ∧ (rels.foldl (enter arena) slots).2.Nodup) ∧
    (∀ symbol, symbol ∈ (rels.foldl (enter arena) slots).1 ↔
      symbol ∈ slots.1 ∨ ∃ rel ∈ rels, NeedsEntry arena rel ∧ rel.symbol.toNat = symbol) ∧
    (∀ symbol, symbol ∈ (rels.foldl (enter arena) slots).2 ↔
      symbol ∈ slots.2 ∨ ∃ rel ∈ rels, NeedsSlot arena rel ∧ rel.symbol.toNat = symbol) := by
  classical
  -- one relocation and one of the tables
  have entered {P : Prop} {table : List Nat} {own : Nat} (once : table.Nodup) :
      (if P then addOnce table own else table).Nodup ∧
        ∀ symbol, symbol ∈ (if P then addOnce table own else table) ↔ symbol ∈ table ∨ P ∧ own = symbol := by
    split <;> simp [nodup_addOnce,mem_addOnce,eq_comm, *]
  induction rels generalizing slots with
  | nil => simp [distinct]
  | cons rel rest ih =>
    obtain ⟨once,entries⟩ := entered distinct.1
    obtain ⟨once',jumps⟩ := entered distinct.2
    obtain ⟨nodup,later,later'⟩ := ih (enter arena slots rel) (by rw [enter_eq]; exact ⟨once,once'⟩)
    refine ⟨nodup,fun symbol => ?_,fun symbol => ?_⟩
    · rw [foldl_cons,later,enter_eq,entries]
      simp [or_assoc]
    · rw [foldl_cons,later',enter_eq,jumps]
      simp [or_assoc]

/-- Exactly the symbols that relocations need are in the tables, each once. -/
theorem tables_spec (arena : Arena) (sections : List SectionId) :
    ((tables arena sections).1.Nodup ∧ (tables arena sections).2.Nodup) ∧
    (∀ symbol, symbol ∈ (tables arena sections).1 ↔ ∃ id ∈ sections, ∃ rel ∈ arena.relocations id,
      NeedsEntry arena rel ∧ rel.symbol.toNat = symbol) ∧
    (∀ symbol, symbol ∈ (tables arena sections).2 ↔ ∃ id ∈ sections, ∃ rel ∈ arena.relocations id,
      NeedsSlot arena rel ∧ rel.symbol.toNat = symbol) := by
  have spec := @fold_spec arena (sections.flatMap arena.relocations) ([],[]) (by simp)
  have regroup (P : Relocation → Prop) : (∃ rel ∈ sections.flatMap arena.relocations, P rel) ↔
      ∃ id ∈ sections, ∃ rel ∈ arena.relocations id, P rel := by
    simp only [mem_flatMap]
    exact ⟨fun ⟨rel,⟨id,member,inside⟩,needs⟩ => ⟨id,member,rel,inside,needs⟩,
      fun ⟨id,member,rel,inside,needs⟩ => ⟨rel,⟨id,member,inside⟩,needs⟩⟩
  simpa only [← tables_eq,not_mem_nil,false_or,regroup] using spec

/-- The tables are no longer than there are symbols that relocations name. -/
theorem tables_length {bound : Nat} (arena : Arena) (sections : List SectionId)
    (targets : ∀ id ∈ sections, ∀ rel ∈ arena.relocations id, rel.symbol.toNat < bound) :
    (tables arena sections).1.length ≤ bound ∧ (tables arena sections).2.length ≤ bound := by
  obtain ⟨⟨once,once'⟩,entries,jumps⟩ := tables_spec arena sections
  have short {table : List Nat} (distinct : table.Nodup) (below : ∀ n ∈ table, n < bound) : table.length ≤ bound := by
    have subset : table ⊆ range bound := fun n member => mem_range.mpr (below n member)
    simpa using distinct.length_le_of_subset subset
  refine ⟨short once fun symbol member => ?_,short once' fun symbol member => ?_⟩
  · obtain ⟨id,inside,rel,listed,_,rfl⟩ := (entries symbol).mp member
    exact targets id inside rel listed
  · obtain ⟨id,inside,rel,listed,_,rfl⟩ := (jumps symbol).mp member
    exact targets id inside rel listed

end OnePass.Link
