import OnePass.Compile.Unit
import OnePass.Proofs.SymbolRecords

/-! # What a compilation keeps in store

As long as no entity asks for a section of the symbol table, everything that a compilation does to its arena
can be noted in a ledger. -/
namespace OnePass

open Elf List Scope String

variable {id : EntityId}

/-! ## Names without a zero -/

theorem Utf8.zero_mem_encodeChar (zero : 0 ∈ utf8EncodeChar c) : c = '\x00' := by
  by_cases small : c.toNat < 0x80
  · rw [encode_ascii small,mem_singleton] at zero
    have same := congrArg UInt8.toNat zero
    rw [toNat_ofNat_of_lt (by omega)] at same
    exact Char.ext (UInt32.toNat_inj.mp same.symm)
  · exact absurd ((encode_high (Nat.le_of_not_lt small)).2 0 zero) (by decide)

theorem zero_mem_ofString : 0 ∈ Bytes.ofString text ↔ '\x00' ∈ text.toList := by
  rw [Utf8.ofString_eq,mem_flatMap]
  constructor
  · rintro ⟨c,member,zero⟩
    exact Utf8.zero_mem_encodeChar zero ▸ member
  · exact fun member => ⟨_,member,by decide⟩

namespace Compile

theorem digits_free (n : Nat) : '\x00' ∉ (toString n).toList := by
  intro member
  have digits : (toString n).toList = Nat.toDigits 10 n := toList_ofList
  rw [digits] at member
  exact absurd (Nat.isDigit_of_mem_toDigits (by decide) (by decide) member) (by decide)

theorem externalName_free {settings : Settings} {structs : Array StructDef}
    (name : '\x00' ∉ e.name.text.toList) (label : ∀ label ∈ e.asmLabel, '\x00' ∉ label.toList) :
    0 ∉ Bytes.ofString (externalName settings structs e) := by
  rw [zero_mem_ofString]
  have function : '\x00' ∉ (functionName settings structs e).toList := by
    unfold functionName
    extract_lets plain
    split
    · rename_i checked _ _ _ _ _ _
      have free : '\x00' ∉ checked.toList := by
        dsimp only [checked]
        split
        · simpa using name
        · exact name
      split
      · simp only [toList_append,mem_append,not_or]
        exact ⟨⟨free,by decide⟩,digits_free _⟩
      · exact free
    · exact name
  unfold externalName
  split
  · next found => exact label _ found
  · split
    · exact name
    · extract_lets decorated
      split
      · simpa using function
      · exact function

end Compile

/-! ## Entities -/

namespace Entity

/-- The section that the entity asks for is settled: it is an object, or a function that is defined. -/
def Lasting (e : Entity) : Prop := e.flags.defined = true ∨ e.type.isFunc = false

instance (e : Entity) : Decidable e.Lasting := inferInstanceAs (Decidable (_ ∨ _))

structure Kept (e e' : Entity) : Prop where
  name : e'.name = e.name
  bound : e.symbol ≠ 0 → e'.symbol = e.symbol ∧ e'.asmLabel = e.asmLabel
  lasting : e.Lasting → e'.section_ = e.section_ ∧ e'.Lasting

@[grind ←] theorem Kept.of_eq (name : e'.name = e.name) (symbol : e'.symbol = e.symbol)
    (label : e'.asmLabel = e.asmLabel) (asks : e'.section_ = e.section_) (type : e'.type = e.type)
    (defined : e'.flags.defined = e.flags.defined) : Kept e e' :=
  ⟨name,fun _ => ⟨symbol,label⟩,fun lasting => ⟨asks,by rwa [Lasting,defined,type]⟩⟩

theorem Kept.refl (e : Entity) : Kept e e := .of_eq rfl rfl rfl rfl rfl rfl

/-- The entity asks for none of the sections, and no zero is in the name of its symbol. -/
structure Tame (tables : List SectionId) (e : Entity) : Prop where
  aside : e.Lasting → ∀ sec ∈ e.section_, sec ∉ tables
  spelled : e.symbol ≠ 0 → '\x00' ∉ e.name.text.toList ∧ ∀ label ∈ e.asmLabel, '\x00' ∉ label.toList

theorem tame_iff : Tame tables e ↔ (e.Lasting → ∀ sec ∈ e.section_, sec ∉ tables) ∧
      (e.symbol ≠ 0 → '\x00' ∉ e.name.text.toList ∧ ∀ label ∈ e.asmLabel, '\x00' ∉ label.toList) :=
  ⟨fun tame => ⟨tame.aside,tame.spelled⟩,fun ⟨aside,spelled⟩ => ⟨aside,spelled⟩⟩

instance (tables : List SectionId) (e : Entity) : Decidable (Tame tables e) := decidable_of_iff' _ tame_iff

theorem Kept.tame (kept : Kept e e') (tame : Tame tables e') : Tame tables e where
  aside lasting sec member := by
    obtain ⟨same,lasting'⟩ := kept.lasting lasting
    exact tame.aside lasting' sec (same ▸ member)
  spelled some := by
    obtain ⟨symbol,label⟩ := kept.bound some
    have spelled := tame.spelled (symbol ▸ some)
    rwa [kept.name,label] at spelled

theorem tame_default (tables : List SectionId) : Tame tables default where
  aside _ _ member := nomatch member
  spelled some := absurd rfl some

end Entity

/-! ## Scopes -/

namespace Scope

variable {s t u : Scope}

theorem get_outside (outside : s.entities.size ≤ id) : s.get id = default := by
  rw [get,Array.getElem?_eq_none outside,Option.getD_none]

structure Extends (s t : Scope) : Prop where
  size : s.entities.size ≤ t.entities.size
  kept : ∀ id < s.entities.size, (s.get id).Kept (t.get id)

theorem Extends.lasting (ext : Extends s t) (there : id < s.entities.size ∧ (s.get id).Lasting) :
    id < t.entities.size ∧ (t.get id).Lasting :=
  ⟨Nat.lt_of_lt_of_le there.1 ext.size,((ext.kept id there.1).lasting there.2).2⟩

def Tame (tables : List SectionId) (s : Scope) : Prop := ∀ e ∈ s.entities.toList, e.Tame tables

instance (tables : List SectionId) (s : Scope) : Decidable (s.Tame tables) :=
  inferInstanceAs (Decidable (∀ e ∈ s.entities.toList, e.Tame tables))

theorem Tame.get (tame : s.Tame tables) (id : EntityId) : (s.get id).Tame tables := by
  by_cases inside : id < s.entities.size
  · rw [Scope.get,Array.getElem?_eq_getElem inside]
    exact tame _ (Array.getElem_mem_toList inside)
  · rw [get_outside (Nat.le_of_not_lt inside)]
    exact Entity.tame_default tables

theorem Extends.tame (ext : Extends s t) (tame : t.Tame tables) : s.Tame tables := by
  intro e member
  obtain ⟨id,inside,rfl⟩ := mem_iff_getElem.mp member
  have same : s.get id = s.entities.toList[id] := by
    rw [get,Array.getElem?_eq_getElem inside,Option.getD_some,Array.getElem_toList]
  exact same ▸ (ext.kept id inside).tame (tame.get id)

/-- Entities are kept, and none has got a symbol. -/
structure Declares (s t : Scope) : Prop extends Extends s t where
  symbols : ∀ id, (t.get id).symbol ≠ 0 → (s.get id).symbol = (t.get id).symbol

namespace Declares

theorem of_entities (same : t.entities = s.entities) : Declares s t := by
  have get id : t.get id = s.get id := by rw [get,get,same]
  exact ⟨⟨Nat.le_of_eq (by rw [same]),fun id _ => get id ▸ .refl _⟩,fun id _ => by rw [get]⟩

theorem refl (s : Scope) : Declares s s := of_entities rfl

theorem of_push (unbound : e.symbol = 0) (pushed : t.entities = s.entities.push e) : Declares s t := by
  have get id : t.get id = if id = s.entities.size then e else s.get id := by
    rw [get,pushed,Array.getElem?_push]
    split
    · rfl
    · rfl
  refine ⟨⟨by simp [pushed],fun id below => ?_⟩,fun id some => ?_⟩
  · rw [get,if_neg (Nat.ne_of_lt below)]
    exact .refl _
  · rw [get] at some ⊢
    split at some
    · exact absurd unbound some
    · next old => rw [if_neg old]

end Declares

theorem get_update (id other : EntityId) :
    (s.update id f).get other = if other = id ∧ id < s.entities.size then f (s.get id) else s.get other := by
  simp only [get,update,Array.getElem?_modify]
  by_cases same : id = other
  · subst same
    by_cases inside : id < s.entities.size <;> simp [inside]
  · simp [same,Ne.symm same]

theorem Extends.update (kept : (s.get id).Kept (f (s.get id))) : Extends s (s.update id f) := by
  refine ⟨by simp [Scope.update],fun other below => ?_⟩
  rw [get_update]
  split
  · next same => exact same.1 ▸ kept
  · exact .refl _

theorem Declares.update (kept : (s.get id).Kept (f (s.get id)))
    (symbol : (f (s.get id)).symbol = (s.get id).symbol) : Declares s (s.update id f) := by
  refine ⟨.update kept,fun other some => ?_⟩
  rw [get_update]
  split
  · next same => rw [same.1,symbol]
  · rfl

theorem Tame.free (tame : (s.update id ({ · with symbol })).Tame tables) (some : symbol ≠ 0) (settings : Settings) :
    0 ∉ Bytes.ofString (Compile.externalName settings s.structs (s.get id)) := by
  by_cases inside : id < s.entities.size
  · have spelled := (tame.get id).spelled
    simp only [get_update,inside,and_self,if_true] at spelled
    exact Compile.externalName_free (spelled some).1 (spelled some).2
  · rw [get_outside (Nat.le_of_not_lt inside)]
    exact Compile.externalName_free (by decide) fun _ label => nomatch label

theorem get_pushed (pushed : t.entities = s.entities.push e) : t.get s.entities.size = e := by
  simp [get,pushed]

/-! What leaves a block or a function forgets bindings and no entities. -/

theorem setBindings_entities (s : Scope) (ns : Namespace) (bindings : List (Name × EntityId)) :
    (s.setBindings ns bindings).entities = s.entities := by
  cases ns <;> rfl

theorem unbindAll_entities (s : Scope) (bound : List (Namespace × EntityId)) :
    (s.unbindAll bound).entities = s.entities := by
  induction bound generalizing s with
  | nil => rfl
  | cons first rest ih =>
    refine (ih _).trans ?_
    unfold unbind
    simp only
    split
    · exact setBindings_entities _ _ _
    · rfl

theorem bindAt_entities (s : Scope) (ns : Namespace) (e : Entity) (depth : Nat) :
    (s.bindAt ns e depth).2.entities = s.entities.push { e with depth, hides := s.find? ns e.name } :=
  setBindings_entities _ _ _

theorem push_entities (s : Scope) (ns : Namespace) (e : Entity) :
    (s.push ns e).2.entities = s.entities.push { e with depth := s.depth, hides := s.find? ns e.name } := by
  have bound := s.bindAt_entities ns e s.depth
  unfold push
  cases ns with
  | label => exact bound
  | ident | tag =>
    simp only
    split <;> exact bound

theorem push_id (s : Scope) (ns : Namespace) (e : Entity) : (s.push ns e).1 = s.entities.size := by
  unfold push
  cases ns with
  | label => rfl
  | ident | tag =>
    simp only
    split
    · rfl
    · rfl

theorem pushGlobal_entities (s : Scope) (ns : Namespace) (e : Entity) :
    (s.pushGlobal ns e).2.entities = s.entities.push { e with depth := 0, hides := s.find? ns e.name } :=
  s.bindAt_entities ns e 0

theorem pushGlobal_id (s : Scope) (ns : Namespace) (e : Entity) : (s.pushGlobal ns e).1 = s.entities.size := rfl

theorem Declares.alloc (s : Scope) (unbound : e.symbol = 0) : Declares s (s.alloc e).2 :=
  .of_push (e := { e with depth := s.depth }) unbound rfl

theorem Declares.push (s : Scope) (ns : Namespace) (unbound : e.symbol = 0) : Declares s (s.push ns e).2 :=
  .of_push (e := { e with depth := s.depth, hides := s.find? ns e.name }) unbound (s.push_entities ns e)

theorem Declares.pushGlobal (s : Scope) (ns : Namespace) (unbound : e.symbol = 0) : Declares s (s.pushGlobal ns e).2 :=
  .of_push (e := { e with depth := 0, hides := s.find? ns e.name }) unbound (s.pushGlobal_entities ns e)

end Scope

/-! ## Holdings -/

/-- The part of a compiler's state that says where things are stored. -/
structure Holdings where
  arena : Arena
  scope : Scope
  text : SectionId
  deferred : Array DeferredFunction

/-- The ledger goes along with the holdings: it notes the symbols of all entities, and code and data without a
section of their own are kept away from the tables. -/
structure Holdings.Books (tables : List SectionId) (h : Holdings) (l : Ledger) : Prop where
  arena : l.arena = h.arena
  rooted : l.Rooted tables
  text : h.text ∉ tables
  roots : h.arena.text ∉ tables ∧ h.arena.data ∉ tables ∧ h.arena.bss ∉ tables
  bound : ∀ id, (h.scope.get id).symbol ≠ 0 → (h.scope.get id).symbol ∈ l.given

namespace Elf.Arena

theorem create_roots (arena : Arena) (name : String) (type flags : UInt32) :
    (arena.create name type flags).2.text = arena.text ∧ (arena.create name type flags).2.data = arena.data ∧
      (arena.create name type flags).2.bss = arena.bss := by
  unfold create
  extract_lets id sec
  split <;> exact ⟨rfl,rfl,rfl⟩

theorem putRelocation_roots (arena : Arena) (symtab target : SectionId) (rel : Relocation) :
    (arena.putRelocation symtab target rel).text = arena.text ∧ (arena.putRelocation symtab target rel).data = arena.data ∧
      (arena.putRelocation symtab target rel).bss = arena.bss := by
  unfold putRelocation relocSection
  cases (arena.get target).reloc with
  | some rela => exact ⟨rfl,rfl,rfl⟩
  | none =>
    have roots := create_roots arena (".rela" ++ (arena.get target).name) SectionType.rela
      ((arena.get symtab).flags &&& SectionFlag.unlisted)
    dsimp only
    generalize arena.create _ _ _ = made at roots ⊢
    exact roots

end Elf.Arena

@[grind] def Compiler.holdings (s : Compiler) : Holdings := ⟨s.arena,s.scope,s.text,s.deferred⟩

end OnePass
