import OnePass.Proofs.Alignment
import OnePass.Proofs.OperandsBalance

/-! # The truth of addresses

The address of an object or a function is taken for true where it is a condition. In an image the address of
a weak symbol that nobody defines is zero: there the compiler and the program think differently. -/
namespace OnePass

open Elf SectionIndex Value Link

/-! ## Folding -/

namespace Compile

/-- In a state whose latest operand is a condition, whatever uses it takes it for `truth` and goes on without it. -/
structure FoldsTo (truth : Bool) (env : Env) (s without : Compiler) : Prop where
  /-- The conditions of statements, and of operators whose operands are not constant. -/
  jumps : ∀ wanted, branch wanted env s = (if truth == wanted then jump else pure none) env without
  negation : unary .logNot env s = pushConst .plainInt (if truth then 0 else 1) env without
  /-- Operands of `&&` and `||`. -/
  chain : ∀ isAnd (c : Chain), c.decided = false →
    takeIntoChain isAnd c env s = .ok { c with decided := truth != isAnd } without
  conditional : ∀ t u, logicalOr env t = .ok ⟨⟩ u → accept .question env u = .ok true s →
    readConditional env t = decidedConditional truth env without

section Operands

variable {env : Env}

theorem top_run (values : s.values = v :: rest) : top env s = .ok v s := by
  simp [top,run_bind,values]

theorem rvalue_run (values : s.values = v :: rest) : rvalue env s = .ok ⟨⟩ { s with values := v.decayed :: rest } := by
  simp [rvalue,modifyTop,values]

theorem pop_run (values : s.values = v :: rest) (place : v.place ≠ .spilled) :
    pop env s = .ok ⟨⟩ { s with values := rest } := by
  simp [pop,forget,run_bind,top_run values,values,place]

theorem scalar_not_float {ty : CType} (scalar : ty.isScalar = true) : ty.isFloat = false := by
  cases ty with
  | float rank q => cases scalar
  | _ => rfl

theorem foldsTo_true {entity : EntityId} (values : s.values = v :: rest)
    (place : v.place = .symbol entity addend) (address : v.decayed.lvalue = false)
    (scalar : v.decayed.type.isScalar = true) : FoldsTo true env s { s with values := rest } := by
  have decayedPlace : v.decayed.place = .symbol entity addend := by
    unfold decayed
    split <;> exact place
  have truth : v.decayed.truth? = some true := by
    simp [truth?,const?,isSymbolAddress,decayedPlace,address]
  have other : v.decayed.place ≠ .spilled := by simp [decayedPlace]
  have read : top env { s with values := v.decayed :: rest } = .ok v.decayed { s with values := v.decayed :: rest } :=
    top_run rfl
  have dropped : pop env { s with values := v.decayed :: rest } = .ok ⟨⟩ { s with values := rest } := pop_run rfl other
  constructor
  case jumps =>
    intro wanted
    simp only [branch,run_bind,rvalue_run values,read,scalar,Bool.not_true,Bool.false_eq_true,if_false,truth,dropped]
  case negation =>
    have known : v.decayed.const? = none ∧ v.decayed.isSymbolAddress = true := by
      simp [const?,isSymbolAddress,decayedPlace,address]
    simp only [unary,logicalNot,run_bind,rvalue_run values,read,scalar_not_float scalar,scalar,Bool.not_true,
      Bool.false_eq_true,if_false,beq_self_eq_true,if_true,known.1,known.2,dropped]
  case chain =>
    intro isAnd c open_
    simp only [takeIntoChain,run_bind,rvalue_run values,open_,Bool.false_eq_true,if_false,read,truth,dropped]
    rfl
  case conditional =>
    intro t u left question
    simp only [readConditional,run_bind,left,question,if_true,rvalue_run values,read,truth,dropped]

end Operands

end Compile

/-! ## Addresses in an image -/

namespace Link

/-- A section lies in the image from some offset on, and it did not get smaller. -/
theorem relocate_room (linkable : Linkable before)
    (run : relocateIn memory base lookup before = .ok image after) (member : sec ∈ before.allocated) :
    ∃ offset, (after.get sec).address = base + offset ∧ offset.toNat + (after.get sec).size ≤ image.size ∧
      (before.get sec).size ≤ (after.get sec).size := by
  obtain ⟨middle,arena,-,commons,resolved,rfl,size⟩ := relocate_opened linkable.toSound run
  have kept := commons.kept.trans resolved.kept
  have arranged := linkable.arranged commons resolved
  have member' : sec ∈ arena.allocated := by rwa [Arena.allocated_congr kept.listed kept.flags]
  have firsts := map_fst_spots arena
  obtain ⟨⟨_,offset⟩,spot,rfl⟩ : ∃ p ∈ spots arena, p.1 = sec := List.mem_map.mp (firsts ▸ member')
  have inside := (arranged.laid.inside _ spot).2
  have behind := arranged.behind
  have between := arranged.between
  have whole := arranged.whole
  rw [place_get base arena (spots arena) _ offset
    (firsts ▸ Arena.allocated_nodup (kept.sound linkable.toSound).distinct) (Arena.allocated_bound member') spot]
  simp only at inside ⊢
  exact ⟨offset,rfl,by omega,kept.longer _⟩

theorem address_ne_zero (linkable : Linkable before)
    (positive : 0 < base.toNat) (room : base.toNat + image.size < 2 ^ 64)
    (run : relocateIn memory base lookup before = .ok image after) (member : sec ∈ before.allocated)
    (inside : value.toNat ≤ (after.get sec).size) : (after.get sec).address + value ≠ 0 := by
  obtain ⟨offset,address,fits,-⟩ := relocate_room linkable run member
  intro zero
  have sum := congrArg UInt64.toNat zero
  rw [address,UInt64.toNat_add,UInt64.toNat_add,Nat.mod_eq_of_lt (by omega : base.toNat + offset.toNat < 2 ^ 64),
    Nat.mod_eq_of_lt (by omega)] at sum
  simp at sum
  omega

/-- A symbol that is undefined, or defined in the image. -/
def Regular (arena : Arena) (i : Nat) : Prop :=
  let sym := arena.symbol arena.symtab i
  sym.index = undef ∨ sym.index = common ∨ ∃ sec ∈ arena.allocated,
    sym.index < reserved ∧ sym.index.toNat = (arena.get sec).number ∧ sym.value.toNat ≤ (arena.get sec).size

/-- An undefined symbol that the link passes over or finds at address zero. -/
def ReadsZero (lookup : String → Option UInt64) (arena : Arena) (i : Nat) : Prop :=
  PassedOver lookup arena i ∨ (arena.symbol arena.symtab i).index = undef ∧
    (arena.symbol arena.symtab i).isLocal = false ∧ lookup (arena.symbolName arena.symtab i) = some 0

theorem ReadsZero.undefined (zero : ReadsZero lookup before i) :
    (before.symbol before.symtab i).index = undef := zero.elim And.left And.left

theorem undefinedAddress_eq_zero_iff (sound : before.Sound) (run : relocateIn memory base lookup before = .ok image after)
    (member : i ∈ symbolIndexes before) (undefined : (before.symbol before.symtab i).index = undef) :
    symbolAddress after i = 0 ↔ ReadsZero lookup before i := by
  obtain ⟨symtab,arena,final,same⟩ := relocate_finalRecord sound member run
  have other : (before.symbol before.symtab i).index ≠ common := by
    rw [undefined]
    decide
  simp only [FinalRecord,if_neg other] at final
  cases own : (before.symbol before.symtab i).isLocal with
  | true =>
    rw [if_neg (by simp [own])] at final
    exact ⟨fun _ => .inl ⟨undefined,.inl own⟩,fun _ => by simp [symbolAddress,symtab,same,final,undefined]⟩
  | false =>
    rw [if_pos ⟨undefined,own⟩] at final
    cases found : lookup (before.symbolName before.symtab i) with
    | some address =>
      rw [found] at final
      have value : symbolAddress after i = address := by
        simp [symbolAddress,symtab,same,final,SectionIndex.abs,undef]
      rw [value]
      refine ⟨fun zero => .inr ⟨undefined,own,by rw [found,zero]⟩,?_⟩
      rintro (⟨-,local_ | ⟨-,none⟩⟩ | ⟨-,-,zero⟩)
      · rw [own] at local_
        cases local_
      · rw [found] at none
        cases none
      · exact Option.some.inj (found.symm.trans zero)
    | none =>
      rw [found] at final
      exact ⟨fun _ => .inl ⟨undefined,.inr ⟨final.1,found⟩⟩,fun _ => by simp [symbolAddress,symtab,same,final.2,undefined]⟩

/-- A symbol of an image has address zero exactly when it is undefined and is not found, or found there. -/
theorem symbolAddress_eq_zero_iff (standing : before.Standing) (linkable : Linkable before)
    (positive : 0 < base.toNat) (room : base.toNat + image.size < 2 ^ 64)
    (run : relocateIn memory base lookup before = .ok image after) (member : i ∈ symbolIndexes before)
    (regular : Regular before i) : symbolAddress after i = 0 ↔ ReadsZero lookup before i := by
  rcases regular with undefined | tentative | ⟨sec,inImage,ordinary,number,inside⟩
  · exact undefinedAddress_eq_zero_iff standing.toSound run member undefined
  · obtain ⟨address,inside⟩ := relocate_commonAddress standing run member tentative
    rw [address]
    refine ⟨fun zero => absurd zero (address_ne_zero linkable positive room run standing.inImage inside),fun zero => ?_⟩
    exact absurd (tentative.symm.trans zero.undefined) (by decide)
  · rw [relocate_symbolAddress standing run member inImage number ordinary]
    obtain ⟨-,-,-,grown⟩ := relocate_room linkable run inImage
    refine ⟨fun zero => absurd zero (address_ne_zero linkable positive room run inImage (Nat.le_trans inside grown)),
      fun zero => ?_⟩
    have := number_pos standing.numbered inImage
    rw [← number,zero.undefined] at this
    exact absurd this (by decide)

end Link

namespace Compile

/-- Wherever the address of an entity is a condition, the compiler takes it for true. In an image of accepted
units that is the truth of its address exactly when the symbol is none that reads as zero. -/
theorem folded_address_truth (session : Session) (base : UInt64) (lookup : String → Option UInt64) (image : Image)
    (after : Arena) (accepted : session.Accepted) (linkable : Linkable session.arena) (positive : 0 < base.toNat)
    (room : base.toNat + image.size < 2 ^ 64) (linked : relocateIn memory base lookup session.arena = .ok image after)
    (entity : EntityId) :
    (∀ env s v rest, s.values = v :: rest → v.place = .symbol entity 0 → v.decayed.lvalue = false →
      v.decayed.type.isScalar = true → FoldsTo true env s { s with values := rest }) ∧
    ∀ s : Compiler, (s.scope.get entity).symbol ∈ symbolIndexes session.arena →
      Regular session.arena (s.scope.get entity).symbol →
      (true = decide (symbolAddress after (s.scope.get entity).symbol ≠ 0) ↔
        ¬ReadsZero lookup session.arena (s.scope.get entity).symbol) := by
  refine ⟨fun env s v rest values place address scalar => foldsTo_true values place address scalar,
    fun s member regular => ?_⟩
  have zero := symbolAddress_eq_zero_iff accepted.develops.standing linkable positive room linked member regular
  rw [← zero,eq_comm,decide_eq_true_iff]

def asking : Session :=
  match Session.compileText "int x = 1; int *p = &x;" { fuel := 1000, base := 0x400000 } {} with
  | .ok _ s => s
  | .error _ s => s

/-- The address of the object as a condition; the object has the second symbol. -/
def addressHeld : Compiler :=
  { opened "" with
    scope := { entities := #[{ (default : Entity) with symbol := 2 }] }
    values := [{ type := CType.plainInt.pointerTo, place := .symbol 0 0 }] }

theorem folded_address_truth_asking : ∃ image after,
    relocate 0x400000 (fun _ => none) asking.arena = .ok image after ∧
    asking.arena.symbolName asking.arena.symtab 2 = "x" ∧
    FoldsTo true (env { fuel := 200 } {}) addressHeld { addressHeld with values := [] } ∧
    symbolAddress after 2 ≠ 0 := by
  have facts : (succeeds (fun _ => true) (Session.compileText "int x = 1; int *p = &x;"
        { fuel := 1000, base := 0x400000 } {}) = true ∧
      succeeds (fun image => decide ((0x400000 : UInt64).toNat + image.size < 2 ^ 64))
        (relocate 0x400000 (fun _ => none) asking.arena) = true) ∧
      asking.arena.symbolName asking.arena.symtab 2 = "x" ∧ Linkable asking.arena ∧
      2 ∈ symbolIndexes asking.arena ∧ 2 ∈ asking.arena.allocated ∧
      (asking.arena.symbol asking.arena.symtab 2).index < SectionIndex.reserved ∧
      (asking.arena.symbol asking.arena.symtab 2).index.toNat = (asking.arena.get 2).number ∧
      (asking.arena.symbol asking.arena.symtab 2).value.toNat ≤ (asking.arena.get 2).size ∧
      (asking.arena.symbol asking.arena.symtab 2).index ≠ SectionIndex.undef := by decide +kernel
  obtain ⟨⟨accepts,links⟩,name,linkable,member,inImage,ordinary,number,inside,defined⟩ := facts
  obtain ⟨_,s,compiled,-⟩ := succeeds_iff.mp accepts
  obtain ⟨image,after,linked,room⟩ := succeeds_iff.mp links
  have session : asking = s := by simp only [asking,compiled]
  obtain ⟨folds,agrees⟩ := folded_address_truth asking 0x400000 (fun _ => none) image after
    (session ▸ .unit (.fresh rfl) compiled) linkable (by decide) (of_decide_eq_true room) linked 0
  refine ⟨image,after,linked,name,folds _ addressHeld _ [] rfl rfl rfl rfl,?_⟩
  exact of_decide_eq_true ((agrees addressHeld member (.inr (.inr ⟨2,inImage,ordinary,number,inside⟩))).mpr
    fun zero => defined zero.undefined).symm

def linkedBytes (text : String) (count : Nat) : Option (List UInt8) :=
  match Session.compileText text { fuel := 1000, base := 0x400000 } {} with
  | .ok _ s =>
    match relocate 0x400000 (fun _ => none) s.arena with
    | .ok image _ => some (image.bytes.toList.take count)
    | .error _ _ => none
  | .error _ _ => none

/-- The address of a weak symbol that nobody defines is zero where it is stored, and taken for true where it is
a condition. -/
theorem weak_address_taken_for_true :
    linkedBytes "extern int w __attribute__((weak)); int *p = &w; int t = &w ? 1 : 2;" 12 =
      some [0,0,0,0,0,0,0,0,1,0,0,0] := by
  decide +kernel

end Compile
end OnePass
