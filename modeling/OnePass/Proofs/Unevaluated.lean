import OnePass.Proofs.OperandsBalance
import OnePass.Session

/-! # Operands that are not evaluated

The operand of `sizeof`, `_Alignof` or `typeof` is read for its type. No code is emitted for it, no string is
stored and nothing is relocated. What it loads is still looked up, so an object that has no symbol yet is
entered as undefined. -/
namespace OnePass

open Elf

/-- What an operand that is not evaluated does to the sections. -/
structure Unevaluated (before after : Arena) : Prop where
  /-- Sections other than those of the symbol table are as they were. -/
  framed : Arena.Framed before.tables before after
  relocations : ∀ id, (∀ rela ∈ (before.get id).reloc, rela ∉ before.tables) →
    after.relocations id = before.relocations id
  /-- Symbols are at most referred to. -/
  noted : before.Plain → Arena.Noted before after
  /-- Unless a symbol is undefined in the end, nothing changed. -/
  unchanged : ∀ strings hash, Arena.Tabled before before.symtab strings hash →
    (∀ i, 0 < i → i < after.symbolCount before.symtab → (after.symbol before.symtab i).index ≠ SectionIndex.undef) →
    after = before

theorem Elf.Arena.Refers.unevaluated (refers : Arena.Refers before after) : Unevaluated before after where
  framed := refers.framed
  relocations id apart := by
    have framed := refers.framed
    exact Arena.relocations_congr (framed.rewritten id).reloc fun rela found => framed.others rela (apart rela found)
  noted plain := (refers.noted plain).2
  unchanged strings hash tabled defined := by
    rcases refers.unchanged_or tabled with same | ⟨i,positive,below,absent⟩
    · exact same
    · exact absurd absent (defined i positive below)

namespace Compile

theorem withoutData_refers {env : Env} (sound : env.Sound) {act : CompileM α} (uses : Uses 0 n act)
    {s s' : Compiler} {a : α} (run : withoutData act env s = .ok a s') : s.arena.Refers s'.arena := by
  obtain ⟨t,ran,rfl⟩ := withoutData_run run
  exact (uses.run sound (.none _) ran).unevaluated rfl rfl

/-- Reading an operand without evaluating it leaves the contents, sizes and relocations of all sections alone,
and changes the symbol table only by references: whatever can be read as an expression, the operands of
`sizeof`, `_Alignof` and `typeof`, and constants. -/
theorem unevaluated_operands (host : Host) (settings : Settings) : (∀ least, ∀ read ∈ expressionReaders least,
      Relates (env host settings) (fun s s' => Unevaluated s.arena s'.arena) (withoutData read)) ∧
    Relates (env host settings) (fun s s' => Unevaluated s.arena s'.arena) sizeOperand ∧
    Relates (env host settings) (fun s s' => Unevaluated s.arena s'.arena) typeofSpecifier ∧
    Relates (env host settings) (fun s s' => Unevaluated s.arena s'.arena) constant := by
  have sound := env_sound host settings
  refine ⟨fun least read member _ _ _ run => ?_,fun _ _ _ run => ?_,fun _ _ _ run => ?_,fun _ _ _ run => ?_⟩
  · exact (withoutData_refers sound (expressionReaders_uses member) run).unevaluated
  · exact ((sizeOperand_keeps (R := Referring)).run sound run).refers.unevaluated
  · exact ((typeofSpecifier_keeps (R := Referring)).run sound run).refers.unevaluated
  · exact ((constant_keeps (R := Referring)).run sound run).refers.unevaluated

/-- The operand of a `sizeof` that calls a function with a string, at its first token. -/
def sizedCall : Compiler :=
  match next (env { fuel := 200 } {}) (opened "(f(\"abc\") + 1)") with
  | .ok _ s => s
  | .error _ s => s

theorem unevaluated_operands_sizedCall : ∃ type s, sizeOperand (env { fuel := 200 } {}) sizedCall = .ok type s ∧
    s.arena.get s.arena.data = sizedCall.arena.get sizedCall.arena.data := by
  have accepted : (match sizeOperand (env { fuel := 200 } {}) sizedCall with
      | .ok _ _ => true
      | .error _ _ => false) = true := by decide +kernel
  cases run : sizeOperand (env { fuel := 200 } {}) sizedCall with
  | error e s => simp [run] at accepted
  | ok type s =>
    obtain ⟨-,sized,-⟩ := unevaluated_operands { fuel := 200 } {}
    have framed := (sized _ _ _ run).framed
    have data : s.arena.data = sizedCall.arena.data := by rw [framed.shell]
    refine ⟨type,s,rfl,?_⟩
    rw [data]
    exact framed.others _ (by decide +kernel)

def symbolsOf (text : String) : Option (List (String × UInt16)) :=
  match Session.compileText text { fuel := 1000, base := 0x400000 } {} with
  | .ok _ s => some ((List.range (s.arena.symbolCount s.arena.symtab)).map fun i =>
      (s.arena.symbolName s.arena.symtab i,(s.arena.symbol s.arena.symtab i).index))
  | .error _ _ => none

/-- An operand that is only sized leaves an undefined symbol behind if it loads an object, and none if it
does not. -/
theorem sized_operand_referred :
    symbolsOf "extern int x; unsigned long n = sizeof x;" = some [("",0),("<string>",65521),("n",2)] ∧
    symbolsOf "extern int x; unsigned long n = sizeof(x + 1);" =
      some [("",0),("<string>",65521),("n",2),("x",0)] := by
  decide +kernel

end Compile
end OnePass
