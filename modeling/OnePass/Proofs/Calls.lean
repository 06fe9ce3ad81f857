import OnePass.Compile.Call
import OnePass.Proofs.ArenaGrow
import OnePass.Proofs.Declarations
import OnePass.Proofs.RelocationTables

/-! # Calls by the convention

What the code around a call does to a machine: the arguments, which were pushed in order, come to the registers and
to the places on the stack where the callee looks for them, and behind the call they are gone. -/
namespace OnePass.X86

open List Bytes

abbrev Word := BitVec 64

structure Machine where
  regs : Reg → Word
  memory : Word → UInt8

namespace Machine

variable {m : Machine}

def set (m : Machine) (reg : Reg) (v : Word) : Machine := { m with regs := Function.update m.regs reg v }

/-- The eight bytes from an address on, the lowest first. -/
def word (m : Machine) (a : Word) : Word :=
  BitVec.ofNat 64 (toNatLE ((range 8).map fun i => m.memory (a + BitVec.ofNat 64 i)))

def put (m : Machine) (a v : Word) : Machine :=
  { m with memory b := (ofNatLE 8 v.toNat).getD (b - a).toNat (m.memory b) }

/-- The word so many bytes above the top of the stack. -/
def stacked (m : Machine) (offset : Nat) : Word := m.word (m.regs .rsp + BitVec.ofNat 64 offset)

def displaced (m : Machine) (reg : Reg) (offset : Int32) : Word := m.regs reg + offset.toBitVec.signExtend 64

def address? (m : Machine) : Mem → Option Word
  | .frame offset => some (m.displaced .rbp offset)
  | .stack offset => some (m.displaced .rsp offset)
  | .base reg offset => some (m.displaced reg offset)
  | .rip _ _ _ => none

/-- The instructions that move words and the stack pointer. -/
def step (m : Machine) : Instr → Option Machine
  | .load dst mem 8 _ => (m.address? mem).map fun a => m.set dst (m.word a)
  | .store src mem 8 => (m.address? mem).map fun a => m.put a (m.regs src)
  | .clearEax => some (m.set .rax 0)
  | .subRsp size => some (m.set .rsp (m.regs .rsp - size.toBitVec.signExtend 64))
  | .addRsp size => some (m.set .rsp (m.displaced .rsp size))
  | _ => none

def run (m : Machine) (code : List Instr) : Option Machine := code.foldlM step m

@[simp] theorem regs_put : (m.put a v).regs = m.regs := rfl

end Machine
end OnePass.X86

namespace OnePass.Compile

open X86 Machine

open Elf

/-- Code is made, in a section that stores it and holds no relocations. -/
structure Emitting (s : Compiler) : Prop where
  code : s.noCode = false
  bound : s.text < s.arena.sections.size
  backed : (s.arena.get s.text).Backed
  related : s.arena.Related
  clear : ¬s.arena.Relates s.text

/-- Symbols and their names go elsewhere. -/
def Apart (s : Compiler) : Prop := ∀ sec ∈ s.arena.tables, sec ≠ s.text ∧ ¬s.arena.Relates sec

/-- Instructions have been put behind the code, and no relocation is lost. -/
structure Emits (code : List Instr) (s t : Compiler) : Prop where
  emitting : Emitting t
  text : t.text = s.text
  bytes : (t.arena.get t.text).contents = (s.arena.get s.text).contents ++ (code.flatMap (·.encode.bytes)).toArray
  kept : ∀ rel ∈ s.arena.relocations s.text, rel ∈ t.arena.relocations t.text

theorem Emits.refl (emitting : Emitting s) : Emits [] s s := ⟨emitting,rfl,by simp,fun _ => id⟩

theorem Emits.trans (first : Emits code s t) (second : Emits more t u) : Emits (code ++ more) s u where
  emitting := second.emitting
  text := second.text.trans first.text
  bytes := by rw [second.bytes,first.bytes]; simp
  kept rel member := second.kept rel (first.kept rel member)

theorem Emitting.append (emitting : Emitting s) (bytes : Bytes) :
    let t : Compiler := { s with arena := s.arena.update s.text (·.append bytes) }
    Emitting t ∧ (t.arena.get t.text).contents = (s.arena.get s.text).contents ++ bytes.toArray ∧
      t.arena.relocations t.text = s.arena.relocations s.text := by
  intro t
  have framed : Arena.Framed [s.text] s.arena t.arena := .update _ (List.mem_singleton_self _) (.append _ _)
  obtain ⟨related,same⟩ := emitting.related.framed framed (List.forall_mem_singleton.mpr emitting.clear)
  have here : t.arena.get t.text = (s.arena.get s.text).append bytes := Arena.get_update_same emitting.bound
  refine ⟨⟨emitting.code,emitting.bound.trans_eq framed.size.symm,?_,related,?_⟩,?_,same _⟩
  · rw [here]
    exact Section.append_backed emitting.backed _
  · rw [framed.relates]
    exact emitting.clear
  · rw [here,Section.contents_append emitting.backed]

/-- The instruction of a call. -/
def Callee.instr (scope : Scope) : Callee → Instr
  | .direct id => .call (scope.get id).symbol
  | .indirect => .callR11

end OnePass.Compile
