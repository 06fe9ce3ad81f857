import OnePass.Elf.Section

/-! # The section arena

All sections of one state. Sections refer to each other by their place in the arena; the listed ones
also have a section number, in order of creation. -/
namespace OnePass.Elf

structure Arena where
  sections : Array Section := #[]
  listed : Array SectionId := #[]
  unlisted : Array SectionId := #[]
  text : SectionId := 0
  data : SectionId := 0
  bss : SectionId := 0
  symtab : SectionId := 0
  dynsymtab : SectionId := 0
  deriving DecidableEq, Repr, Inhabited

namespace Arena

def get (arena : Arena) (id : SectionId) : Section := arena.sections[id]?.getD {}

def update (arena : Arena) (id : SectionId) (f : Section → Section) : Arena :=
  { arena with sections := arena.sections.modify id f }

def updateGet (arena : Arena) (id : SectionId) (f : Section → α × Section) : α × Arena :=
  let (result, sec) := f (arena.get id)
  (result, arena.update id fun _ => sec)

def create (arena : Arena) (name : String) (type flags : UInt32) : SectionId × Arena :=
  let id := arena.sections.size
  let sec := Section.create name type flags
  if sec.isUnlisted then
    (id, { arena with sections := arena.sections.push sec, unlisted := arena.unlisted.push id })
  else
    (id, { arena with
      sections := arena.sections.push { sec with number := arena.listed.size }
      listed := arena.listed.push id })

def numbered (arena : Arena) : List SectionId := arena.listed.toList.drop 1

def find? (arena : Arena) (name : String) : Option SectionId :=
  arena.numbered.find? fun id => (arena.get id).name == name

def findOrCreate (arena : Arena) (name : String) : SectionId × Arena :=
  match arena.find? name with
  | some id => (id, arena)
  | none => arena.create name SectionType.progbits SectionFlag.alloc

def byNumber? (arena : Arena) (number : Nat) : Option SectionId := arena.listed[number]?

def allocated (arena : Arena) : List SectionId :=
  arena.numbered.filter fun id => (arena.get id).isAllocated

end Arena
end OnePass.Elf
