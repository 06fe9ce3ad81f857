import OnePass.Proofs.ArenaForm

/-! # What compiling does to the sections

While a unit is compiled, sections take instructions, data and relocations, symbols are added or changed,
and sections are made. Where nothing is emitted and nothing is stored, a symbol can still be referred to. -/
namespace OnePass.Elf.Arena

/-- Nothing but references to symbols. -/
inductive Refers (a : Arena) : Arena → Prop where
  | refl : Refers a a
  | refer {b c : Arena} {info : UInt8} {name : String} {symbol : Nat} (before : Refers a b)
    (added : b.addSymbol b.symtab { info, index := SectionIndex.undef } name = .ok (symbol, c)) : Refers a c

/-- Everything that a unit can do. -/
inductive Develops (a : Arena) : Arena → Prop where
  | refl : Develops a a
  | append {b : Arena} (before : Develops a b) (sec : SectionId) (bytes : Bytes) :
    Develops a (b.update sec (·.append bytes))
  | patch {b : Arena} (before : Develops a b) (sec : SectionId) (offset : Nat) (bytes : Bytes) :
    Develops a (b.update sec (·.patch offset bytes))
  | align {b : Arena} (before : Develops a b) (sec : SectionId) (align : UInt64) :
    Develops a (b.update sec fun section_ => (section_.alignTo align).2)
  | grow {b : Arena} {sec : SectionId} {more offset : Nat} {grown : Section} (before : Develops a b)
    (room : (b.get sec).grow? more = some (offset, grown)) : Develops a (b.update sec fun _ => grown)
  | relocate {b : Arena} (before : Develops a b) (sec : SectionId) (rel : Relocation) :
    Develops a (b.putRelocation b.symtab sec rel)
  | define {b c : Arena} {entry : SymbolEntry} {name : String} {symbol : Nat} (before : Develops a b)
    (added : b.addSymbol b.symtab entry name = .ok (symbol, c)) : Develops a c
  | redefine {b : Arena} (before : Develops a b) (symbol : Nat) (sym : Symbol) :
    Develops a (b.setSymbol b.symtab symbol sym)
  | create {b : Arena} (before : Develops a b) (name : String) (extra : UInt32) :
    Develops a (b.create name SectionType.progbits (SectionFlag.alloc ||| extra)).2

theorem Refers.trans (first : Refers a b) (second : Refers b c) : Refers a c := by
  induction second with
  | refl => exact first
  | refer _ added ih => exact ih.refer added

theorem Refers.develops (refers : Refers a b) : Develops a b := by
  induction refers with
  | refl => exact .refl
  | refer _ added ih => exact ih.define added

theorem Develops.trans (first : Develops a b) (second : Develops b c) : Develops a c := by
  induction second with
  | refl => exact first
  | append _ sec bytes ih => exact ih.append sec bytes
  | patch _ sec offset bytes ih => exact ih.patch sec offset bytes
  | align _ sec align ih => exact ih.align sec align
  | grow _ room ih => exact ih.grow room
  | relocate _ sec rel ih => exact ih.relocate sec rel
  | define _ added ih => exact ih.define added
  | redefine _ symbol sym ih => exact ih.redefine symbol sym
  | create _ name extra ih => exact ih.create name extra

end OnePass.Elf.Arena
