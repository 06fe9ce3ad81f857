import OnePass.Compile.Binding
import OnePass.Compile.Emit

/-! # Operands and registers

At most one operand is in `rax`. Before another one is loaded it is pushed on the machine stack, and
pushed operands are used in the opposite order. An integer in a register is always extended to 64
bits as its type says. -/
namespace OnePass.Compile

open X86

def push (v : Value) : CompileM Unit := modify fun s => { s with values := v :: s.values }

def pushConst (type : CType) (value : Int64) : CompileM Unit :=
  push (Value.const type (type.canonical value))

def top : CompileM Value := return (← get).values.headD default

def second : CompileM Value := return (← get).values[1]?.getD default

def modifyTop (f : Value → Value) : CompileM Unit :=
  modify fun s => { s with values := s.values.modify 0 f }

def modifySecond (f : Value → Value) : CompileM Unit :=
  modify fun s => { s with values := s.values.modify 1 f }

def forget (count : Nat) : CompileM Unit := modify fun s => { s with values := s.values.drop count }

def replace (count : Nat) (v : Value) : CompileM Unit := do
  forget count
  push v

/-- Discard the latest operand, with its room on the machine stack. -/
def pop : CompileM Unit := do
  let v ← top
  forget 1
  if v.place == .spilled then popRegister .r11

def dup : CompileM Unit := do push (← top)

def rvalue : CompileM Unit := modifyTop Value.decayed

/-- Push `rax` on the machine stack if an operand is in it, unless that is one of the latest. -/
def spillBelow (keep : Nat) : CompileM Unit := do
  let s ← get
  if s.noCode then return
  if let some i := s.values.findIdx? (·.place == .register) then
    if i ≥ keep then
      pushRegister .rax
      modify fun s => { s with values := s.values.modify i ({ · with place := .spilled }) }

def spill : CompileM Unit := spillBelow 0

def isNear (symbol : Nat) : CompileM Bool := do
  let arena := (← get).arena
  let index := (arena.symbol arena.symtab symbol).index
  return index != Elf.SectionIndex.undef && index != Elf.SectionIndex.abs

def nearMem (symbol : Nat) (addend : Int64) : Mem := .rip symbol addend Elf.RelocType.pc32.code

def addressMem (symbol : Nat) : Mem := .rip symbol 0 Elf.RelocType.gotPcRel.code

def loadSymbol (dst : Reg) (id : EntityId) (addend : Int64) : CompileM Unit := do
  let symbol ← symbolOf id
  if ← isNear symbol then emit (.lea dst (nearMem symbol addend))
  else
    emit (.load dst (addressMem symbol) 8 false)
    if addend != 0 then emit (.lea dst (.base dst addend.toInt32))

def objectMem : Place → CompileM Mem
  | .frame offset => return .frame offset
  | .const address => do
    emit (.movImm .r11 address)
    return .base .r11 0
  | .symbol id addend => do
    let symbol ← symbolOf id
    if ← isNear symbol then return nearMem symbol addend
    emit (.load .r11 (addressMem symbol) 8 false)
    return .base .r11 addend.toInt32
  | .register => return .base .rax 0
  | .spilled => do
    popRegister .r11
    return .base .r11 0
  | .indirect offset => do
    emit (.load .r11 (.frame offset) 8 false)
    return .base .r11 0

def loadAddress (dst : Reg) : Place → CompileM Unit
  | .const value => emit (.movImm dst value)
  | .frame offset => emit (.lea dst (.frame offset))
  | .symbol id addend => loadSymbol dst id addend
  | .register => emit (.mov dst .rax)
  | .spilled => popRegister dst
  | .indirect offset => emit (.load dst (.frame offset) 8 false)

/-- Load a value; of what is handled through its address, the address. -/
def loadTo (dst : Reg) (v : Value) : CompileM Unit := do
  if v.lvalue && !v.type.isAggregate then
    let mem ← objectMem v.place
    let (width, signed) := v.type.width
    emit (.load dst mem width signed)
  else loadAddress dst v.place

def load : CompileM Unit := do
  let v ← top
  let aggregate := v.type.isAggregate
  if v.place == .register && (!v.lvalue || aggregate) then return
  spillBelow 1
  loadTo .rax v
  modifyTop fun w => { w with place := .register, lvalue := v.lvalue && aggregate }

def loadBoth : CompileM Unit := do
  spillBelow 2
  let right ← top
  if right.place == .register && !right.lvalue then emit (.mov .rcx .rax) else loadTo .rcx right
  let left ← second
  if left.place != .register || left.lvalue then loadTo .rax left
  modifyTop ({ · with place := .register })
  modifySecond ({ · with place := .register, lvalue := false })

/-- A register that holds a value of one type has to be extended again to hold it as another. -/
def needsExtension (source target : CType) : Bool :=
  let (widthTo, signedTo) := target.width
  let (width, signed) := source.width
  widthTo < 8 && (widthTo < width || (widthTo == width && signed != signedTo) || (signed && !signedTo))

def convertRegister (reg : Reg) (source target : CType) : CompileM Unit := do
  if needsExtension source target then
    let (width, signed) := target.width
    emit (.extend reg width signed)

/-- Keep the address of an lvalue in a frame slot, so that it can be read and written. -/
def stabilize : CompileM Unit := do
  let place := (← top).place
  if place == .register || place == .spilled then
    loadAddress .rax place
    let slot ← allocSlot
    emit (.store .rax (.frame slot) 8)
    modifyTop ({ · with place := .indirect slot })

end OnePass.Compile
