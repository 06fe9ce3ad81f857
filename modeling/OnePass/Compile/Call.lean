import OnePass.Compile.Operator

/-! # Calls and frames

The first six arguments go into registers and the others on the stack, which is aligned to 16 bytes at
the call. Arguments are pushed in order as they are computed and moved to their places before the
call. -/
namespace OnePass

inductive Callee where
  | direct (id : EntityId)
  | indirect
  deriving DecidableEq, Repr

/-- The words that were pushed before the arguments. -/
def Callee.pushed : Callee → Nat
  | .direct _ => 0
  | .indirect => 1

namespace Compile

open X86

def argumentRegisters : List Reg := [.rdi, .rsi, .rdx, .rcx, .r8, .r9]

structure CallLayout where
  onStack : Nat
  area : Nat
  deriving DecidableEq, Repr

def callLayout (args : Nat) (depth : Int) : CallLayout :=
  let onStack := args - argumentRegisters.length
  let used := (depth + (onStack * 8 : Nat)) % 16
  let pad := ((16 - used) % 16).toNat
  { onStack, area := pad + onStack * 8 }

def CallLayout.slot (layout : CallLayout) (args i : Nat) : Mem :=
  .stack (Int32.ofNat (layout.area + 8 * (args - 1 - i)))

def passArguments (layout : CallLayout) (args : Nat) : List Instr :=
  let inRegisters := args - layout.onStack
  let stacked := (List.range layout.onStack).flatMap fun j =>
    [.load .rax (layout.slot args (inRegisters + j)) 8 false,
      .store .rax (.stack (Int32.ofNat (8 * j))) 8]
  let registers := (argumentRegisters.take inRegisters).mapIdx fun i reg =>
    .load reg (layout.slot args i) 8 false
  .subRsp (Int32.ofNat layout.area) :: stacked ++ registers ++ [.clearEax]

/-- The code from the last argument to the call. -/
def callCode (callee : Callee) (args : Nat) (layout : CallLayout) : List Instr :=
  passArguments layout args ++ match callee with
    | .direct _ => []
    | .indirect => [.load .r11 (.stack (Int32.ofNat (layout.area + 8 * args))) 8 false]

def transfer : Callee → CompileM Unit
  | .direct id => do emit (.call (← symbolOf id))
  | .indirect => emit .callR11

/-- Call a function whose arguments have been pushed; the result becomes an operand. -/
def call (callee : Callee) (args : Nat) (result : CType) : CompileM Unit := do
  let layout := callLayout args (← get).stackDepth
  let pushed := 8 * (args + callee.pushed)
  (callCode callee args layout).forM emit
  transfer callee
  emit (.addRsp (Int32.ofNat (layout.area + pushed)))
  modify fun s => if s.noCode then s else { s with stackDepth := s.stackDepth - pushed }
  if result.isVoid then push (Value.const .plainVoid 0)
  else
    let (width, signed) := result.width
    emit (.extend .rax width signed)
    push { type := result.unqualified, place := .register }

def pushArgument : CompileM Unit := do
  load
  pushRegister .rax
  forget 1

def prologue : CompileM Nat := do
  modify fun s => { s with frameUsed := 0, stackDepth := 0 }
  return (← emitHole .prologue).getD 0

def storeParameter (reg : Reg) (type : CType) (extent : Extent) : CompileM Int32 := do
  let offset ← allocLocal (max extent.size 1) extent.align
  emit (.store reg (.frame offset) type.width.1)
  return offset

/-- End a function: the end of `main` returns 0, and the frame size is a multiple of 16. -/
def epilogue (frameHole : Nat) (returns : List Nat) (isMain : Bool) : CompileM Unit := do
  if isMain then emit .clearEax
  patchHere returns
  emit .epilogue
  modify fun s => s.fill frameHole (Int32.ofNat ((s.frameUsed + 15) / 16 * 16))

def zeroLocal (offset : Int32) (size : UInt64) : CompileM Unit := do
  spill
  emit (.lea .rdi (.frame offset))
  emit (.movImm .rcx size.toInt64)
  emit .clearEax
  emit .repStosb

def storeBytesCode (offset : Int32) : Bytes → List Instr
  | b0 :: b1 :: b2 :: b3 :: b4 :: b5 :: b6 :: b7 :: rest =>
    let word := UInt64.ofNat (Bytes.toNatLE [b0, b1, b2, b3, b4, b5, b6, b7])
    .movImm .rax word.toInt64 :: .store .rax (.frame offset) 8 :: storeBytesCode (offset + 8) rest
  | b :: rest =>
    .movImm .rax (Int64.ofNat b.toNat) :: .store .rax (.frame offset) 1 ::
      storeBytesCode (offset + 1) rest
  | [] => []

def storeBytes (offset : Int32) (bytes : Bytes) : CompileM Unit := do
  spill
  (storeBytesCode offset bytes).forM emit

end Compile
end OnePass
